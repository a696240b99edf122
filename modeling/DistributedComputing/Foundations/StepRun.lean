import Mathlib.Data.List.Basic

/-!
# Runs of a labelled machine

The run vocabulary every state machine of this development is stated in. A machine is a **partial
step function** `step : σ → α → Option σ`: the label carries everything the environment chooses (the
message that arrived, the clock, whether a send succeeded), and `none` says that the label is not
enabled in this state. Nothing here knows what the states are.

Three ways of speaking about a run are kept apart:

* `Run step s as t` — executing the labels `as` from `s` ends in `t`;
* `Along step P s as` — `P` holds in every state met on the way, the first and the last included;
* `Meets step ok s as` — every step that was taken met the condition `ok` on its source state and
  its label.

The rule that carries most of the development is `along_iff_meets`: where a step from a good state
leads to a good state **exactly when** it meets a condition, a whole run stays good exactly when all
its steps meet it.

A machine whose steps report events is turned into one over states paired with what an observer
makes of the events (`observed`); the observer that keeps them all gives `logged`.
-/

namespace StepRun

variable {σ α ε : Type*}

/-- `Run step s as t`: the labels `as`, all of them enabled in turn, lead from `s` to `t`. -/
inductive Run (step : σ → α → Option σ) : σ → List α → σ → Prop
  | nil (s : σ) : Run step s [] s
  | cons {s t u : σ} {a : α} {as : List α} (h : step s a = some t) (hr : Run step t as u) :
      Run step s (a :: as) u

/-- `P` holds in every state met while executing the labels. An execution ends at the first label
that is not enabled, so nothing is asked beyond it. -/
def Along (step : σ → α → Option σ) (P : σ → Prop) : σ → List α → Prop
  | s, [] => P s
  | s, a :: as =>
    P s ∧
      match step s a with
      | none => True
      | some t => Along step P t as

/-- Every step taken while executing the labels meets `ok` on its source state and its label. -/
def Meets (step : σ → α → Option σ) (ok : σ → α → Prop) : σ → List α → Prop
  | _, [] => True
  | s, a :: as =>
    match step s a with
    | none => True
    | some t => ok s a ∧ Meets step ok t as

/-- The state at the end of an execution, if all labels are enabled in turn. -/
def exec (step : σ → α → Option σ) : σ → List α → Option σ
  | s, [] => some s
  | s, a :: as => (step s a).bind fun t => exec step t as

section Basic

variable {step : σ → α → Option σ} {P I : σ → Prop} {ok : σ → α → Prop}

theorem along_cons_of_some {s t : σ} {a : α} {as : List α} (h : step s a = some t) :
    Along step P s (a :: as) ↔ P s ∧ Along step P t as := by
  rw [Along, h]

theorem along_cons_of_none {s : σ} {a : α} {as : List α} (h : step s a = none) :
    Along step P s (a :: as) ↔ P s := by
  rw [Along, h, and_true]

theorem meets_cons_of_some {s t : σ} {a : α} {as : List α} (h : step s a = some t) :
    Meets step ok s (a :: as) ↔ ok s a ∧ Meets step ok t as := by
  rw [Meets, h]

theorem meets_cons_of_none {s : σ} {a : α} {as : List α} (h : step s a = none) :
    Meets step ok s (a :: as) := by
  rw [Meets, h]
  trivial

/-- Conditions that can be checked can be checked along an execution. -/
instance decidableMeets [∀ s a, Decidable (ok s a)] : ∀ s as, Decidable (Meets step ok s as)
  | _, [] => isTrue trivial
  | s, a :: as =>
    match h : step s a with
    | none => isTrue (meets_cons_of_none h)
    | some t =>
      have := decidableMeets t as
      decidable_of_iff' _ (meets_cons_of_some h)

instance decidableAlong [DecidablePred P] : ∀ s as, Decidable (Along step P s as)
  | s, [] => inferInstanceAs (Decidable (P s))
  | s, a :: as =>
    match h : step s a with
    | none => decidable_of_iff' _ (along_cons_of_none h)
    | some t =>
      have := decidableAlong t as
      decidable_of_iff' _ (along_cons_of_some h)

/-- The first state of an execution is one of the states it meets. -/
theorem Along.head {s : σ} {as : List α} (h : Along step P s as) : P s := by
  cases as with
  | nil => exact h
  | cons a as => exact h.1

/-! ### Runs -/

/-- Executions that can be computed are runs. -/
theorem run_of_exec {s t : σ} {as : List α} (h : exec step s as = some t) : Run step s as t := by
  induction as generalizing s with
  | nil =>
    obtain rfl := Option.some.inj h
    exact .nil s
  | cons a as ih =>
    obtain ⟨u, hu, ht⟩ := Option.bind_eq_some_iff.1 h
    exact .cons hu (ih ht)

/-- The run to the computed end state. -/
theorem run_get {s : σ} {as : List α} (h : (exec step s as).isSome) :
    Run step s as ((exec step s as).get h) :=
  run_of_exec (Option.some_get h).symm

/-- **The invariant rule.** What every step preserves holds at the end of every run. -/
theorem Run.invariant (hstep : ∀ {s a t}, I s → step s a = some t → I t) {s t : σ} {as : List α}
    (h : Run step s as t) (hs : I s) : I t := by
  induction h with
  | nil s => exact hs
  | cons ha _ ih => exact ih (hstep hs ha)

/-- **The guarded invariant rule.** What every step meeting `ok` preserves holds at the end of every
run whose steps all meet `ok`. -/
theorem Run.invariant_of_meets (hstep : ∀ {s a t}, I s → ok s a → step s a = some t → I t)
    {s t : σ} {as : List α} (h : Run step s as t) (hok : Meets step ok s as) (hs : I s) : I t := by
  induction h with
  | nil s => exact hs
  | cons ha _ ih =>
    rw [meets_cons_of_some ha] at hok
    exact ih hok.2 (hstep hs hok.1 ha)

/-- What every step with a `good` label preserves holds at the end of a run of such labels. -/
theorem Run.invariant_of_labels {good : α → Prop}
    (hstep : ∀ {s a t}, I s → good a → step s a = some t → I t) {s t : σ} {as : List α}
    (h : Run step s as t) (has : ∀ a ∈ as, good a) (hs : I s) : I t := by
  induction h with
  | nil s => exact hs
  | cons ha _ ih =>
    obtain ⟨hgood, has⟩ := List.forall_mem_cons.1 has
    exact ih has (hstep hs hgood ha)

theorem Run.append {s t u : σ} {as bs : List α} (h : Run step s as t) (h' : Run step t bs u) :
    Run step s (as ++ bs) u := by
  induction h with
  | nil s => exact h'
  | cons ha _ ih => exact .cons ha (ih h')

theorem Run.split {s u : σ} {as bs : List α} (h : Run step s (as ++ bs) u) :
    ∃ t, Run step s as t ∧ Run step t bs u := by
  induction as generalizing s with
  | nil => exact ⟨s, .nil s, h⟩
  | cons a as ih =>
    cases h with
    | cons ha hr =>
      obtain ⟨t, hrun, hrest⟩ := ih hr
      exact ⟨t, .cons ha hrun, hrest⟩

theorem Run.eq_of_run {s t u : σ} {as : List α} (h : Run step s as t) (h' : Run step s as u) :
    t = u := by
  induction h with
  | nil s =>
    cases h'
    rfl
  | cons ha _ ih =>
    cases h' with
    | cons hb hr =>
      obtain rfl := Option.some.inj (ha.symm.trans hb)
      exact ih hr

/-- **The guarded invariant rule, along an execution.** -/
theorem along_of_meets (hstep : ∀ {s a t}, I s → ok s a → step s a = some t → I t) {s : σ}
    {as : List α} (hs : I s) (hok : Meets step ok s as) : Along step I s as := by
  induction as generalizing s with
  | nil => exact hs
  | cons a as ih =>
    rcases ha : step s a with - | t
    · exact (along_cons_of_none ha).2 hs
    · rw [meets_cons_of_some ha] at hok
      exact (along_cons_of_some ha).2 ⟨hs, ih (hstep hs hok.1 ha) hok.2⟩

/-- A run all of whose steps meet `ok`. -/
structure GuardedRun (step : σ → α → Option σ) (ok : σ → α → Prop) (s : σ) (as : List α) (t : σ) :
    Prop where
  run : Run step s as t
  meets : Meets step ok s as

theorem GuardedRun.nil (s : σ) : GuardedRun step ok s [] s := ⟨.nil s, trivial⟩

theorem GuardedRun.cons {s t u : σ} {a : α} {as : List α} (h : step s a = some t) (hok : ok s a)
    (hr : GuardedRun step ok t as u) : GuardedRun step ok s (a :: as) u :=
  ⟨.cons h hr.run, (meets_cons_of_some h).2 ⟨hok, hr.meets⟩⟩

theorem GuardedRun.append {s t u : σ} {as bs : List α} (h : GuardedRun step ok s as t)
    (h' : GuardedRun step ok t bs u) : GuardedRun step ok s (as ++ bs) u := by
  obtain ⟨hrun, hmeets⟩ := h
  induction hrun with
  | nil s => exact h'
  | cons ha _ ih =>
    rw [meets_cons_of_some ha] at hmeets
    exact .cons ha hmeets.1 (ih h' hmeets.2)

/-- `Along` speaks about exactly the states that initial segments of the labels lead to. -/
theorem along_iff_forall_run {s : σ} {as : List α} :
    Along step P s as ↔ ∀ as₁ as₂ t, as = as₁ ++ as₂ → Run step s as₁ t → P t := by
  induction as generalizing s with
  | nil =>
    constructor
    · intro h as₁ as₂ t heq hr
      obtain ⟨rfl, -⟩ := List.append_eq_nil_iff.1 heq.symm
      cases hr
      exact h
    · intro h
      exact h [] [] s rfl (.nil s)
  | cons a as ih =>
    constructor
    · intro h as₁ as₂ t heq hr
      cases hr with
      | nil => exact h.head
      | cons hs hr' =>
        obtain ⟨rfl, rfl⟩ := List.cons.inj heq
        exact ih.1 ((along_cons_of_some hs).1 h).2 _ _ _ rfl hr'
    · intro h
      have hP : P s := h [] (a :: as) s rfl (.nil s)
      rcases hs : step s a with - | t
      · exact (along_cons_of_none hs).2 hP
      · refine (along_cons_of_some hs).2 ⟨hP, ih.2 fun as₁ as₂ u heq hr => ?_⟩
        exact h (a :: as₁) as₂ u (by rw [heq, List.cons_append]) (.cons hs hr)

theorem Along.mono {s : σ} {as : List α} (h : Along step I s as) (hP : ∀ {s}, I s → P s) :
    Along step P s as :=
  along_iff_forall_run.2 fun as₁ as₂ t heq hr => hP (along_iff_forall_run.1 h as₁ as₂ t heq hr)

/-- **The exactness rule for states and steps.** Among the steps that meet `env`, let one from a
state satisfying `P` meet `ok'` and lead to a state satisfying `P` exactly when it meets `ok`, and
let those that do preserve `I`. Then an execution whose steps all meet `env` stays in `P` with all
its steps meeting `ok'` exactly when they all meet `ok`. -/
theorem along_and_meets_iff {env ok' : σ → α → Prop}
    (hI : ∀ {s a t}, I s → P s → env s a → ok s a → step s a = some t → I t)
    (hstep : ∀ {s a t}, I s → P s → env s a → step s a = some t → (P t ∧ ok' s a ↔ ok s a)) {s : σ}
    {as : List α} (henv : Meets step env s as) (hs : I s) (hP : P s) :
    Along step P s as ∧ Meets step ok' s as ↔ Meets step ok s as := by
  induction as generalizing s with
  | nil => exact iff_of_true ⟨hP, trivial⟩ trivial
  | cons a as ih =>
    rcases ha : step s a with - | t
    · exact iff_of_true ⟨(along_cons_of_none ha).2 hP, meets_cons_of_none ha⟩
        (meets_cons_of_none ha)
    · rw [meets_cons_of_some ha] at henv
      rw [along_cons_of_some ha, meets_cons_of_some ha, meets_cons_of_some ha]
      have hgood := hstep hs hP henv.1 ha
      have hrest := fun hok => ih henv.2 (hI hs hP henv.1 hok ha) (hgood.2 hok).1
      constructor
      · rintro ⟨⟨-, halong⟩, hok', hmeets⟩
        have hok : ok s a := hgood.1 ⟨halong.head, hok'⟩
        exact ⟨hok, (hrest hok).1 ⟨halong, hmeets⟩⟩
      · rintro ⟨hok, hmeets⟩
        obtain ⟨halong, hmeets'⟩ := (hrest hok).2 hmeets
        exact ⟨⟨hP, halong⟩, (hgood.2 hok).2, hmeets'⟩

/-- **The label rule.** Let `I` be preserved by every step whose label is `good`, and let it imply
that such a step meets `ok`. Then an execution of good labels meets `ok` throughout. -/
theorem meets_of_labels {good : α → Prop}
    (hI : ∀ {s a t}, I s → good a → step s a = some t → I t)
    (hok : ∀ {s a}, I s → good a → ok s a) {s : σ} {as : List α} (hs : I s)
    (has : ∀ a ∈ as, good a) : Meets step ok s as := by
  induction as generalizing s with
  | nil => trivial
  | cons a as ih =>
    have hgood : good a := has a (List.mem_cons_self ..)
    rcases ha : step s a with - | t
    · exact meets_cons_of_none ha
    · refine (meets_cons_of_some ha).2 ⟨hok hs hgood, ih (hI hs hgood ha) fun b hb => ?_⟩
      exact has b (List.mem_cons_of_mem a hb)

/-- **The invariant rule for labels.** -/
theorem along_of_labels {good : α → Prop}
    (hI : ∀ {s a t}, I s → good a → step s a = some t → I t) {s : σ} {as : List α} (hs : I s)
    (has : ∀ a ∈ as, good a) : Along step I s as :=
  along_of_meets hI hs (meets_of_labels hI (fun _ hgood => hgood) hs has)

theorem meets_true {s : σ} {as : List α} : Meets step (fun _ _ => True) s as :=
  meets_of_labels (fun _ _ _ => trivial)
    (fun _ _ => trivial) trivial fun _ _ => trivial

/-- **The exactness rule, with an invariant of the good steps.** -/
theorem along_iff_meets_of_guarded {env : σ → α → Prop}
    (hI : ∀ {s a t}, I s → P s → env s a → ok s a → step s a = some t → I t)
    (hstep : ∀ {s a t}, I s → P s → env s a → step s a = some t → (P t ↔ ok s a)) {s : σ}
    {as : List α} (henv : Meets step env s as) (hs : I s) (hP : P s) :
    Along step P s as ↔ Meets step ok s as := by
  have h : Along step P s as ∧ Meets step (fun _ _ => True) s as ↔ Meets step ok s as :=
    along_and_meets_iff hI (fun hi hp he ha => (and_iff_left trivial).trans (hstep hi hp he ha))
      henv hs hP
  exact (and_iff_left meets_true).symm.trans h

/-- **The exactness rule, under assumptions on the environment.** -/
theorem along_iff_meets_of_meets {env : σ → α → Prop}
    (hI : ∀ {s a t}, I s → env s a → step s a = some t → I t)
    (hstep : ∀ {s a t}, I s → P s → env s a → step s a = some t → (P t ↔ ok s a)) {s : σ}
    {as : List α} (henv : Meets step env s as) (hs : I s) (hP : P s) :
    Along step P s as ↔ Meets step ok s as :=
  along_iff_meets_of_guarded (fun hi _ he _ ha => hI hi he ha) hstep henv hs hP

/-- **The exactness rule.** If a step from a state satisfying `P` leads to one satisfying `P`
exactly when it meets `ok`, an execution stays in `P` exactly when all its steps meet `ok`. -/
theorem along_iff_meets (hI : ∀ {s a t}, I s → step s a = some t → I t)
    (hstep : ∀ {s a t}, I s → P s → step s a = some t → (P t ↔ ok s a)) {s : σ} {as : List α}
    (hs : I s) (hP : P s) : Along step P s as ↔ Meets step ok s as :=
  along_iff_meets_of_meets (fun hi _ ha => hI hi ha) (fun hi hp _ ha => hstep hi hp ha) meets_true
    hs hP

end Basic

/-! ### Machines that report what they do -/

section Observed

variable {ω : Type*} {step : σ → α → Option (σ × List ε)}

/-- The machine of a step function that also reports events, with an observer that works the events
of each step into its own state. -/
def observed (step : σ → α → Option (σ × List ε)) (f : ω → List ε → ω) (s : σ × ω) (a : α) :
    Option (σ × ω) :=
  (step s.1 a).map fun r => (r.1, f s.2 r.2)

theorem observed_eq_some_iff {f : ω → List ε → ω} {s t : σ × ω} {a : α} :
    observed step f s a = some t ↔ ∃ es, step s.1 a = some (t.1, es) ∧ t.2 = f s.2 es := by
  obtain ⟨t, o⟩ := t
  simp only [observed, Option.map_eq_some_iff, Prod.mk.injEq, Prod.exists]
  constructor
  · rintro ⟨t', es, h, rfl, rfl⟩
    exact ⟨es, h, rfl⟩
  · rintro ⟨es, h, rfl⟩
    exact ⟨t, es, h, rfl, rfl⟩

/-- The observer that keeps the log of everything reported so far. -/
def logged (step : σ → α → Option (σ × List ε)) : σ × List ε → α → Option (σ × List ε) :=
  observed step fun log es => log ++ es

theorem logged_eq_some_iff {s t : σ × List ε} {a : α} :
    logged step s a = some t ↔ ∃ es, step s.1 a = some (t.1, es) ∧ t.2 = s.2 ++ es :=
  observed_eq_some_iff

end Observed

end StepRun
