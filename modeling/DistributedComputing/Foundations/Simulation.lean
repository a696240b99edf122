import DistributedComputing.Foundations.StepRun

/-!
# Machines that follow machines, and machines that come to rest

Two rules about the runs of `StepRun`, for any machines.

**Simulation.** A machine that takes input and reports events is followed by a second one if each of
its steps is matched by a step of the second with the same input that reports the same, or by none
at all where there is no input and nothing to report (`Follows`). The machines may use different
vocabularies: `input` reads the input off the labels of each, and `g` says what an event of the
first means in that of the second. Then every run is followed by a run with the same input and the
same log (`exists_run_of_follows`), and what holds of all runs of the second machine holds of the
first. Where states and labels are simply mapped, so are runs (`Run.map`).

**Rest.** Some labels are `busy`, and the others may occur any number of times. If a measure never
grows and every busy step lowers it, it bounds the busy steps of every run (`Run.countP_add_le`).
-/

namespace StepRun

variable {σ τ α β γ ε δ : Type*}

/-! ### Simulation -/

/-- One step of a machine with input `xs` that reports `es`, or none where there is no input and
nothing to report, to a state with `R`. -/
inductive Follows (step : τ → β → Option (τ × List δ)) (input : β → List γ) (R : τ → Prop) (s : τ) :
    List γ → List δ → Prop
  | stutter (h : R s) : Follows step input R s [] []
  | step {b : β} {t : τ} {es : List δ} (hs : step s b = some (t, es)) (h : R t) :
      Follows step input R s (input b) es

variable {step : σ → α → Option (σ × List ε)} {step' : τ → β → Option (τ × List δ)}
  {input : α → List γ} {input' : β → List γ}

/-- What a machine does next continues its log. -/
theorem Follows.exists_run {R : τ → Prop} {s : τ} {xs : List γ} {es : List δ}
    (h : Follows step' input' R s xs es) (log : List δ) :
    ∃ bs t, Run (logged step') (s, log) bs (t, log ++ es) ∧ bs.flatMap input' = xs ∧ R t := by
  cases h with
  | stutter h => exact ⟨[], s, by rw [List.append_nil]; exact .nil _, rfl, h⟩
  | @step b t _ hs h =>
    exact ⟨[b], t, .cons (logged_eq_some_iff.2 ⟨es, hs, rfl⟩) (.nil _), List.append_nil _, h⟩

/-- **The simulation rule.** -/
theorem exists_run_of_follows {R : σ → τ → Prop} {g : ε → List δ}
    (hstep : ∀ {s s' a t es}, R s s' → step s a = some (t, es) →
      Follows step' input' (R t) s' (input a) (es.flatMap g))
    {s t : σ × List ε} {s' : τ} {as : List α} (h : Run (logged step) s as t) (hR : R s.1 s') :
    ∃ bs t', Run (logged step') (s', s.2.flatMap g) bs (t', t.2.flatMap g) ∧
      bs.flatMap input' = as.flatMap input ∧ R t.1 t' := by
  induction h generalizing s' with
  | nil s => exact ⟨[], s', .nil _, rfl, hR⟩
  | cons ha _ ih =>
    obtain ⟨es, hs, hlog⟩ := logged_eq_some_iff.1 ha
    obtain ⟨bs, u, hrun, hbs, hu⟩ := (hstep hR hs).exists_run _
    obtain ⟨cs, t', hrest, hcs, ht⟩ := ih hu
    rw [hlog, List.flatMap_append] at hrest
    refine ⟨bs ++ cs, t', hrun.append hrest, ?_, ht⟩
    rw [List.flatMap_append, hbs, hcs, List.flatMap_cons]

/-- **The rule for a map.** If each step is a step of the other machine at the images of its states
and its label, each run is a run there. -/
theorem Run.map {next : σ → α → Option σ} {next' : τ → β → Option τ} {I : σ → Prop} {f : σ → τ}
    {g : α → β} (hI : ∀ {s a t}, I s → next s a = some t → I t)
    (hstep : ∀ {s a t}, I s → next s a = some t → next' (f s) (g a) = some (f t)) {s t : σ}
    {as : List α} (h : Run next s as t) (hs : I s) : Run next' (f s) (as.map g) (f t) := by
  induction h with
  | nil s => exact .nil _
  | cons ha _ ih => exact .cons (hstep hs ha) (ih (hI hs ha))

/-! ### Rest -/

variable {next : σ → α → Option σ} {I : σ → Prop} {μ : σ → ℕ} {busy : α → Bool}

/-- **The measure rule.** -/
theorem Run.countP_add_le (hI : ∀ {s a t}, I s → next s a = some t → I t)
    (hle : ∀ {s a t}, I s → next s a = some t → (if busy a then 1 else 0) + μ t ≤ μ s) {s t : σ}
    {as : List α} (h : Run next s as t) (hs : I s) : as.countP busy + μ t ≤ μ s := by
  induction h with
  | nil s => exact Nat.le_of_eq (Nat.zero_add _)
  | cons ha _ ih =>
    have hrest := ih (hI hs ha)
    have hfirst := hle hs ha
    rw [List.countP_cons]
    omega

end StepRun
