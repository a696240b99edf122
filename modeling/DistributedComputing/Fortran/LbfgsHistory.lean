import Mathlib.Data.List.DropRight
import DistributedComputing.Foundations.ArrayAssignments
import DistributedComputing.Fortran.QuasiNewton

/-!
# The history arrays of the limited-memory method

A model of `update_lbfgs_history` on its arrays. Only whole columns of `s_hist` and `y_hist` are
ever read or written, so both are arrays of columns here. `updateLbfgsHistory` is the operation on
the list of the stored pairs, which the model of the minimisation uses.

The arrays represent that list (`Represents`), and an update of the arrays represents the update of
the list (`Represents.update`): where the arrays are full, the loop moves all columns down by one
place and the new pair goes to the last one. On lists, an update appends and keeps the last `m`
(`pairs_foldl_update`), so the history is a window over the accepted pairs (`updateAll_window`).
-/

namespace DistributedComputing

open ArrayLoops Matrix SecantUpdates

variable {K : Type} {n : ℕ}

/-- `s_hist`, `y_hist`, `rho_hist` and `k`. -/
structure HistoryArrays (K : Type) (n : ℕ) where
  sHist : Array1 (Fin n → K)
  yHist : Array1 (Fin n → K)
  rhoHist : Array1 K
  k : ℤ

namespace HistoryArrays

/-- Write the column `i`. -/
def setColumn (a : HistoryArrays K n) (i : ℤ) (s y : Fin n → K) (rho : K) :
    Option (HistoryArrays K n) := do
  let sHist ← a.sHist.set i s
  let yHist ← a.yHist.set i y
  let rhoHist ← a.rhoHist.set i rho
  return { a with sHist, yHist, rhoHist }

/-- Copy the column `i + 1` to the column `i`. -/
def shiftColumn (i : ℤ) (a : HistoryArrays K n) : Option (HistoryArrays K n) := do
  a.setColumn i (← a.sHist.get (i + 1)) (← a.yHist.get (i + 1)) (← a.rhoHist.get (i + 1))

/-- `k = k + 1`, and the new pair is stored. -/
def store (a : HistoryArrays K n) (s y : Fin n → K) (rho : K) (m : ℤ) :
    Option (HistoryArrays K n) :=
  if m < a.k + 1 then do
    let a ← doLoop 1 (m - 1) shiftColumn a
    let a ← a.setColumn m s y rho
    return { a with k := m }
  else do
    let a ← a.setColumn (a.k + 1) s y rho
    return { a with k := a.k + 1 }

/-- `update_lbfgs_history` -/
def update [Field K] [LinearOrder K] (a : HistoryArrays K n) (s y : Fin n → K) (m : ℤ) :
    Option (HistoryArrays K n) :=
  let sy := s ⬝ᵥ y
  if decimal 1 10 < sy then a.store s y (1 / sy) m else some a

/-- The arrays as they are allocated. -/
def allocate (m : ℤ) (s y : ℤ → Fin n → K) (rho : ℤ → K) : HistoryArrays K n :=
  ⟨.allocate m s, .allocate m y, .allocate m rho, 0⟩

/-- One update after the other. -/
def updateAll [Field K] [LinearOrder K] (m : ℤ) (steps : List ((Fin n → K) × (Fin n → K)))
    (a : HistoryArrays K n) : Option (HistoryArrays K n) :=
  steps.foldlM (fun a step => a.update step.1 step.2 m) a

/-! ### Columns -/

variable {a a' : HistoryArrays K n} {i : ℤ} {s y : Fin n → K} {rho : K}

/-- The arrays `a'` are `a` with another column `i`. -/
structure ColumnWritten (a : HistoryArrays K n) (i : ℤ) (s y : Fin n → K) (rho : K)
    (a' : HistoryArrays K n) : Prop where
  sHist : a.sHist.Written i s a'.sHist
  yHist : a.yHist.Written i y a'.yHist
  rhoHist : a.rhoHist.Written i rho a'.rhoHist
  k_eq : a'.k = a.k

/-- All arrays have `m` columns. -/
structure HasColumns (a : HistoryArrays K n) (m : ℕ) : Prop where
  sHist : a.sHist.size = m
  yHist : a.yHist.size = m
  rhoHist : a.rhoHist.size = m

theorem returns_setColumn {m : ℕ} (h : a.HasColumns m) (h1 : 1 ≤ i) (hi : i ≤ m) :
    Returns (a.setColumn i s y rho) (a.ColumnWritten i s y rho) := by
  obtain ⟨hs, hy, hrho⟩ := h
  refine Returns.bind (Array1.returns_set ⟨h1, by omega⟩) fun sHist hsHist => ?_
  refine Returns.bind (Array1.returns_set ⟨h1, by omega⟩) fun yHist hyHist => ?_
  refine Returns.bind (Array1.returns_set ⟨h1, by omega⟩) fun rhoHist hrhoHist => ?_
  exact returns_some ⟨hsHist, hyHist, hrhoHist, rfl⟩

/-- The columns below `i` have been moved down. -/
structure ColumnsShifted (i : ℤ) (a a' : HistoryArrays K n) : Prop where
  sHist : Array1.ShiftedBelow i a.sHist a'.sHist
  yHist : Array1.ShiftedBelow i a.yHist a'.yHist
  rhoHist : Array1.ShiftedBelow i a.rhoHist a'.rhoHist

theorem HasColumns.of_shifted {m : ℕ} (h : a.HasColumns m) (hshift : ColumnsShifted i a a') :
    a'.HasColumns m where
  sHist := hshift.sHist.size_eq.trans h.sHist
  yHist := hshift.yHist.size_eq.trans h.yHist
  rhoHist := hshift.rhoHist.size_eq.trans h.rhoHist

/-- **The loop** moves all columns down. -/
theorem returns_shift {m : ℕ} (h : a.HasColumns (m + 1)) :
    Returns (doLoop 1 ((m + 1 : ℕ) - 1) shiftColumn a) (ColumnsShifted (m + 1) a) := by
  have hend : ((m + 1 : ℕ) : ℤ) - 1 = m := by omega
  rw [hend]
  refine returns_doLoop (fun i a' => ColumnsShifted i a a') (by omega)
    ⟨Array1.shiftedBelow_one _, Array1.shiftedBelow_one _, Array1.shiftedBelow_one _⟩
    fun i a' h1 hi ha' => ?_
  obtain ⟨hs, hy, hrho⟩ := h.of_shifted ha'
  rw [shiftColumn]
  simp (disch := omega) only [Array1.get_bind]
  refine (returns_setColumn ⟨hs, hy, hrho⟩ h1 (by omega)).mono fun a'' ha'' => ?_
  exact ⟨ha'.sHist.next ha''.sHist, ha'.yHist.next ha''.yHist, ha'.rhoHist.next ha''.rhoHist⟩

end HistoryArrays

/-! ### The list that the arrays represent -/

section Represents

variable [Field K] [LinearOrder K] {m : ℕ}

/-- The arrays have `m` columns, and the first `k` of them are the stored pairs in their order. -/
structure HistoryArrays.Represents (a : HistoryArrays K n) (m : ℕ)
    (pairs : List (SecantPair K (Fin n))) : Prop where
  k_eq : a.k = pairs.length
  sHist : a.sHist.Holds m (pairs.map (·.s))
  yHist : a.yHist.Holds m (pairs.map (·.y))
  rhoHist : a.rhoHist.Holds m (pairs.map (·.rho))

namespace HistoryArrays.Represents

variable {a : HistoryArrays K n} {pairs : List (SecantPair K (Fin n))}

theorem hasColumns (h : a.Represents m pairs) : a.HasColumns m :=
  ⟨h.sHist.size_eq, h.yHist.size_eq, h.rhoHist.size_eq⟩

/-- **Storing a pair** appends it to the list, and on full arrays the oldest pair is lost. -/
theorem store (h : a.Represents m pairs) (hm : 1 ≤ m) (hlength : pairs.length ≤ m)
    (p : SecantPair K (Fin n)) :
    Returns (a.store p.s p.y p.rho m) fun a' => a'.Represents m
      (if m < pairs.length + 1 then (pairs ++ [p]).drop 1 else pairs ++ [p]) := by
  have hk := h.k_eq
  rw [HistoryArrays.store]
  by_cases hfull : m < pairs.length + 1
  · obtain ⟨m, rfl⟩ := Nat.exists_eq_add_one.2 hm
    have hlen : ∀ {β : Type} (g : SecantPair K (Fin n) → β), (pairs.map g).length = m + 1 := by
      intro β g
      rw [List.length_map]
      omega
    rw [if_pos (by omega), if_pos hfull]
    refine Returns.bind (HistoryArrays.returns_shift h.hasColumns) fun a₁ h₁ => ?_
    refine Returns.bind (HistoryArrays.returns_setColumn (h.hasColumns.of_shifted h₁) (by omega)
      le_rfl) fun a₂ h₂ => returns_some ⟨?_, ?_, ?_, ?_⟩
    · rw [List.length_drop, List.length_append, List.length_singleton]
      show ((m + 1 : ℕ) : ℤ) = _
      omega
    · rw [List.map_drop, List.map_append]
      exact h.sHist.shift_append (hlen _) h₁.sHist h₂.sHist
    · rw [List.map_drop, List.map_append]
      exact h.yHist.shift_append (hlen _) h₁.yHist h₂.yHist
    · rw [List.map_drop, List.map_append]
      exact h.rhoHist.shift_append (hlen _) h₁.rhoHist h₂.rhoHist
  · rw [if_neg (by omega), if_neg hfull, hk]
    refine Returns.bind (HistoryArrays.returns_setColumn h.hasColumns (by omega) (by omega))
      fun a' ha' => returns_some ⟨?_, ?_, ?_, ?_⟩
    · have hk' := ha'.k_eq
      rw [List.length_append, List.length_singleton]
      show a'.k + 1 = _
      omega
    · rw [List.map_append]
      exact h.sHist.append (by rw [List.length_map]; exact ha'.sHist)
    · rw [List.map_append]
      exact h.yHist.append (by rw [List.length_map]; exact ha'.yHist)
    · rw [List.map_append]
      exact h.rhoHist.append (by rw [List.length_map]; exact ha'.rhoHist)

end HistoryArrays.Represents

variable [IsStrictOrderedRing K]

theorem updateLbfgsHistory_of_none {s y : Fin n → K} (hp : secantPair? s y = none)
    (h : LbfgsHistory K n m) : updateLbfgsHistory h s y = h := by
  rw [updateLbfgsHistory, hp]

theorem pairs_updateLbfgsHistory_of_some {s y : Fin n → K} {p : SecantPair K (Fin n)}
    (hp : secantPair? s y = some p) (h : LbfgsHistory K n m) :
    (updateLbfgsHistory h s y).pairs =
      if m < h.pairs.length + 1 then (h.pairs ++ [p]).drop 1 else h.pairs ++ [p] := by
  rw [updateLbfgsHistory, hp]
  dsimp only
  split
  · rfl
  · rfl

theorem HistoryArrays.Represents.update {a : HistoryArrays K n} {h : LbfgsHistory K n m}
    (ha : a.Represents m h.pairs) (hm : 1 ≤ m) (s y : Fin n → K) :
    Returns (a.update s y m) fun a' => a'.Represents m (updateLbfgsHistory h s y).pairs := by
  rw [HistoryArrays.update]
  by_cases haccept : decimal 1 10 < s ⬝ᵥ y
  · obtain ⟨p, hp, rfl, rfl⟩ := exists_secantPair haccept
    rw [if_pos haccept, pairs_updateLbfgsHistory_of_some hp, ← p.rho_eq]
    exact ha.store hm h.length_le p
  · rw [if_neg haccept, updateLbfgsHistory_of_none (dif_neg haccept)]
    exact returns_some ha

/-! ### The window -/

/-- The steps whose curvature is large enough. -/
def accepted (steps : List ((Fin n → K) × (Fin n → K))) : List ((Fin n → K) × (Fin n → K)) :=
  steps.filter fun step => decimal 1 10 < step.1 ⬝ᵥ step.2

/-- The pairs that they are stored as. -/
def storedPairs (steps : List ((Fin n → K) × (Fin n → K))) : List (SecantPair K (Fin n)) :=
  steps.filterMap fun step => secantPair? step.1 step.2

theorem storedPairs_append (steps : List ((Fin n → K) × (Fin n → K)))
    (step : (Fin n → K) × (Fin n → K)) :
    storedPairs (steps ++ [step]) = storedPairs steps ++ (secantPair? step.1 step.2).toList := by
  rw [storedPairs, List.filterMap_append, ← storedPairs, List.filterMap_cons]
  rcases secantPair? step.1 step.2 with - | p
  · rfl
  · rfl

/-- Keeping the last `m` of a list, one element after the other. -/
theorem rtake_append_singleton {α : Type} (m : ℕ) (l : List α) (x : α) :
    (l ++ [x]).rtake m =
      if m < (l.rtake m).length + 1 then (l.rtake m ++ [x]).drop 1 else l.rtake m ++ [x] := by
  rw [List.rtake, List.rtake, List.length_append, List.length_singleton, List.length_drop]
  split
  case isTrue h =>
    rw [← List.drop_append_of_le_length (by omega), List.drop_drop]
    congr 1
    omega
  case isFalse h =>
    rw [← List.drop_append_of_le_length (by omega)]
    congr 1
    omega

/-- **On lists**, the updates keep the last `m` pairs. -/
theorem pairs_foldl_update (steps : List ((Fin n → K) × (Fin n → K))) :
    (steps.foldl (fun h step => updateLbfgsHistory h step.1 step.2)
      (⟨[], Nat.zero_le m⟩ : LbfgsHistory K n m)).pairs = (storedPairs steps).rtake m := by
  induction steps using List.reverseRecOn with
  | nil => exact (List.rtake_nil m).symm
  | append_singleton steps step ih =>
    rw [List.foldl_append, List.foldl_cons, List.foldl_nil, storedPairs_append]
    rcases hp : secantPair? step.1 step.2 with - | p
    · rw [updateLbfgsHistory_of_none hp, Option.toList_none, List.append_nil, ih]
    · rw [pairs_updateLbfgsHistory_of_some hp, Option.toList_some, rtake_append_singleton, ih]

/-- **A run on the arrays** represents the run on lists. -/
theorem HistoryArrays.Represents.updateAll (hm : 1 ≤ m) (steps : List ((Fin n → K) × (Fin n → K)))
    {a : HistoryArrays K n} {h : LbfgsHistory K n m} (ha : a.Represents m h.pairs) :
    Returns (HistoryArrays.updateAll m steps a) fun a' => a'.Represents m
      (steps.foldl (fun h step => updateLbfgsHistory h step.1 step.2) h).pairs := by
  induction steps generalizing a h with
  | nil => exact returns_some ha
  | cons step steps ih => exact Returns.bind (ha.update hm step.1 step.2) fun a' ha' => ih ha'

theorem map_storedPairs {β : Type} (g : SecantPair K (Fin n) → β)
    (g' : (Fin n → K) × (Fin n → K) → β) (h : ∀ p, g p = g' (p.s, p.y))
    (steps : List ((Fin n → K) × (Fin n → K))) :
    (storedPairs steps).map g = (accepted steps).map g' := by
  induction steps with
  | nil => rfl
  | cons step steps ih =>
    by_cases haccept : decimal 1 10 < step.1 ⬝ᵥ step.2
    · obtain ⟨p, hp, hs, hy⟩ := exists_secantPair haccept
      have hstored : storedPairs (step :: steps) = p :: storedPairs steps :=
        List.filterMap_cons_some hp
      have haccepted : accepted (step :: steps) = step :: accepted steps :=
        List.filter_cons_of_pos (decide_eq_true haccept)
      rw [hstored, haccepted, List.map_cons, List.map_cons, ih, h p, hs, hy]
    · have hstored : storedPairs (step :: steps) = storedPairs steps :=
        List.filterMap_cons_none (dif_neg haccept)
      have haccepted : accepted (step :: steps) = accepted steps :=
        List.filter_cons_of_neg fun hdecide => haccept (of_decide_eq_true hdecide)
      rw [hstored, haccepted, ih]

theorem length_storedPairs (steps : List ((Fin n → K) × (Fin n → K))) :
    (storedPairs steps).length = (accepted steps).length := by
  have hmap := congrArg List.length (map_storedPairs (·.s) (·.1) (fun _ => rfl) steps)
  rwa [List.length_map, List.length_map] at hmap

theorem HistoryArrays.Represents.take_eq {a : HistoryArrays K n}
    {steps : List ((Fin n → K) × (Fin n → K))}
    (ha : a.Represents m ((storedPairs steps).rtake m)) {β : Type} {b : Array1 β}
    {g : SecantPair K (Fin n) → β} (hb : b.Holds m (((storedPairs steps).rtake m).map g))
    {g' : (Fin n → K) × (Fin n → K) → β} (hg : ∀ p, g p = g' (p.s, p.y)) :
    b.take a.k.toNat = ((accepted steps).rtake a.k.toNat).map g' := by
  have hlength := length_storedPairs steps
  have hk : a.k.toNat = (storedPairs steps).length - ((storedPairs steps).length - m) := by
    rw [ha.k_eq, Int.toNat_natCast, List.rtake, List.length_drop]
  have htake := hb.take_eq
  rw [List.length_map, List.rtake, List.length_drop, ← hk, List.map_drop,
    map_storedPairs g g' hg] at htake
  rw [htake, List.rtake, List.map_drop]
  congr 1
  omega

/-- **The history is a sliding window.** After any sequence of updates, the first `k` columns hold
the last `k` accepted steps in their order, and `k` is the number of accepted steps, or `m` if there
are more. A step that is not accepted changes nothing. -/
theorem updateAll_window (hm : 1 ≤ m) (s y : ℤ → Fin n → K) (rho : ℤ → K) :
    (∀ steps : List ((Fin n → K) × (Fin n → K)),
      Returns (HistoryArrays.updateAll m steps (.allocate m s y rho)) fun a =>
        a.k = min m (accepted steps).length ∧
        a.sHist.take a.k.toNat = ((accepted steps).rtake a.k.toNat).map (·.1) ∧
        a.yHist.take a.k.toNat = ((accepted steps).rtake a.k.toNat).map (·.2) ∧
        a.rhoHist.take a.k.toNat =
          ((accepted steps).rtake a.k.toNat).map fun step => 1 / (step.1 ⬝ᵥ step.2)) ∧
    ∀ (a : HistoryArrays K n) (s y : Fin n → K), ¬ decimal 1 10 < s ⬝ᵥ y →
      a.update s y m = some a := by
  refine ⟨fun steps => ?_, fun a s y hreject => if_neg hreject⟩
  have hempty : (HistoryArrays.allocate m s y rho).Represents m
      (⟨[], Nat.zero_le m⟩ : LbfgsHistory K n m).pairs :=
    ⟨rfl, ⟨Int.toNat_natCast m, rfl⟩, ⟨Int.toNat_natCast m, rfl⟩, ⟨Int.toNat_natCast m, rfl⟩⟩
  refine (hempty.updateAll hm steps).mono fun a ha => ?_
  rw [pairs_foldl_update] at ha
  refine ⟨?_, ha.take_eq ha.sHist fun _ => rfl, ha.take_eq ha.yHist fun _ => rfl,
    ha.take_eq ha.rhoHist fun p => p.rho_eq⟩
  rw [ha.k_eq, List.rtake, List.length_drop, length_storedPairs]
  omega

/-- Four steps, the third of which is not accepted. -/
def fourSteps : List ((Fin 1 → ℚ) × (Fin 1 → ℚ)) :=
  [(![1], ![1]), (![2], ![1]), (![0], ![1]), (![3], ![1])]

/-- Of the three accepted steps, two columns hold the last two. -/
theorem updateAll_window_four_steps :
    Returns (HistoryArrays.updateAll 2 fourSteps (.allocate 2 0 0 0)) fun a =>
      a.k = 2 ∧ a.sHist.take 2 = [![2], ![3]] ∧ a.rhoHist.take 2 = [1 / 2, 1 / 3] := by
  have haccepted : accepted fourSteps = [(![1], ![1]), (![2], ![1]), (![3], ![1])] := by
    with_unfolding_all decide
  refine ((updateAll_window one_le_two 0 0 0).1 fourSteps).mono fun a ha => ?_
  obtain ⟨hk, hs, -, hrho⟩ := ha
  rw [haccepted] at hk hs hrho
  have hk' : a.k = 2 := hk
  rw [hk'] at hs hrho
  refine ⟨hk', hs, hrho.trans ?_⟩
  with_unfolding_all decide

end Represents

end DistributedComputing
