import DistributedComputing.Fortran.SolveLinear

/-!
# Solving with a Cholesky decomposition

A model of `cholesky_solve`. Both sweeps use the lower triangle of `L` only; the second one reads it
with the indices exchanged. They are those of `lu_solve` but for the test of the diagonal, which
stands in the first sweep here and in the second one there. So where the test passes in all rows,
the first sweep computes what `forward` does (`choleskyForward_eq`), and the second one what
`backward` does for the transposed matrix (`backward_transpose`).
-/

namespace DistributedComputing

open Matrix

variable {K : Type} [Field K] [LinearOrder K] {n : ℕ}

/-- The first `k` rounds of the forward substitution, or those up to the first diagonal element that
is too small. -/
def choleskyForward (L : Matrix (Fin n) (Fin n) K) (b y : Fin n → K) :
    (k : ℕ) → k ≤ n → (Fin n → K) × SolveStatus
  | 0, _ => (y, .success)
  | k + 1, h =>
    let i : Fin n := ⟨k, h⟩
    match choleskyForward L b y k (Nat.le_of_succ_le h) with
    | (y, .singular) => (y, .singular)
    | (y, .success) =>
      let sumVal := subtract (· < i) (L i) y (b i)
      if |L i i| < tolDefault then (y, .singular)
      else (Function.update y i (sumVal / L i i), .success)

/-- The back substitution for the rows below `k`, from the last to the first. -/
def choleskyBackward (L : Matrix (Fin n) (Fin n) K) (y : Fin n → K) :
    (k : ℕ) → k ≤ n → (Fin n → K) → Fin n → K
  | 0, _, x => x
  | k + 1, h, x =>
    let i : Fin n := ⟨k, h⟩
    let sumVal := subtract (i < ·) (fun j => L j i) x (y i)
    choleskyBackward L y k (Nat.le_of_succ_le h) (Function.update x i (sumVal / L i i))

/-- `cholesky_solve`, with what the arrays `y` and `x` hold before. -/
def choleskySolve (L : Matrix (Fin n) (Fin n) K) (b y x : Fin n → K) :
    (Fin n → K) × SolveStatus :=
  match choleskyForward L b y n le_rfl with
  | (_, .singular) => (x, .singular)
  | (y, .success) => (choleskyBackward L y n le_rfl x, .success)

/-! ### The sweeps -/

omit [LinearOrder K] in
theorem subtract_congr {p : Fin n → Prop} [DecidablePred p] {a v w : Fin n → K} {s : K}
    (h : ∀ j, p j → v j = w j) : subtract p a v s = subtract p a w s := by
  rw [subtract_eq, subtract_eq]
  refine congrArg (s - ·) (Finset.sum_congr rfl fun j _ => ?_)
  split
  · next hj => rw [h j hj]
  · rfl

theorem singular_ne_success : SolveStatus.singular ≠ .success := by decide

/-- The diagonal passes the test in the rows below `k`. -/
def DiagonalPasses (L : Matrix (Fin n) (Fin n) K) (k : ℕ) : Prop :=
  ∀ i : Fin n, (i : ℕ) < k → ¬ |L i i| < tolDefault

omit [LinearOrder K] in
/-- A round of `forward` leaves the rows above as they are. -/
theorem forward_succ_of_lt (L : Matrix (Fin n) (Fin n) K) (b : Fin n → K) {k : ℕ} (hk : k + 1 ≤ n)
    {j : Fin n} (hj : (j : ℕ) < k) :
    forward L b (k + 1) hk j = forward L b k (Nat.le_of_succ_le hk) j :=
  Function.update_of_ne (Fin.ne_of_val_ne hj.ne) _ _

omit [LinearOrder K] in
theorem update_eq_forward_succ {L : Matrix (Fin n) (Fin n) K} {b y : Fin n → K} {k : ℕ}
    (hk : k + 1 ≤ n)
    (hy : ∀ j : Fin n, (j : ℕ) < k → y j = forward L b k (Nat.le_of_succ_le hk) j) {i : Fin n}
    (hi : (i : ℕ) < k + 1) :
    Function.update y ⟨k, hk⟩
        (subtract (· < ⟨k, hk⟩) (L ⟨k, hk⟩) y (b ⟨k, hk⟩) / L ⟨k, hk⟩ ⟨k, hk⟩) i =
      forward L b (k + 1) hk i := by
  rcases Nat.lt_succ_iff_lt_or_eq.1 hi with hlt | heq
  · have hne : i ≠ ⟨k, hk⟩ := Fin.ne_of_val_ne hlt.ne
    rw [Function.update_of_ne hne, forward_succ_of_lt L b hk hlt, hy i hlt]
  · obtain rfl : i = ⟨k, hk⟩ := Fin.ext heq
    have hold : forward L b k (Nat.le_of_succ_le hk) ⟨k, hk⟩ = b ⟨k, hk⟩ := by
      rw [forward_spec, if_neg (Nat.lt_irrefl k)]
    show _ = Function.update (forward L b k (Nat.le_of_succ_le hk)) ⟨k, hk⟩ _ _
    rw [Function.update_self, Function.update_self, hold]
    exact congrArg (· / _) (subtract_congr fun j hj => hy j hj)

/-- **The forward substitution**: it stops exactly if the test fails in some row, and otherwise
computes what `forward` does. -/
theorem choleskyForward_eq (L : Matrix (Fin n) (Fin n) K) (b y : Fin n → K) :
    ∀ (k : ℕ) (hk : k ≤ n),
      ((choleskyForward L b y k hk).2 = .success ↔ DiagonalPasses L k) ∧
        ((choleskyForward L b y k hk).2 = .success →
          ∀ i : Fin n, (i : ℕ) < k → (choleskyForward L b y k hk).1 i = forward L b k hk i) := by
  intro k
  induction k with
  | zero => exact fun _ => ⟨⟨fun _ i hi => absurd hi (Nat.not_lt_zero _), fun _ => rfl⟩,
      fun _ i hi => absurd hi (Nat.not_lt_zero _)⟩
  | succ k ih =>
    intro hk
    obtain ⟨hstatus, hrows⟩ := ih (Nat.le_of_succ_le hk)
    rw [choleskyForward]
    rcases hprev : choleskyForward L b y k (Nat.le_of_succ_le hk) with ⟨y', status⟩
    rw [hprev] at hstatus hrows
    rcases status with - | -
    · have hpasses : DiagonalPasses L k := hstatus.1 rfl
      dsimp only
      split
      · next hsmall =>
        exact ⟨⟨fun h => absurd h singular_ne_success,
          fun h => absurd hsmall (h ⟨k, hk⟩ (Nat.lt_succ_self k))⟩,
          fun h => absurd h singular_ne_success⟩
      next hpass =>
      refine ⟨⟨fun _ i hi => ?_, fun _ => rfl⟩,
        fun _ i hi => update_eq_forward_succ hk (hrows rfl) hi⟩
      rcases Nat.lt_succ_iff_lt_or_eq.1 hi with hlt | heq
      · exact hpasses i hlt
      · obtain rfl : i = ⟨k, hk⟩ := Fin.ext heq
        exact hpass
    · -- the test has failed in a row above
      have hfails : ¬ DiagonalPasses L (k + 1) := fun h =>
        singular_ne_success (hstatus.2 fun i hi => h i (Nat.lt_succ_of_lt hi))
      exact ⟨⟨fun h => absurd h singular_ne_success, fun h => absurd h hfails⟩,
        fun h => absurd h singular_ne_success⟩

/-- **The back substitution** is that of `lu_solve` for the transposed matrix, whose test passes. -/
theorem backward_transpose {L : Matrix (Fin n) (Fin n) K} (y : Fin n → K) :
    ∀ (k : ℕ) (hk : k ≤ n) (x : Fin n → K), DiagonalPasses L k →
      backward Lᵀ y k hk x = (choleskyBackward L y k hk x, .success) := by
  intro k
  induction k with
  | zero => exact fun _ _ _ => rfl
  | succ k ih =>
    intro hk x hpasses
    have hpass : ¬ |Lᵀ ⟨k, hk⟩ ⟨k, hk⟩| < tolDefault := hpasses ⟨k, hk⟩ (Nat.lt_succ_self k)
    rw [backward, if_neg hpass, ih _ _ fun i hi => hpasses i (Nat.lt_succ_of_lt hi)]
    rfl

/-! ### The two triangular systems -/

/-- The part of `L` that is used. -/
def lowerTriangle (L : Matrix (Fin n) (Fin n) K) : Matrix (Fin n) (Fin n) K :=
  .of fun i j => if j ≤ i then L i j else 0

omit [LinearOrder K] in
theorem lowerTriangle_mulVec (L : Matrix (Fin n) (Fin n) K) (v : Fin n → K) (i : Fin n) :
    (lowerTriangle L *ᵥ v) i = (∑ j, if j < i then L i j * v j else 0) + L i i * v i := by
  have hentry : ∀ j, j ≤ i → lowerTriangle L i j = L i j := fun j hj => if_pos hj
  have hzero : ∀ j, j ≠ i → ¬ j < i → lowerTriangle L i j = 0 := fun j hne hlt =>
    if_neg fun hle => hlt (lt_of_le_of_ne hle hne)
  rw [mulVec, dotProduct, sum_eq_add_diag (· < i) (lt_irrefl i) hzero, hentry i le_rfl]
  refine congrArg (· + _) (Finset.sum_congr rfl fun j _ => ?_)
  split
  · next hj => rw [hentry j hj.le]
  · rfl

omit [LinearOrder K] in
theorem lowerTriangle_transpose_mulVec (L : Matrix (Fin n) (Fin n) K) (v : Fin n → K) (i : Fin n) :
    ((lowerTriangle L)ᵀ *ᵥ v) i = (∑ j, if i < j then Lᵀ i j * v j else 0) + Lᵀ i i * v i := by
  have hentry : ∀ j, i ≤ j → (lowerTriangle L)ᵀ i j = Lᵀ i j := fun j hj => if_pos hj
  have hzero : ∀ j, j ≠ i → ¬ i < j → (lowerTriangle L)ᵀ i j = 0 := fun j hne hlt =>
    if_neg fun hle => hlt (lt_of_le_of_ne hle hne.symm)
  rw [mulVec, dotProduct, sum_eq_add_diag (i < ·) (lt_irrefl i) hzero, hentry i le_rfl]
  refine congrArg (· + _) (Finset.sum_congr rfl fun j _ => ?_)
  split
  · next hj => rw [hentry j hj.le]
  · rfl

variable [IsStrictOrderedRing K]

/-- **`cholesky_solve`** solves `T Tᵗ x = b` for the lower triangle `T` of `L`, and it reports a
singular matrix exactly if some element of the diagonal is too small. -/
theorem choleskySolve_spec (L : Matrix (Fin n) (Fin n) K) (b y₀ x₀ : Fin n → K) :
    (∀ x, choleskySolve L b y₀ x₀ = (x, .success) →
      (lowerTriangle L * (lowerTriangle L)ᵀ) *ᵥ x = b) ∧
      ((choleskySolve L b y₀ x₀).2 = .singular ↔ ∃ i, |L i i| < tolDefault) := by
  obtain ⟨hstatus, hrows⟩ := choleskyForward_eq L b y₀ n le_rfl
  rw [choleskySolve]
  rcases hsweep : choleskyForward L b y₀ n le_rfl with ⟨y, status⟩
  rw [hsweep] at hstatus hrows
  rcases status with - | -
  · have hpasses : DiagonalPasses L n := hstatus.1 rfl
    constructor
    · rintro x hx
      have hback : backward Lᵀ y n le_rfl x₀ = (x, .success) :=
        (backward_transpose y n le_rfl x₀ hpasses).trans hx
      have hspec := (backward_spec Lᵀ y n le_rfl x₀ hback).1
      have hupper : (lowerTriangle L)ᵀ *ᵥ x = y := by
        funext i
        obtain ⟨hne, hrow⟩ := hspec i i.isLt
        rw [lowerTriangle_transpose_mulVec, hrow, mul_div_cancel₀ _ hne, add_sub_cancel]
      have hlower : lowerTriangle L *ᵥ y = b := by
        funext i
        have hne : L i i ≠ 0 := (hspec i i.isLt).1
        have hy : ∀ j, y j = forward L b n le_rfl j := fun j => hrows rfl j j.isLt
        rw [funext hy, lowerTriangle_mulVec, forward_spec L b n le_rfl i, if_pos i.isLt,
          mul_div_cancel₀ _ hne, add_sub_cancel]
      rw [← mulVec_mulVec, hupper, hlower]
    · exact ⟨fun h => absurd h.symm singular_ne_success,
        fun ⟨i, hi⟩ => absurd hi (hpasses i i.isLt)⟩
  · refine ⟨fun x hx => absurd (congrArg Prod.snd hx) singular_ne_success, fun _ => ?_,
      fun _ => rfl⟩
    by_contra hnone
    have hpasses : DiagonalPasses L n := fun i _ hsmall => hnone ⟨i, hsmall⟩
    exact singular_ne_success (hstatus.2 hpasses)

/-- `L = ((2, 9), (1, 1))` and `b = (4, 8)`: what is above the diagonal does not matter. -/
theorem choleskySolve_spec_two :
    choleskySolve !![2, 9; 1, 1] ![4, 8] 0 0 = ((![-2, 6] : Fin 2 → ℚ), .success) ∧
      (lowerTriangle !![2, 9; 1, 1] * (lowerTriangle !![2, 9; 1, 1])ᵀ) *ᵥ (![-2, 6] : Fin 2 → ℚ) =
        ![4, 8] :=
  have hsolve : choleskySolve !![2, 9; 1, 1] ![4, 8] 0 0 = ((![-2, 6] : Fin 2 → ℚ), .success) := by
    with_unfolding_all decide
  ⟨hsolve, (choleskySolve_spec _ _ _ _).1 _ hsolve⟩

end DistributedComputing
