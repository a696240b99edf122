import Mathlib.LinearAlgebra.Matrix.Permutation
import DistributedComputing.Fortran.Constants

/-!
# Solving with an LU decomposition

A model of `lu_decompose` and `lu_solve`, over an ordered field in place of `real(wp)`. Arrays of
extent `n` are functions on `Fin n`, so the checks of the extents are the types; `dgetrf` is a
parameter, with what it is assumed to return stated in `Dgetrf.Factors`.

The two sweeps of `lu_solve` do solve their triangular systems (`forward_spec`, `backward_spec`), so
`L U x` is the right-hand side as the first loop of `lu_solve` permutes it. That loop reads `P(i)`
as the row that goes to place `i`. But `lu_decompose` returns `ipiv`, and `ipiv(i)` is the row that
was **interchanged** with row `i` in step `i`. The permutation it stands for is the composition of
these interchanges (`rowPerm`), and `solves_iff` says what follows: `A x = b` exactly if both
readings of `P` permute `b` alike.
-/

namespace DistributedComputing

open Matrix hiding mul_inv_rev
open Equiv

variable {K : Type} [Field K] {n : ℕ}

/-- The values of `status` that the two routines set. -/
inductive SolveStatus
  | success
  | singular
  deriving DecidableEq, Repr

/-- What `dgetrf` returns: both factors packed into one matrix, the interchanges, and `info`. -/
structure Dgetrf (K : Type) (n : ℕ) where
  packed : Matrix (Fin n) (Fin n) K
  ipiv : Fin n → Fin n
  info : ℤ

/-! ### The decomposition -/

/-- `L`: the packed matrix below the diagonal, and ones on it. -/
def lowerOf (packed : Matrix (Fin n) (Fin n) K) : Matrix (Fin n) (Fin n) K :=
  .of fun i j => if j < i then packed i j else if i = j then 1 else 0

/-- `U`: the packed matrix on and above the diagonal. -/
def upperOf (packed : Matrix (Fin n) (Fin n) K) : Matrix (Fin n) (Fin n) K :=
  .of fun i j => if j < i then 0 else packed i j

/-- The output of `lu_decompose`. -/
structure LuFactors (K : Type) (n : ℕ) where
  lower : Matrix (Fin n) (Fin n) K
  upper : Matrix (Fin n) (Fin n) K
  pivots : Fin n → Fin n
  status : SolveStatus

/-- `lu_decompose`. The pivots are handed on as they come from `dgetrf`. -/
def luDecompose (dgetrf : Matrix (Fin n) (Fin n) K → Dgetrf K n) (A : Matrix (Fin n) (Fin n) K) :
    LuFactors K n where
  lower := lowerOf (dgetrf A).packed
  upper := upperOf (dgetrf A).packed
  pivots := (dgetrf A).ipiv
  status := if (dgetrf A).info ≠ 0 then .singular else .success

/-- What `dgetrf` is assumed to do: with `info = 0`, the matrix is `P₁ P₂ ⋯ Pₙ L U`, where `Pᵢ`
interchanges rows `i` and `ipiv i`. -/
def Dgetrf.Factors (r : Dgetrf K n) (A : Matrix (Fin n) (Fin n) K) : Prop :=
  r.info = 0 →
    A = ((List.finRange n).map fun i => (swap i (r.ipiv i)).permMatrix K).prod *
      (lowerOf r.packed * upperOf r.packed)

/-! ### Forward substitution -/

/-- A loop `sum_val = sum_val - a(j) * v(j)` over the indices that satisfy `p`, in order. -/
def subtract (p : Fin n → Prop) [DecidablePred p] (a v : Fin n → K) (s : K) : K :=
  ((List.finRange n).filter p).foldl (fun s j => s - a j * v j) s

/-- The first `k` rounds of the forward substitution. -/
def forward (L : Matrix (Fin n) (Fin n) K) (y : Fin n → K) : (k : ℕ) → k ≤ n → Fin n → K
  | 0, _ => y
  | k + 1, h =>
    let i : Fin n := ⟨k, h⟩
    let y := forward L y k (Nat.le_of_succ_le h)
    Function.update y i (subtract (· < i) (L i) y (y i) / L i i)

theorem subtract_eq (p : Fin n → Prop) [DecidablePred p] (a v : Fin n → K) (s : K) :
    subtract p a v s = s - ∑ j, if p j then a j * v j else 0 := by
  have hlist : ∀ (l : List (Fin n)) (s : K), (l.filter p).foldl (fun s j => s - a j * v j) s =
      s - (l.map fun j => if p j then a j * v j else 0).sum := by
    intro l
    induction l with
    | nil => intro s; simp
    | cons j l ih =>
      intro s
      by_cases hj : p j
      · rw [List.filter_cons_of_pos (by simpa using hj), List.foldl_cons, ih, List.map_cons,
          List.sum_cons, if_pos hj, sub_sub]
      · rw [List.filter_cons_of_neg (by simpa using hj), ih, List.map_cons, List.sum_cons,
          if_neg hj, zero_add]
  rw [subtract, hlist, Fin.sum_univ_def]

/-- **A row of a triangular matrix**: the part the loop runs over, and the diagonal. -/
theorem sum_eq_add_diag (p : Fin n → Prop) [DecidablePred p] {a v : Fin n → K} {i : Fin n}
    (hi : ¬ p i) (hzero : ∀ j, j ≠ i → ¬ p j → a j = 0) :
    ∑ j, a j * v j = (∑ j, if p j then a j * v j else 0) + a i * v i := by
  have hsplit : ∀ j, a j * v j =
      (if p j then a j * v j else 0) + if j = i then a j * v j else 0 := by
    intro j
    by_cases hji : j = i
    · rw [if_neg (hji ▸ hi), if_pos hji, zero_add]
    · rw [if_neg hji, add_zero]
      split
      · rfl
      · next hp => rw [hzero j hji hp, zero_mul]
  rw [Finset.sum_congr rfl fun j _ => hsplit j, Finset.sum_add_distrib,
    Finset.sum_ite_eq' Finset.univ i, if_pos (Finset.mem_univ i)]

theorem forward_spec (L : Matrix (Fin n) (Fin n) K) (y : Fin n → K) :
    ∀ (k : ℕ) (hk : k ≤ n) (i : Fin n),
      forward L y k hk i =
        if (i : ℕ) < k then
          (y i - ∑ j, if j < i then L i j * forward L y k hk j else 0) / L i i
        else y i := by
  intro k
  induction k with
  | zero => exact fun _ _ => rfl
  | succ k ih =>
    intro hk i
    have hprev := ih (Nat.le_of_succ_le hk)
    -- round `k` writes row `k` only, and reads the rows above it
    have hold : ∀ j : Fin n, (j : ℕ) < k →
        forward L y (k + 1) hk j = forward L y k (Nat.le_of_succ_le hk) j := fun j hj =>
      Function.update_of_ne (Fin.ne_of_val_ne hj.ne) _ _
    have hsum : ∀ i' : Fin n, (i' : ℕ) ≤ k →
        (∑ j, if j < i' then L i' j * forward L y (k + 1) hk j else 0) =
          ∑ j, if j < i' then L i' j * forward L y k (Nat.le_of_succ_le hk) j else 0 := by
      intro i' hi'
      refine Finset.sum_congr rfl fun j _ => ?_
      split
      · next hj => rw [hold j (Nat.lt_of_lt_of_le hj hi')]
      · rfl
    rcases Nat.lt_trichotomy i k with hlt | heq | hgt
    · rw [if_pos (Nat.lt_succ_of_lt hlt), hsum i hlt.le, hold i hlt, hprev i, if_pos hlt]
    · obtain rfl : i = ⟨k, hk⟩ := Fin.ext heq
      rw [if_pos (Nat.lt_succ_self k), hsum _ le_rfl]
      show Function.update _ _ _ _ = _
      rw [Function.update_self, subtract_eq, hprev, if_neg (Nat.lt_irrefl k)]
    · rw [if_neg (Nat.not_lt.2 hgt)]
      show Function.update _ _ _ _ = _
      rw [Function.update_of_ne (Fin.ne_of_val_ne hgt.ne'), hprev i, if_neg (Nat.not_lt.2 hgt.le)]

/-- **Forward substitution** solves a unit lower triangular system. -/
theorem lowerOf_mulVec_forward (packed : Matrix (Fin n) (Fin n) K) (y : Fin n → K) :
    lowerOf packed *ᵥ forward (lowerOf packed) y n le_rfl = y := by
  funext i
  have hdiag : lowerOf packed i i = 1 := by
    rw [lowerOf, of_apply, if_neg (lt_irrefl i), if_pos rfl]
  have hzero : ∀ j, j ≠ i → ¬ j < i → lowerOf packed i j = 0 := fun j hne hlt => by
    rw [lowerOf, of_apply, if_neg hlt, if_neg hne.symm]
  have hrow := forward_spec (lowerOf packed) y n le_rfl i
  rw [if_pos i.isLt, hdiag, div_one] at hrow
  rw [mulVec, dotProduct, sum_eq_add_diag (· < i) (lt_irrefl i) hzero, hdiag, one_mul, hrow,
    add_sub_cancel]

/-! ### The two readings of the pivots -/

/-- The permutation of the rows that the interchanges amount to. -/
def rowPerm (ipiv : Fin n → Fin n) : Perm (Fin n) :=
  ((List.finRange n).map fun i => swap i (ipiv i)).prod

/-- The matrix `P₁ P₂ ⋯ Pₙ`. -/
theorem prod_permMatrix (ipiv : Fin n → Fin n) :
    ((List.finRange n).map fun i => (swap i (ipiv i)).permMatrix K).prod =
      (rowPerm ipiv)⁻¹.permMatrix K := by
  have hlist : ∀ l : List (Fin n),
      (l.map fun i => (swap i (ipiv i)).permMatrix K).prod =
        ((l.map fun i => swap i (ipiv i)).prod)⁻¹.permMatrix K := by
    intro l
    induction l with
    | nil => exact (permMatrix_one).symm
    | cons i l ih =>
      rw [List.map_cons, List.prod_cons, ih, List.map_cons, List.prod_cons, mul_inv_rev,
        permMatrix_mul, swap_inv]
  exact hlist _

/-! ### Back substitution -/

variable [LinearOrder K]

/-- The back substitution for the rows below `k`, from the last to the first, or up to the first
pivot that is too small. -/
def backward (U : Matrix (Fin n) (Fin n) K) (y : Fin n → K) :
    (k : ℕ) → k ≤ n → (Fin n → K) → (Fin n → K) × SolveStatus
  | 0, _, x => (x, .success)
  | k + 1, h, x =>
    let i : Fin n := ⟨k, h⟩
    let sumVal := subtract (i < ·) (U i) x (y i)
    if |U i i| < tolDefault then (x, .singular)
    else backward U y k (Nat.le_of_succ_le h) (Function.update x i (sumVal / U i i))

/-- `lu_solve`, with what the array `x` holds before the call. -/
def luSolve (L U : Matrix (Fin n) (Fin n) K) (P : Fin n → Fin n) (b x : Fin n → K) :
    (Fin n → K) × SolveStatus :=
  backward U (forward L (fun i => b (P i)) n le_rfl) n le_rfl x

variable [IsStrictOrderedRing K]

/-- **The rows that the back substitution does**, if it ends with success. -/
theorem backward_spec (U : Matrix (Fin n) (Fin n) K) (y : Fin n → K) {x' : Fin n → K} :
    ∀ (k : ℕ) (hk : k ≤ n) (x : Fin n → K), backward U y k hk x = (x', .success) →
      (∀ i : Fin n, (i : ℕ) < k → U i i ≠ 0 ∧
        x' i = (y i - ∑ j, if i < j then U i j * x' j else 0) / U i i) ∧
      ∀ i : Fin n, k ≤ i → x' i = x i := by
  intro k
  induction k with
  | zero =>
    rintro hk x h
    obtain rfl : x = x' := congrArg Prod.fst h
    exact ⟨fun i hi => absurd hi (Nat.not_lt_zero _), fun _ _ => rfl⟩
  | succ k ih =>
    intro hk x h
    rw [backward] at h
    split at h
    · exact absurd (congrArg Prod.snd h) nofun
    next hpivot =>
    obtain ⟨hdone, hrest⟩ := ih _ _ h
    have hne : U ⟨k, hk⟩ ⟨k, hk⟩ ≠ 0 := fun h0 => hpivot (by
      rw [h0, abs_zero, tolDefault]
      positivity)
    -- the entries after row `k` are final
    have hfinal : ∀ j : Fin n, k < j → x' j = x j := fun j hj => by
      rw [hrest j hj.le, Function.update_of_ne (Fin.ne_of_val_ne hj.ne')]
    refine ⟨fun i hi => ?_, fun i hi => hfinal i hi⟩
    rcases Nat.lt_succ_iff_lt_or_eq.1 hi with hlt | heq
    · exact hdone i hlt
    · obtain rfl : i = ⟨k, hk⟩ := Fin.ext heq
      refine ⟨hne, ?_⟩
      rw [hrest _ le_rfl, Function.update_self, subtract_eq]
      congr 2
      refine Finset.sum_congr rfl fun j _ => ?_
      split
      · next hj => rw [hfinal j hj]
      · rfl

/-- **Back substitution** solves an upper triangular system, if it ends with success. -/
theorem upperOf_mulVec_backward {packed : Matrix (Fin n) (Fin n) K} {y x x' : Fin n → K}
    (h : backward (upperOf packed) y n le_rfl x = (x', .success)) : upperOf packed *ᵥ x' = y := by
  funext i
  obtain ⟨hne, hrow⟩ := (backward_spec _ y n le_rfl x h).1 i i.isLt
  have hzero : ∀ j, j ≠ i → ¬ i < j → upperOf packed i j = 0 := fun j hne hlt => by
    rw [upperOf, of_apply, if_pos (lt_of_le_of_ne (not_lt.1 hlt) hne)]
  rw [mulVec, dotProduct, sum_eq_add_diag (i < ·) (lt_irrefl i) hzero, hrow, mul_div_cancel₀ _ hne,
    add_sub_cancel]

/-- **What `lu_solve` solves.** If both routines succeed, `A x = b` exactly if reading the pivots as
a permutation and carrying out the interchanges they record have the same effect on `b`. -/
theorem solves_iff {dgetrf : Matrix (Fin n) (Fin n) K → Dgetrf K n} {A : Matrix (Fin n) (Fin n) K}
    {b x₀ x : Fin n → K} (hfac : (dgetrf A).Factors A)
    (hlu : (luDecompose dgetrf A).status = .success)
    (hsolve : luSolve (luDecompose dgetrf A).lower (luDecompose dgetrf A).upper
      (luDecompose dgetrf A).pivots b x₀ = (x, .success)) :
    A *ᵥ x = b ↔
      ∀ i, b ((luDecompose dgetrf A).pivots i) = b (rowPerm (luDecompose dgetrf A).pivots i) := by
  have hinfo : (dgetrf A).info = 0 := by
    by_contra hne
    rw [luDecompose, if_pos hne] at hlu
    exact absurd hlu nofun
  have hupper : (luDecompose dgetrf A).upper *ᵥ x = _ := upperOf_mulVec_backward hsolve
  have hlower : (luDecompose dgetrf A).lower *ᵥ ((luDecompose dgetrf A).upper *ᵥ x) =
      fun i => b ((luDecompose dgetrf A).pivots i) := by
    rw [hupper]
    exact lowerOf_mulVec_forward _ _
  have hA : A *ᵥ x =
      (fun i => b ((luDecompose dgetrf A).pivots i)) ∘ ⇑(rowPerm (dgetrf A).ipiv)⁻¹ := by
    rw [← hlower, ← permMatrix_mulVec, ← prod_permMatrix, mulVec_mulVec, mulVec_mulVec,
      Matrix.mul_assoc]
    exact congrArg (· *ᵥ x) (hfac hinfo)
  rw [hA, Perm.inv_def, comp_symm_eq, funext_iff]
  rfl

/-- What `dgetrf` returns for the matrix that swaps two components: it interchanges the rows once,
and both factors are the identity. -/
def swapDgetrf (_ : Matrix (Fin 2) (Fin 2) ℚ) : Dgetrf ℚ 2 := ⟨1, ![1, 1], 0⟩

/-- The matrix that swaps two components. -/
def swapMatrix : Matrix (Fin 2) (Fin 2) ℚ := !![0, 1; 1, 0]

theorem swapDgetrf_factors : (swapDgetrf swapMatrix).Factors swapMatrix := fun _ => by
  with_unfolding_all decide

/-- With equal components on the right, both readings of the pivots agree. -/
theorem solves_iff_swap :
    luSolve (luDecompose swapDgetrf swapMatrix).lower (luDecompose swapDgetrf swapMatrix).upper
        (luDecompose swapDgetrf swapMatrix).pivots ![1, 1] 0 = (![1, 1], .success) ∧
      swapMatrix *ᵥ ![1, 1] = ![1, 1] := by
  have hsolve : luSolve (luDecompose swapDgetrf swapMatrix).lower
      (luDecompose swapDgetrf swapMatrix).upper (luDecompose swapDgetrf swapMatrix).pivots
      ![1, 1] 0 = (![1, 1], .success) := by
    with_unfolding_all decide
  exact ⟨hsolve, (solves_iff swapDgetrf_factors rfl hsolve).2 (by decide)⟩

/-- With different components, `lu_solve` succeeds with an `x` that does not solve the system. -/
theorem solution_wrong_after_interchange : ∃ x : Fin 2 → ℚ,
    (swapDgetrf swapMatrix).Factors swapMatrix ∧
      (luDecompose swapDgetrf swapMatrix).status = .success ∧
      luSolve (luDecompose swapDgetrf swapMatrix).lower (luDecompose swapDgetrf swapMatrix).upper
        (luDecompose swapDgetrf swapMatrix).pivots ![1, 2] 0 = (x, .success) ∧
      swapMatrix *ᵥ x ≠ ![1, 2] :=
  ⟨![2, 2], swapDgetrf_factors, rfl, by with_unfolding_all decide, by with_unfolding_all decide⟩

end DistributedComputing
