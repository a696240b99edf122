import DistributedComputing.Fortran.SolveLinear

/-!
# The determinant of a dense matrix

A model of `matrix_determinant`. It multiplies the diagonal that `dgetrf` leaves behind, and changes
the sign if the number of places with `ipiv(i) /= i` is odd.

That number is not a property of a permutation, but of the list of interchanges: `ipiv` is no
permutation, and the places it moves need not be those that the composed permutation moves. Each
interchange with `ipiv(i) /= i` is a transposition, though, and so contributes one sign
(`sign_swaps`), whatever the other interchanges do.
-/

namespace DistributedComputing

open Matrix Equiv

variable {K : Type} [Field K] {n m : ℕ}

/-- The values of `status` that `matrix_determinant` sets. -/
inductive MatStatus
  | success
  | size
  | singular
  deriving DecidableEq, Repr

/-- What the loop has computed before an index: the product, and `parity`. -/
structure Diagonal (K : Type) where
  det : K
  parity : ℕ

/-- A round of the loop. -/
def Diagonal.round (r : Dgetrf K n) (s : Diagonal K) (i : Fin n) : Diagonal K where
  det := s.det * r.packed i i
  parity := if r.ipiv i ≠ i then s.parity + 1 else s.parity

/-- `matrix_determinant`, after the test of the extents. -/
def squareDeterminant (r : Dgetrf K n) : K × MatStatus :=
  if r.info ≠ 0 then (0, .singular)
  else
    let s := (List.finRange n).foldl (Diagonal.round r) ⟨1, 0⟩
    (if s.parity % 2 ≠ 0 then -s.det else s.det, .success)

/-- `matrix_determinant` -/
def matrixDeterminant (dgetrf : Matrix (Fin n) (Fin n) K → Dgetrf K n)
    (A : Matrix (Fin n) (Fin m) K) : K × MatStatus :=
  if h : m = n then squareDeterminant (dgetrf (A.submatrix id (Fin.cast h.symm)))
  else (0, .size)

/-- What `dgetrf` is assumed to do in a call with valid arguments: `A` is `P₁ P₂ ⋯ Pₙ L U`, where
`Pᵢ` interchanges rows `i` and `ipiv i`, and `info` says whether there is a zero on the diagonal of
`U`. -/
structure Dgetrf.Factorises (r : Dgetrf K n) (A : Matrix (Fin n) (Fin n) K) : Prop where
  factors : A = ((List.finRange n).map fun i => (swap i (r.ipiv i)).permMatrix K).prod *
    (lowerOf r.packed * upperOf r.packed)
  info_nonneg : 0 ≤ r.info
  info_pos_iff : 0 < r.info ↔ ∃ i, upperOf r.packed i i = 0

/-! ### The loop -/

theorem foldl_round_det (r : Dgetrf K n) (l : List (Fin n)) (s : Diagonal K) :
    (l.foldl (Diagonal.round r) s).det = s.det * (l.map fun i => r.packed i i).prod := by
  induction l generalizing s with
  | nil => exact (mul_one _).symm
  | cons i l ih =>
    rw [List.foldl_cons, ih, List.map_cons, List.prod_cons, ← mul_assoc, Diagonal.round]

/-- **Each interchange that moves something is one sign.** -/
theorem sign_swaps (r : Dgetrf K n) (l : List (Fin n)) (s : Diagonal K) :
    (-1) ^ (l.foldl (Diagonal.round r) s).parity =
      (-1) ^ s.parity * Perm.sign (l.map fun i => swap i (r.ipiv i)).prod := by
  induction l generalizing s with
  | nil => rw [List.foldl_nil, List.map_nil, List.prod_nil, map_one, mul_one]
  | cons i l ih =>
    have hround : (-1) ^ (Diagonal.round r s i).parity =
        (-1) ^ s.parity * Perm.sign (swap i (r.ipiv i)) := by
      rw [Perm.sign_swap', Diagonal.round]
      by_cases hi : r.ipiv i = i
      · rw [if_neg (not_not.2 hi), if_pos hi.symm, mul_one]
      · rw [if_pos hi, if_neg (Ne.symm hi), pow_succ]
    rw [List.foldl_cons, ih, hround, List.map_cons, List.prod_cons, map_mul, mul_assoc]

/-! ### The determinant -/

theorem det_lowerOf (packed : Matrix (Fin n) (Fin n) K) : (lowerOf packed).det = 1 := by
  rw [det_of_isLowerTriangular]
  · refine Finset.prod_eq_one fun i _ => ?_
    rw [lowerOf, of_apply, if_neg (lt_irrefl i), if_pos rfl]
  · intro i j hlt
    have hlt : i < j := hlt
    rw [lowerOf, of_apply, if_neg hlt.not_gt, if_neg hlt.ne]

theorem upperOf_diag (packed : Matrix (Fin n) (Fin n) K) (i : Fin n) :
    upperOf packed i i = packed i i := by
  rw [upperOf, of_apply, if_neg (lt_irrefl i)]

theorem det_upperOf (packed : Matrix (Fin n) (Fin n) K) :
    (upperOf packed).det = ∏ i, packed i i := by
  rw [det_of_isUpperTriangular]
  · exact Finset.prod_congr rfl fun i _ => upperOf_diag packed i
  · intro i j hlt
    have hlt : j < i := hlt
    rw [upperOf, of_apply, if_pos hlt]

theorem Dgetrf.Factorises.det_eq {r : Dgetrf K n} {A : Matrix (Fin n) (Fin n) K}
    (h : r.Factorises A) : A.det = Perm.sign (rowPerm r.ipiv) * ∏ i, r.packed i i := by
  rw [h.factors, prod_permMatrix, det_mul, det_mul, det_permutation, det_lowerOf, det_upperOf,
    Perm.sign_inv, one_mul]

theorem Dgetrf.Factorises.det_eq_zero_iff {r : Dgetrf K n} {A : Matrix (Fin n) (Fin n) K}
    (h : r.Factorises A) : A.det = 0 ↔ 0 < r.info := by
  have hunit : ((Perm.sign (rowPerm r.ipiv) : ℤ) : K) ≠ 0 := by
    rcases Int.units_eq_one_or (Perm.sign (rowPerm r.ipiv)) with h1 | h1
    · rw [h1, Units.val_one, Int.cast_one]
      exact one_ne_zero
    · rw [h1, Units.val_neg, Units.val_one, Int.cast_neg, Int.cast_one]
      exact neg_ne_zero.2 one_ne_zero
  rw [h.det_eq, mul_eq_zero_iff_left hunit, Finset.prod_eq_zero_iff, h.info_pos_iff]
  simp only [Finset.mem_univ, true_and, upperOf_diag]

theorem squareDeterminant_of_info {r : Dgetrf K n} (h : r.info = 0) :
    squareDeterminant r = (Perm.sign (rowPerm r.ipiv) * ∏ i, r.packed i i, .success) := by
  have hsign : ((-1) ^ ((List.finRange n).foldl (Diagonal.round r) ⟨1, 0⟩).parity : ℤˣ) =
      Perm.sign (rowPerm r.ipiv) := by
    rw [sign_swaps, pow_zero, one_mul]
    rfl
  have hprod := foldl_round_det r (List.finRange n) ⟨1, 0⟩
  rw [one_mul, ← List.ofFn_eq_map, List.prod_ofFn] at hprod
  rw [squareDeterminant, if_neg (not_not.2 h), ← hsign]
  dsimp only
  rw [hprod]
  split
  · next hodd =>
    rw [Odd.neg_one_pow (Nat.odd_iff.2 (Nat.mod_two_ne_zero.1 hodd))]
    simp
  · next heven =>
    rw [Even.neg_one_pow (Nat.even_iff.2 (not_not.1 heven))]
    simp

/-- **`matrix_determinant` is the determinant**, with its sign, and the status says whether it is
zero. -/
theorem matrixDeterminant_eq_det {dgetrf : Matrix (Fin n) (Fin n) K → Dgetrf K n}
    {A : Matrix (Fin n) (Fin n) K} (h : (dgetrf A).Factorises A) :
    (matrixDeterminant dgetrf A).1 = A.det ∧
      ((matrixDeterminant dgetrf A).2 = .success ↔ A.det ≠ 0) := by
  have hsquare : matrixDeterminant dgetrf A = squareDeterminant (dgetrf A) := dif_pos rfl
  rw [hsquare]
  by_cases hinfo : (dgetrf A).info = 0
  · have hne : A.det ≠ 0 := fun hdet => (h.det_eq_zero_iff.1 hdet).ne' hinfo
    rw [squareDeterminant_of_info hinfo, ← h.det_eq]
    exact ⟨rfl, fun _ => hne, fun _ => rfl⟩
  · have hdet : A.det = 0 :=
      h.det_eq_zero_iff.2 (lt_of_le_of_ne h.info_nonneg (Ne.symm hinfo))
    have hstatus : MatStatus.singular ≠ .success := by decide
    rw [squareDeterminant, if_pos hinfo]
    exact ⟨hdet.symm, fun hsuccess => absurd hsuccess hstatus, fun hne => absurd hdet hne⟩

/-- The matrix that swaps two components has the determinant `-1`. -/
theorem matrixDeterminant_eq_det_swap :
    matrixDeterminant swapDgetrf swapMatrix = (-1, .success) ∧ swapMatrix.det = -1 := by
  have hrun : matrixDeterminant swapDgetrf swapMatrix = (-1, .success) := by
    with_unfolding_all decide
  have hfactorises : (swapDgetrf swapMatrix).Factorises swapMatrix :=
    ⟨swapDgetrf_factors rfl, le_rfl, by decide⟩
  refine ⟨hrun, ?_⟩
  rw [← (matrixDeterminant_eq_det hfactorises).1, hrun]

end DistributedComputing
