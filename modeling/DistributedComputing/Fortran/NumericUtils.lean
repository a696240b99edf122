import Mathlib.Analysis.Real.Sqrt
import Mathlib.Data.Matrix.Mul
import DistributedComputing.Fortran.Constants

/-!
# Helper functions of the numerical kernels

The part of `numeric_utils.f90` that the modelled kernels use, over an ordered field in place of
`real(wp)`. The kernels need `norm2` only to compare it with a tolerance. That comparison needs no
square root (`norm2Lt`), so it can be evaluated in every ordered field; `norm2Lt_iff_sqrt` says that
over the reals it is the one the source writes.

The largest number is a parameter of `is_finite`: exact arithmetic has no NaN, but it does have
numbers beyond that one.
-/

namespace DistributedComputing

variable {K : Type} [LinearOrder K] {n : ℕ}

/-- `clip`. -/
def clip (x vmin vmax : K) : K := max vmin (min vmax x)

theorem le_clip (x vmin vmax : K) : vmin ≤ clip x vmin vmax := le_max_left _ _

theorem clip_le {vmin vmax : K} (h : vmin ≤ vmax) (x : K) : clip x vmin vmax ≤ vmax :=
  max_le h (min_le_left _ _)

variable [Field K]

/-- `sum(v**2)`. -/
def sumSquares (v : Fin n → K) : K := ∑ i, v i ^ 2

/-- `norm2(v) < tol`. -/
def norm2Lt (v : Fin n → K) (tol : K) : Prop := 0 < tol ∧ sumSquares v < tol ^ 2

instance (v : Fin n → K) (tol : K) : Decidable (norm2Lt v tol) :=
  inferInstanceAs (Decidable (_ ∧ _))

/-- `is_finite`. -/
def isFinite (huge x : K) : Prop := |x| ≤ huge

instance (huge x : K) : Decidable (isFinite huge x) := inferInstanceAs (Decidable (_ ≤ _))

theorem norm2Lt_iff_sqrt (v : Fin n → ℝ) (tol : ℝ) :
    norm2Lt v tol ↔ Real.sqrt (sumSquares v) < tol := by
  constructor
  · rintro ⟨htol, h⟩
    exact (Real.sqrt_lt' htol).2 h
  · intro h
    have htol : 0 < tol := (Real.sqrt_nonneg _).trans_lt h
    exact ⟨htol, (Real.sqrt_lt' htol).1 h⟩

omit [LinearOrder K] in
theorem sumSquares_eq_dotProduct (v : Fin n → K) : sumSquares v = v ⬝ᵥ v :=
  Finset.sum_congr rfl fun i _ => sq (v i)

/-- A component is not larger than the norm. -/
theorem sq_le_sumSquares [IsStrictOrderedRing K] (v : Fin n → K) (i : Fin n) :
    v i ^ 2 ≤ sumSquares v :=
  Finset.single_le_sum (fun j _ => sq_nonneg (v j)) (Finset.mem_univ i)

theorem abs_lt_of_norm2Lt [IsStrictOrderedRing K] {v : Fin n → K} {tol : K} (h : norm2Lt v tol)
    (i : Fin n) : |v i| < tol :=
  abs_lt_of_sq_lt_sq ((sq_le_sumSquares v i).trans_lt h.2) h.1.le

end DistributedComputing
