import Mathlib.Algebra.Order.Field.Basic
import Mathlib.Tactic.NormNum

/-!
# Constants of the numerical kernels

The part of `constants.f90` that the modelled kernels use. `real(wp)` is read as a field, and its
constants as the numbers that the source writes down. `decimal` reads a decimal number, and the
inquiry functions have their values for the kind `wp`.
-/

namespace DistributedComputing

/-- `TOL_DEFAULT`. -/
def tolDefault {K : Type} [Field K] : K := 1 / 10 ^ 12

variable {K : Type} [Field K]

/-- A decimal number: `decimal 5 1` is `0.5_wp`, and `decimal 1 6` is `1.0e-6_wp`. -/
def decimal (digits places : ℕ) : K := (digits : K) / ((10 ^ places : ℕ) : K)

/-- `huge(1.0_wp)`. -/
def hugeWp : K := (((2 ^ 53 - 1) * 2 ^ 971 : ℕ) : K)

/-- `epsilon(1.0_wp)`. -/
def machineEpsilon : K := 1 / ((2 ^ 52 : ℕ) : K)

theorem decimal_whole (digits : ℕ) : (decimal digits 0 : K) = digits := by
  rw [decimal, pow_zero, Nat.cast_one, div_one]

section Ordered

variable [LinearOrder K] [IsStrictOrderedRing K]

theorem decimal_pos {digits : ℕ} (h : 0 < digits) (places : ℕ) : 0 < (decimal digits places : K) :=
  div_pos (Nat.cast_pos.2 h) (Nat.cast_pos.2 (Nat.pow_pos (by decide)))

theorem machineEpsilon_pos : 0 < (machineEpsilon : K) :=
  div_pos one_pos (Nat.cast_pos.2 (Nat.pow_pos (by decide)))

theorem decimal_five_one : (decimal 5 1 : K) = 1 / 2 := by
  norm_num [decimal]

theorem decimal_two_zero : (decimal 2 0 : K) = 2 := by
  norm_num [decimal]

end Ordered

end DistributedComputing
