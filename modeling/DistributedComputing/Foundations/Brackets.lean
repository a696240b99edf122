import Mathlib.Algebra.Order.Field.Basic
import Mathlib.Tactic.Ring

/-!
# Intervals with a change of sign

A method that brackets a root keeps an interval at whose ends the function does not have the same
sign, and replaces one of the ends by a point inside. `Bracket f lo hi low high` is such an interval
within a range that stays the same.

Which end may be replaced depends on the sign at the new point, compared with that at the lower end:
`Bracket.upper` if they are opposite, `Bracket.lower` if they are not. The second needs that **the
lower end is no root**. If it is one, every sign agrees with it, and the interval can be cut down to
a part in which the function has no root at all.
-/

namespace Brackets

variable {K : Type} [Field K] [LinearOrder K]

/-- An interval from `low` to `high`, in the range from `lo` to `hi`, at whose ends the function
does not have the same sign. -/
structure Bracket (f : K → K) (lo hi low high : K) : Prop where
  lo_le : lo ≤ low
  le : low ≤ high
  le_hi : high ≤ hi
  nonpos : f low * f high ≤ 0

variable {f : K → K} {lo hi low high x : K}

/-- **A new upper end**, where the sign is not that of the lower end. -/
theorem Bracket.upper (h : Bracket f lo hi low high) (hlow : low ≤ x) (hhigh : x ≤ high)
    (hneg : f x * f low < 0) : Bracket f lo hi low x where
  lo_le := h.lo_le
  le := hlow
  le_hi := hhigh.trans h.le_hi
  nonpos := (mul_comm (f low) (f x)).trans_le hneg.le

/-- **A new lower end**, if the upper end is a root. -/
theorem Bracket.lower_of_root (h : Bracket f lo hi low high) (hlow : low ≤ x) (hhigh : x ≤ high)
    (hroot : f high = 0) : Bracket f lo hi x high where
  lo_le := h.lo_le.trans hlow
  le := hhigh
  le_hi := h.le_hi
  nonpos := (mul_eq_zero_of_right _ hroot).le

variable [IsStrictOrderedRing K]

/-- What is not of the same sign as `v`, is not of the same sign as a number that is. -/
theorem mul_nonpos_of_same_side {u v w : K} (hv : v ≠ 0) (huv : 0 ≤ u * v) (hvw : v * w ≤ 0) :
    u * w ≤ 0 := by
  have hsq : v ^ 2 * (u * w) ≤ 0 := by
    calc v ^ 2 * (u * w) = u * v * (v * w) := by ring
      _ ≤ 0 := mul_nonpos_of_nonneg_of_nonpos huv hvw
  exact nonpos_of_mul_nonpos_right hsq (sq_pos_of_ne_zero hv)

/-- A number has the opposite sign of two numbers of the same sign, or of neither. -/
theorem mul_neg_iff_of_same_sign {u v w : K} (h : 0 < v * w) : u * v < 0 ↔ u * w < 0 := by
  rcases mul_pos_iff.1 h with ⟨hv, hw⟩ | ⟨hv, hw⟩
  · simp only [mul_neg_iff, hv, hw, hv.not_gt, hw.not_gt, and_true, and_false, false_or]
  · simp only [mul_neg_iff, hv, hw, hv.not_gt, hw.not_gt, and_true, and_false, or_false]

/-- **A new lower end**, where the sign is that of the lower end, which is no root. -/
theorem Bracket.lower (h : Bracket f lo hi low high) (hlow : low ≤ x) (hhigh : x ≤ high)
    (hne : f low ≠ 0) (hpos : 0 ≤ f x * f low) : Bracket f lo hi x high where
  lo_le := h.lo_le.trans hlow
  le := hhigh
  le_hi := h.le_hi
  nonpos := mul_nonpos_of_same_side hne hpos h.nonpos

/-! ### The middle -/

theorem lt_half_sum (h : low < high) : low < 1 / 2 * (low + high) := by
  rw [one_div_mul_eq_div]
  exact left_lt_add_div_two.2 h

theorem half_sum_lt (h : low < high) : 1 / 2 * (low + high) < high := by
  rw [one_div_mul_eq_div]
  exact add_div_two_lt_right.2 h

theorem half_sum_self (x : K) : 1 / 2 * (x + x) = x := by
  rw [one_div_mul_eq_div, add_self_div_two]

theorem le_half_sum (h : low ≤ high) : low ≤ 1 / 2 * (low + high) := by
  rcases h.lt_or_eq with hlt | rfl
  · exact (lt_half_sum hlt).le
  · rw [half_sum_self]

theorem half_sum_le (h : low ≤ high) : 1 / 2 * (low + high) ≤ high := by
  rcases h.lt_or_eq with hlt | rfl
  · exact (half_sum_lt hlt).le
  · rw [half_sum_self]

end Brackets
