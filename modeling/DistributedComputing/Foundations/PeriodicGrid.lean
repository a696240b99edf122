import Mathlib.Algebra.BigOperators.Fin
import Mathlib.Algebra.Order.BigOperators.Ring.Finset
import Mathlib.Algebra.Order.Field.Basic
import Mathlib.Data.Int.ConditionallyCompleteOrder
import Mathlib.Data.Int.Interval
import Mathlib.Tactic.Linarith
import Mathlib.Tactic.LinearCombination

/-!
# Functions on a periodic grid

The cells `1, …, n` in a circle: `next n` takes the last of them to the first, and `prev n` the
first to the last. They are inverse to each other, so that a sum over all cells may be moved along
either (`sum_next`, `sum_prev`). That is all there is to conservation: what is a difference of one
quantity at neighbouring cells sums to zero, whatever the quantity is.

* `secondDifference` and `centralDifference` are the usual differences around a cell. On a circle, a
  function without second differences is constant (`constant_of_secondDifference`), and so is one
  whose central differences are a multiple of the second ones (`constant_of_centralDifference`).
* `between_relaxed` is the general form of a maximum principle.
-/

namespace PeriodicGrid

/-- The cell behind `i`. -/
def next (n i : ℤ) : ℤ := if i = n then 1 else i + 1

/-- The cell before `i`. -/
def prev (n i : ℤ) : ℤ := if i = 1 then n else i - 1

section Cells

variable {n i : ℤ}

theorem next_mem (h1 : 1 ≤ i) (hi : i ≤ n) : 1 ≤ next n i ∧ next n i ≤ n := by
  rw [next]
  split <;> omega

theorem prev_mem (h1 : 1 ≤ i) (hi : i ≤ n) : 1 ≤ prev n i ∧ prev n i ≤ n := by
  rw [prev]
  split <;> omega

theorem next_of_ne (h : i ≠ n) : next n i = i + 1 := if_neg h

theorem prev_of_ne (h : i ≠ 1) : prev n i = i - 1 := if_neg h

theorem next_last (n : ℤ) : next n n = 1 := if_pos rfl

theorem prev_first (n : ℤ) : prev n 1 = n := if_pos rfl

theorem prev_next (h1 : 1 ≤ i) (hi : i ≤ n) : prev n (next n i) = i := by
  rcases eq_or_ne i n with rfl | hne
  · rw [next_last, prev_first]
  · rw [next_of_ne hne, prev_of_ne (by omega), add_sub_cancel_right]

theorem next_prev (h1 : 1 ≤ i) (hi : i ≤ n) : next n (prev n i) = i := by
  rcases eq_or_ne i 1 with rfl | hne
  · rw [prev_first, next_last]
  · rw [prev_of_ne hne, next_of_ne (by omega), sub_add_cancel]

end Cells

/-! ### Sums -/

section Sums

variable {M : Type} [AddCommMonoid M] (n : ℤ) (f : ℤ → M)

theorem sum_next : ∑ i ∈ Finset.Icc 1 n, f (next n i) = ∑ i ∈ Finset.Icc 1 n, f i := by
  refine Finset.sum_nbij' (next n) (prev n) ?_ ?_ ?_ ?_ fun i _ => rfl
  · exact fun i hi => Finset.mem_Icc.2 (next_mem (Finset.mem_Icc.1 hi).1 (Finset.mem_Icc.1 hi).2)
  · exact fun i hi => Finset.mem_Icc.2 (prev_mem (Finset.mem_Icc.1 hi).1 (Finset.mem_Icc.1 hi).2)
  · exact fun i hi => prev_next (Finset.mem_Icc.1 hi).1 (Finset.mem_Icc.1 hi).2
  · exact fun i hi => next_prev (Finset.mem_Icc.1 hi).1 (Finset.mem_Icc.1 hi).2

theorem sum_prev : ∑ i ∈ Finset.Icc 1 n, f (prev n i) = ∑ i ∈ Finset.Icc 1 n, f i := by
  rw [← sum_next n fun i => f (prev n i)]
  exact Finset.sum_congr rfl fun i hi =>
    congrArg f (prev_next (Finset.mem_Icc.1 hi).1 (Finset.mem_Icc.1 hi).2)

/-- A sum over the cells, with indices that start at 0. -/
theorem sum_range_cells (n : ℕ) (f : ℤ → M) :
    ∑ i ∈ Finset.range n, f (i + 1) = ∑ i ∈ Finset.Icc 1 (n : ℤ), f i := by
  induction n with
  | zero => rfl
  | succ n ih =>
    have hcells : Finset.Icc 1 ((n + 1 : ℕ) : ℤ) = insert (n + 1 : ℤ) (Finset.Icc 1 (n : ℤ)) := by
      ext i
      simp only [Finset.mem_insert, Finset.mem_Icc]
      omega
    have hnew : (n + 1 : ℤ) ∉ Finset.Icc 1 (n : ℤ) := by
      rw [Finset.mem_Icc]
      omega
    rw [Finset.sum_range_succ, ih, hcells, Finset.sum_insert hnew, add_comm]

end Sums

/-! ### Differences -/

section Differences

variable {R : Type} [CommRing R]

/-- The difference of the neighbours. -/
def centralDifference (n : ℤ) (f : ℤ → R) (i : ℤ) : R := f (next n i) - f (prev n i)

/-- How the differences to both neighbours differ. -/
def secondDifference (n : ℤ) (f : ℤ → R) (i : ℤ) : R :=
  f (next n i) - f i - (f i - f (prev n i))

/-- **Conservation.** What leaves a cell enters the next one. -/
theorem sum_sub_prev (n : ℤ) (f : ℤ → R) :
    ∑ i ∈ Finset.Icc 1 n, (f i - f (prev n i)) = 0 := by
  rw [Finset.sum_sub_distrib, sum_prev, sub_self]

/-- Conservation, for a flux that depends on the values on both sides. -/
theorem sum_flux (n : ℤ) (g : R → R → R) (f : ℤ → R) :
    ∑ i ∈ Finset.Icc 1 n, (g (f i) (f (next n i)) - g (f (prev n i)) (f i)) = 0 := by
  rw [← sum_sub_prev n fun i => g (f i) (f (next n i))]
  refine Finset.sum_congr rfl fun i hi => ?_
  rw [next_prev (Finset.mem_Icc.1 hi).1 (Finset.mem_Icc.1 hi).2]

theorem sum_next_sub (n : ℤ) (f : ℤ → R) :
    ∑ i ∈ Finset.Icc 1 n, (f (next n i) - f i) = 0 := by
  rw [Finset.sum_sub_distrib, sum_next, sub_self]

theorem sum_secondDifference (n : ℤ) (f : ℤ → R) :
    ∑ i ∈ Finset.Icc 1 n, secondDifference n f i = 0 := by
  simp only [secondDifference]
  rw [Finset.sum_sub_distrib, sum_next_sub, sum_sub_prev, sub_self]

/-- The differences between the ends of the range and the cells beside them. -/
def fromEnds (n : ℤ) (f : ℤ → R) : R := f 1 - f 2 + (f n - f (n - 1))

theorem fromEnds_two (f : ℤ → R) : fromEnds 2 f = 0 := by
  rw [fromEnds, show (2 : ℤ) - 1 = 1 from rfl]
  ring

/-- Without the two cells at the ends, the second differences do not cancel: what the ends would
give off is left. -/
theorem sum_secondDifference_inner {n : ℤ} (hn : 2 ≤ n) (f : ℤ → R) :
    ∑ i ∈ Finset.Icc 2 (n - 1), secondDifference n f i = fromEnds n f := by
  have hcells : Finset.Icc 1 n = insert 1 (insert n (Finset.Icc 2 (n - 1))) := by
    ext i
    simp only [Finset.mem_insert, Finset.mem_Icc]
    omega
  have hfirst : (1 : ℤ) ∉ insert n (Finset.Icc 2 (n - 1)) := by
    simp only [Finset.mem_insert, Finset.mem_Icc]
    omega
  have hlast : n ∉ Finset.Icc 2 (n - 1) := by
    rw [Finset.mem_Icc]
    omega
  have hsum := sum_secondDifference n f
  rw [hcells, Finset.sum_insert hfirst, Finset.sum_insert hlast] at hsum
  have hone : secondDifference n f 1 = f 2 - f 1 - (f 1 - f n) := by
    rw [secondDifference, prev_first, next_of_ne (by omega)]
    rfl
  have hn' : secondDifference n f n = f 1 - f n - (f n - f (n - 1)) := by
    rw [secondDifference, next_last, prev_of_ne (by omega)]
  rw [hone, hn'] at hsum
  rw [fromEnds]
  linear_combination hsum

end Differences

/-! ### Constant functions -/

/-- The function has one value. -/
def Constant {R : Type} (n : ℤ) (f : ℤ → R) : Prop := ∀ i, 1 ≤ i → i ≤ n → f i = f 1

theorem constant_of_next {R : Type} {n : ℤ} {f : ℤ → R}
    (h : ∀ i, 1 ≤ i → i ≤ n → f (next n i) = f i) : Constant n f := by
  intro i h1
  induction i, h1 using Int.leInduction with
  | base => exact fun _ => rfl
  | succ i h1 ih =>
    intro hi
    rw [← ih (by omega), ← h i h1 (by omega), next_of_ne (by omega)]

section Constant

variable {R : Type} {n : ℤ} {f : ℤ → R}

theorem Constant.next_eq (h : Constant n f) {i : ℤ} (h1 : 1 ≤ i) (hi : i ≤ n) :
    f (next n i) = f i :=
  (h _ (next_mem h1 hi).1 (next_mem h1 hi).2).trans (h i h1 hi).symm

theorem Constant.prev_eq (h : Constant n f) {i : ℤ} (h1 : 1 ≤ i) (hi : i ≤ n) :
    f (prev n i) = f i :=
  (h _ (prev_mem h1 hi).1 (prev_mem h1 hi).2).trans (h i h1 hi).symm

theorem Constant.secondDifference_eq [CommRing R] (h : Constant n f) {i : ℤ} (h1 : 1 ≤ i)
    (hi : i ≤ n) : secondDifference n f i = 0 := by
  rw [secondDifference, h.next_eq h1 hi, h.prev_eq h1 hi, sub_self]

theorem Constant.centralDifference_eq [CommRing R] (h : Constant n f) {i : ℤ} (h1 : 1 ≤ i)
    (hi : i ≤ n) : centralDifference n f i = 0 := by
  rw [centralDifference, h.next_eq h1 hi, h.prev_eq h1 hi, sub_self]

variable [Field R] [LinearOrder R] [IsStrictOrderedRing R]

/-- A function without second differences grows by the same amount everywhere, and comes back to
where it was. -/
theorem constant_of_secondDifference
    (h : ∀ i, 1 ≤ i → i ≤ n → secondDifference n f i = 0) : Constant n f := by
  have hslope : Constant n fun i => f (next n i) - f i := by
    refine constant_of_next fun i h1 hi => ?_
    have hnext := h _ (next_mem h1 hi).1 (next_mem h1 hi).2
    rw [secondDifference, prev_next h1 hi] at hnext
    exact sub_eq_zero.1 hnext
  refine constant_of_next fun i h1 hi => ?_
  have hsum := sum_next_sub n f
  rw [Finset.sum_congr rfl fun i hi => hslope i (Finset.mem_Icc.1 hi).1 (Finset.mem_Icc.1 hi).2,
    Finset.sum_const, nsmul_eq_mul, mul_eq_zero] at hsum
  have hcard : ((Finset.Icc 1 n).card : R) ≠ 0 :=
    Nat.cast_ne_zero.2 (Finset.card_ne_zero_of_mem (Finset.mem_Icc.2 ⟨h1, hi⟩))
  exact sub_eq_zero.1 ((hslope i h1 hi).trans (hsum.resolve_left hcard))

/-- If the central differences are a multiple of the second ones, then each slope is a multiple of
the one before. The squares of the slopes have the same sum on both sides, and so they vanish. -/
theorem constant_of_centralDifference {c : R} (hc : c ≠ 0)
    (h : ∀ i, 1 ≤ i → i ≤ n → centralDifference n f i = c * secondDifference n f i) :
    Constant n f := by
  have hslope : ∀ i, 1 ≤ i → i ≤ n →
      (1 + c) * (f i - f (prev n i)) = (c - 1) * (f (next n i) - f i) := by
    intro i h1 hi
    have hi := h i h1 hi
    rw [centralDifference, secondDifference] at hi
    linear_combination hi
  have hsum : (1 + c) ^ 2 * ∑ i ∈ Finset.Icc 1 n, (f (next n i) - f i) ^ 2 =
      (c - 1) ^ 2 * ∑ i ∈ Finset.Icc 1 n, (f (next n i) - f i) ^ 2 := by
    rw [Finset.mul_sum, Finset.mul_sum, ← sum_prev]
    refine Finset.sum_congr rfl fun i hi => ?_
    obtain ⟨h1, hi⟩ := Finset.mem_Icc.1 hi
    rw [next_prev h1 hi, ← mul_pow, ← mul_pow, hslope i h1 hi]
  have hzero : ∑ i ∈ Finset.Icc 1 n, (f (next n i) - f i) ^ 2 = 0 := by
    have hfour : c * ∑ i ∈ Finset.Icc 1 n, (f (next n i) - f i) ^ 2 = 0 := by linarith
    exact (mul_eq_zero.1 hfour).resolve_left hc
  refine constant_of_next fun i h1 hi => ?_
  have hsq := (Finset.sum_eq_zero_iff_of_nonneg fun _ _ => sq_nonneg _).1 hzero i
    (Finset.mem_Icc.2 ⟨h1, hi⟩)
  exact sub_eq_zero.1 (pow_eq_zero_iff two_ne_zero |>.1 hsq)

end Constant

/-! ### Weighted means -/

section Between

variable {R ι : Type} [LinearOrder R] {s : Finset ι} {f : ι → R}

/-- The number lies between the least and the greatest value of the function on the set. -/
def Between (s : Finset ι) (f : ι → R) (x : R) : Prop := ∃ p ∈ s, ∃ q ∈ s, f p ≤ x ∧ x ≤ f q

theorem between_self {p : ι} (hp : p ∈ s) : Between s f (f p) := ⟨p, hp, p, hp, le_rfl, le_rfl⟩

variable [Field R] [IsStrictOrderedRing R]

/-- **The maximum principle.** A value that moves towards others, with weights that are not negative
and at most 1 together, stays between the extreme values. -/
theorem between_relaxed {k : ℕ} (weight : Fin k → R) (cell : Fin k → ι) {p : ι} (hp : p ∈ s)
    (hcell : ∀ l, cell l ∈ s) (hweight : ∀ l, 0 ≤ weight l) (hsum : ∑ l, weight l ≤ 1) :
    Between s f (f p + ∑ l, weight l * (f (cell l) - f p)) := by
  obtain ⟨low, hlow, hmin⟩ := s.exists_min_image f ⟨p, hp⟩
  obtain ⟨high, hhigh, hmax⟩ := s.exists_max_image f ⟨p, hp⟩
  -- Measured from any number `c`, the new value is a combination of the old ones.
  have hmove : ∀ c, f p + ∑ l, weight l * (f (cell l) - f p) - c =
      (1 - ∑ l, weight l) * (f p - c) + ∑ l, weight l * (f (cell l) - c) := by
    intro c
    simp only [mul_sub, Finset.sum_sub_distrib, ← Finset.sum_mul]
    ring
  have hrest : 0 ≤ 1 - ∑ l, weight l := sub_nonneg.2 hsum
  refine ⟨low, hlow, high, hhigh, ?_, ?_⟩
  · rw [← sub_nonneg, hmove]
    exact add_nonneg (mul_nonneg hrest (sub_nonneg.2 (hmin p hp))) (Finset.sum_nonneg fun l _ =>
      mul_nonneg (hweight l) (sub_nonneg.2 (hmin _ (hcell l))))
  · rw [← sub_nonpos, hmove]
    exact add_nonpos (mul_nonpos_of_nonneg_of_nonpos hrest (sub_nonpos.2 (hmax p hp)))
      (Finset.sum_nonpos fun l _ =>
        mul_nonpos_of_nonneg_of_nonpos (hweight l) (sub_nonpos.2 (hmax _ (hcell l))))

end Between

end PeriodicGrid
