import Mathlib.Algebra.Order.BigOperators.Group.LocallyFinite
import Mathlib.Algebra.Order.BigOperators.Group.Finset
import Mathlib.Analysis.Convex.Basic
import Mathlib.Data.Int.ConditionallyCompleteOrder
import Mathlib.Data.Int.Interval
import Mathlib.Data.Int.SuccPred

/-!
# Piecewise linear interpolation

The function through the points `(xs 1, fs 1), …, (xs n, fs n)` that is linear between two
neighbours and constant outside, over an ordered field. It is **not** defined by cases on the
interval that `x` lies in: `interpolant` starts with the first value, and adds the rise of every
interval as far as `x` has got in it (`ramp`). Two intervals that share a node therefore cannot
disagree there, and whoever looks for the interval of `x` may take either.

What is proved, and what it rests on:

* `interpolant_of_mem`, `interpolant_of_le`, `interpolant_of_ge` — the value on each piece. The
  intervals in front of `x` have risen completely, those behind it not at all;
* `interpolant_node` — the value at a node, as a special case of these;
* `interpolant_mem_Icc` — the value stays within bounds of `fs`, by induction on `n`: the last
  interval only mixes its two values;
* `monotone_interpolant` — monotonicity, which needs no pieces: every ramp is monotone, and so is
  their sum with nonnegative rises.
-/

namespace PiecewiseLinear

variable {K : Type*} [Field K] [LinearOrder K]

/-- How far `x` has got in the interval from `a` to `b`: zero up to `a`, one from `b` on, and linear
in between. -/
def ramp (a b x : K) : K := max 0 (min 1 ((x - a) / (b - a)))

/-- **The interpolant** of `n` points. -/
noncomputable def interpolant (n : ℤ) (xs fs : ℤ → K) (x : K) : K :=
  fs 1 + ∑ i ∈ Finset.Ico 1 n, ramp (xs i) (xs (i + 1)) x * (fs (i + 1) - fs i)

variable [IsStrictOrderedRing K]

/-! ### Ramps -/

section Ramp

variable {a b x : K}

theorem ramp_mem_Icc (a b x : K) : ramp a b x ∈ Set.Icc 0 1 :=
  ⟨le_max_left _ _, max_le zero_le_one (min_le_left _ _)⟩

theorem ramp_of_mem (hab : a < b) (ha : a ≤ x) (hb : x ≤ b) :
    ramp a b x = (x - a) / (b - a) := by
  have hpos : 0 < b - a := sub_pos.2 hab
  have hle : (x - a) / (b - a) ≤ 1 := (div_le_one hpos).2 (sub_le_sub_right hb a)
  rw [ramp, min_eq_right hle, max_eq_right (div_nonneg (sub_nonneg.2 ha) hpos.le)]

theorem ramp_mono (hab : a < b) : Monotone (ramp a b) := by
  intro x y hxy
  have hpos : 0 ≤ b - a := (sub_pos.2 hab).le
  exact max_le_max_left 0 (min_le_min_left 1
    (div_le_div_of_nonneg_right (sub_le_sub_right hxy a) hpos))

theorem ramp_of_le (hab : a < b) (hx : x ≤ a) : ramp a b x = 0 := by
  refine le_antisymm ?_ (ramp_mem_Icc a b x).1
  calc ramp a b x ≤ ramp a b a := ramp_mono hab hx
    _ = 0 := by rw [ramp_of_mem hab le_rfl hab.le, sub_self, zero_div]

theorem ramp_of_ge (hab : a < b) (hx : b ≤ x) : ramp a b x = 1 := by
  refine le_antisymm (ramp_mem_Icc a b x).2 ?_
  calc 1 = ramp a b b := by rw [ramp_of_mem hab hab.le le_rfl, div_self (sub_pos.2 hab).ne']
    _ ≤ ramp a b x := ramp_mono hab hx

end Ramp

/-! ### The value on each piece -/

variable {n i : ℤ} {xs fs : ℤ → K} {x : K}

omit [IsStrictOrderedRing K] in
theorem interpolant_one (xs fs : ℤ → K) (x : K) : interpolant 1 xs fs x = fs 1 := by
  rw [interpolant, Finset.Ico_self, Finset.sum_empty, add_zero]

omit [IsStrictOrderedRing K] in
/-- One more point. -/
theorem interpolant_add_one (hn : 1 ≤ n) :
    interpolant (n + 1) xs fs x =
      interpolant n xs fs x + ramp (xs n) (xs (n + 1)) x * (fs (n + 1) - fs n) := by
  rw [interpolant, ← Finset.sum_Ico_add_eq_sum_Ico_add_one hn, ← add_assoc]
  rfl

/-- The nodes from `i` on do not matter up to there. -/
theorem interpolant_of_le_node (hi : 1 ≤ i) (hin : i ≤ n) (hxs : StrictMonoOn xs (Set.Icc 1 n))
    (hx : x ≤ xs i) : interpolant n xs fs x = interpolant i xs fs x := by
  induction n, hin using Int.leInduction with
  | base => rfl
  | succ n hin ih =>
    have hn : n ∈ Set.Icc 1 (n + 1) := ⟨hi.trans hin, by omega⟩
    have hle : xs i ≤ xs n := hxs.monotoneOn ⟨hi, by omega⟩ hn hin
    have hlt : xs n < xs (n + 1) := hxs hn ⟨by omega, le_rfl⟩ (lt_add_one n)
    rw [interpolant_add_one hn.1, ramp_of_le hlt (hx.trans hle), zero_mul, add_zero]
    exact ih (hxs.mono (Set.Icc_subset_Icc_right hn.2))

/-- **Behind the last node.** -/
theorem interpolant_of_ge (hn : 1 ≤ n) (hxs : StrictMonoOn xs (Set.Icc 1 n)) (hx : xs n ≤ x) :
    interpolant n xs fs x = fs n := by
  induction n, hn using Int.leInduction with
  | base => exact interpolant_one xs fs x
  | succ n hn ih =>
    have hmem : n ∈ Set.Icc 1 (n + 1) := ⟨hn, by omega⟩
    have hlt : xs n < xs (n + 1) := hxs hmem ⟨by omega, le_rfl⟩ (lt_add_one n)
    have hprev : interpolant n xs fs x = fs n :=
      ih (hxs.mono (Set.Icc_subset_Icc_right hmem.2)) (hlt.le.trans hx)
    rw [interpolant_add_one hn, ramp_of_ge hlt hx, one_mul, hprev, add_sub_cancel]

/-- **In front of the first node.** -/
theorem interpolant_of_le (hn : 1 ≤ n) (hxs : StrictMonoOn xs (Set.Icc 1 n)) (hx : x ≤ xs 1) :
    interpolant n xs fs x = fs 1 :=
  (interpolant_of_le_node le_rfl hn hxs hx).trans (interpolant_one xs fs x)

/-- **At a node.** -/
theorem interpolant_node (hxs : StrictMonoOn xs (Set.Icc 1 n)) (hi : i ∈ Set.Icc 1 n) :
    interpolant n xs fs (xs i) = fs i :=
  (interpolant_of_le_node hi.1 hi.2 hxs le_rfl).trans
    (interpolant_of_ge hi.1 (hxs.mono (Set.Icc_subset_Icc_right hi.2)) le_rfl)

/-- **Between two nodes**, the interpolant mixes their values. -/
theorem interpolant_of_mem (hxs : StrictMonoOn xs (Set.Icc 1 n)) (hi : 1 ≤ i) (hin : i < n)
    (hx : x ∈ Set.Icc (xs i) (xs (i + 1))) :
    interpolant n xs fs x =
      (1 - (x - xs i) / (xs (i + 1) - xs i)) * fs i +
        (x - xs i) / (xs (i + 1) - xs i) * fs (i + 1) := by
  have hlt : xs i < xs (i + 1) := hxs ⟨hi, by omega⟩ ⟨by omega, hin⟩ (lt_add_one i)
  have hfront : interpolant i xs fs x = fs i :=
    interpolant_of_ge hi (hxs.mono (Set.Icc_subset_Icc_right hin.le)) hx.1
  rw [interpolant_of_le_node (by omega) hin hxs hx.2, interpolant_add_one hi, hfront,
    ramp_of_mem hlt hx.1 hx.2]
  ring

/-! ### Bounds and monotonicity -/

/-- **The values stay within the bounds** of the given ones. -/
theorem interpolant_mem_Icc {lo hi : K} (hn : 1 ≤ n) (hxs : StrictMonoOn xs (Set.Icc 1 n))
    (hfs : ∀ i ∈ Set.Icc 1 n, fs i ∈ Set.Icc lo hi) (x : K) :
    interpolant n xs fs x ∈ Set.Icc lo hi := by
  induction n, hn using Int.leInduction with
  | base =>
    rw [interpolant_one]
    exact hfs 1 ⟨le_rfl, le_rfl⟩
  | succ n hn ih =>
    have hsub : Set.Icc 1 n ⊆ Set.Icc 1 (n + 1) := Set.Icc_subset_Icc_right (by omega)
    rcases le_total x (xs n) with hx | hx
    · rw [interpolant_of_le_node hn (by omega) hxs hx]
      exact ih (hxs.mono hsub) fun i hi => hfs i (hsub hi)
    · rw [interpolant_add_one hn, interpolant_of_ge hn (hxs.mono hsub) hx]
      exact (convex_Icc lo hi).add_smul_sub_mem (hfs n (hsub ⟨hn, le_rfl⟩))
        (hfs (n + 1) ⟨by omega, le_rfl⟩) (ramp_mem_Icc _ _ x)

/-- **Values that do not decrease** have an interpolant that does not. -/
theorem monotone_interpolant (hxs : StrictMonoOn xs (Set.Icc 1 n))
    (hfs : MonotoneOn fs (Set.Icc 1 n)) : Monotone (interpolant n xs fs) := by
  intro x y hxy
  refine add_le_add_right (Finset.sum_le_sum fun i hi => ?_) (fs 1)
  obtain ⟨h1, hlt⟩ := Finset.mem_Ico.1 hi
  have hmem : i ∈ Set.Icc 1 n := ⟨h1, hlt.le⟩
  have hmem' : i + 1 ∈ Set.Icc 1 n := ⟨by omega, hlt⟩
  have hrise : 0 ≤ fs (i + 1) - fs i := sub_nonneg.2 (hfs hmem hmem' (lt_add_one i).le)
  exact mul_le_mul_of_nonneg_right (ramp_mono (hxs hmem hmem' (lt_add_one i)) hxy) hrise

end PiecewiseLinear
