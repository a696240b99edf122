import Mathlib.Analysis.Convex.Basic
import Mathlib.Tactic.Positivity
import DistributedComputing.Fortran.FiniteVolume

/-!
# Limited reconstruction

A model of `fv_reconstruct` and `fv_apply_limiter`. From the slope on the left of a cell, scaled by
a limiter that depends on the ratio of the slopes on both sides, the values at the interfaces of the
cell are computed.

All that matters of a limiter is `Limits`. The bound by 2 keeps the value on the left between the
cell and its left neighbour, the others that on the right between the cell and its right neighbour.
Where the slope on the left is at most `TOL_DEFAULT`, the ratio is taken to be zero, and so is the
limiter.
-/

namespace DistributedComputing

open ArrayLoops

/-- `LIMITER_NONE` -/
def limiterNone : ℤ := 0

/-- `LIMITER_MINMOD` -/
def limiterMinmod : ℤ := 1

/-- `LIMITER_VAN_LEER` -/
def limiterVanLeer : ℤ := 2

/-- `LIMITER_SUPERBEE` -/
def limiterSuperbee : ℤ := 3

variable {K : Type} [Field K] [LinearOrder K]

/-- `fv_apply_limiter` -/
def fvApplyLimiter (r : K) (limiterType : ℤ) : K :=
  if limiterType = limiterNone then 1
  else if limiterType = limiterMinmod then max 0 (min 1 r)
  else if limiterType = limiterVanLeer then (r + |r|) / (1 + |r|)
  else if limiterType = limiterSuperbee then
    max (max 0 (min 1 (decimal 2 0 * r))) (min (decimal 2 0) r)
  else 1

/-- The ratio of the slopes on both sides of a cell. -/
def slopeRatio (uPrev u uNext : K) : K :=
  if tolDefault < |u - uPrev| then (uNext - u) / (u - uPrev) else 0

/-- The slope of a cell. -/
def limitedSlope (limType : ℤ) (uPrev u uNext : K) : K :=
  let r := slopeRatio uPrev u uNext
  let phi := fvApplyLimiter r limType
  phi * (u - uPrev) / decimal 2 0

/-- `fv_reconstruct`: what it leaves in `u_left` and `u_right`. -/
def fvReconstruct (u uLeft uRight : Array1 K) (limiterType : Option ℤ) :
    Option (Array1 K × Array1 K) := do
  let n : ℤ := u.size
  let limType := limiterType.getD limiterMinmod
  let faces ← doLoop 2 (n - 1) (fun i (faces : Array1 K × Array1 K) => do
    let slope := limitedSlope limType (← u.get (i - 1)) (← u.get i) (← u.get (i + 1))
    let left ← faces.1.set i ((← u.get i) - slope)
    let right ← faces.2.set i ((← u.get i) + slope)
    return (left, right)) (uLeft, uRight)
  let left ← faces.1.set 1 (← u.get 1)
  let right ← faces.2.set 1 (← u.get 1)
  let left ← left.set n (← u.get n)
  let right ← right.set n (← u.get n)
  return (left, right)

/-! ### The loop -/

/-- The interfaces of the cells before `i` have been computed. -/
structure Reconstructed (limType : ℤ) (u : Array1 K) (i : ℤ) (faces : Array1 K × Array1 K) :
    Prop where
  left_size : faces.1.size = u.size
  right_size : faces.2.size = u.size
  left_eq : ∀ k, 2 ≤ k → k < i → faces.1.elem k =
    u.elem k - limitedSlope limType (u.elem (k - 1)) (u.elem k) (u.elem (k + 1))
  right_eq : ∀ k, 2 ≤ k → k < i → faces.2.elem k =
    u.elem k + limitedSlope limType (u.elem (k - 1)) (u.elem k) (u.elem (k + 1))

section Loop

variable {limType : ℤ} {u : Array1 K} {i : ℤ} {faces : Array1 K × Array1 K}

/-- A round of the loop. -/
theorem Reconstructed.step (h : Reconstructed limType u i faces) {left right : Array1 K}
    (h2 : 2 ≤ i) (hleft : faces.1.Written i
      (u.elem i - limitedSlope limType (u.elem (i - 1)) (u.elem i) (u.elem (i + 1))) left)
    (hright : faces.2.Written i
      (u.elem i + limitedSlope limType (u.elem (i - 1)) (u.elem i) (u.elem (i + 1))) right) :
    Reconstructed limType u (i + 1) (left, right) where
  left_size := hleft.size_eq.trans h.left_size
  right_size := hright.size_eq.trans h.right_size
  left_eq k hk hlt := by
    rcases eq_or_ne k i with rfl | hne
    · exact hleft.at_index
    · rw [hleft.elsewhere k hne]
      exact h.left_eq k hk (by omega)
  right_eq k hk hlt := by
    rcases eq_or_ne k i with rfl | hne
    · exact hright.at_index
    · rw [hright.elsewhere k hne]
      exact h.right_eq k hk (by omega)

theorem Reconstructed.edge (h : Reconstructed limType u i faces) {left right : Array1 K} {k : ℤ}
    {v v' : K} (hk : k < 2 ∨ i ≤ k) (hleft : faces.1.Written k v left)
    (hright : faces.2.Written k v' right) : Reconstructed limType u i (left, right) where
  left_size := hleft.size_eq.trans h.left_size
  right_size := hright.size_eq.trans h.right_size
  left_eq l hl hlt := by
    rw [hleft.elsewhere l (by omega)]
    exact h.left_eq l hl hlt
  right_eq l hl hlt := by
    rw [hright.elsewhere l (by omega)]
    exact h.right_eq l hl hlt

/-- **What `fv_reconstruct` computes** in the interior. -/
theorem fvReconstruct_returns {uLeft uRight : Array1 K} (limiterType : Option ℤ) (hn : 2 ≤ u.size)
    (hleft : uLeft.size = u.size) (hright : uRight.size = u.size) :
    Returns (fvReconstruct u uLeft uRight limiterType) fun faces =>
      Reconstructed (limiterType.getD limiterMinmod) u u.size faces := by
  refine (returns_doLoop (Reconstructed (limiterType.getD limiterMinmod) u) (by omega)
    ⟨hleft, hright, fun k hk hlt => by omega, fun k hk hlt => by omega⟩
    fun i faces h2 hi h => ?_).bind fun faces h => ?_
  · have hcell : u.InRange i := ⟨by omega, by omega⟩
    have hset : faces.1.InRange i := ⟨hcell.1, h.left_size ▸ hcell.2⟩
    have hset' : faces.2.InRange i := ⟨hcell.1, h.right_size ▸ hcell.2⟩
    -- the three cells of the slope, then the cell itself before each of the two writes
    refine Array1.returns_get ⟨by omega, by omega⟩ (Array1.returns_get hcell
      (Array1.returns_get ⟨by omega, by omega⟩ (Array1.returns_get hcell ?_)))
    refine (Array1.returns_set hset).bind fun left hl => Array1.returns_get hcell ?_
    refine (Array1.returns_set hset').bind fun right hr => ?_
    exact returns_some (h.step h2 hl hr)
  · rw [sub_add_cancel] at h
    have hfirst : u.InRange 1 := ⟨le_rfl, by omega⟩
    have hlast : u.InRange u.size := ⟨by omega, le_rfl⟩
    refine Array1.returns_get hfirst ?_
    refine (Array1.returns_set ⟨hfirst.1, h.left_size ▸ hfirst.2⟩).bind fun left hl => ?_
    refine Array1.returns_get hfirst ?_
    refine (Array1.returns_set ⟨hfirst.1, h.right_size ▸ hfirst.2⟩).bind fun right hr => ?_
    have h₁ := h.edge (.inl (by decide)) hl hr
    refine Array1.returns_get hlast ?_
    refine (Array1.returns_set ⟨hlast.1, h₁.left_size ▸ hlast.2⟩).bind fun left' hl' => ?_
    refine Array1.returns_get hlast ?_
    refine (Array1.returns_set ⟨hlast.1, h₁.right_size ▸ hlast.2⟩).bind fun right' hr' => ?_
    exact returns_some (h₁.edge (.inr le_rfl) hl' hr')

end Loop

/-! ### Limiters -/

/-- What a limiter guarantees. -/
structure Limits (phi r : K) : Prop where
  nonneg : 0 ≤ phi
  le_two : phi ≤ decimal 2 0
  of_nonpos : r ≤ 0 → phi = 0
  of_nonneg : 0 ≤ r → phi ≤ decimal 2 0 * r

variable [IsStrictOrderedRing K]

theorem limits_minmod (r : K) : Limits (max 0 (min 1 r)) r := by
  refine ⟨le_max_left _ _, ?_, fun hr => ?_, fun hr => ?_⟩
  · rw [decimal_two_zero]
    exact max_le zero_le_two ((min_le_left _ _).trans one_le_two)
  · exact max_eq_left ((min_le_right _ _).trans hr)
  · rw [decimal_two_zero]
    exact max_le (by linarith) ((min_le_right _ _).trans (by linarith))

theorem limits_vanLeer (r : K) : Limits ((r + |r|) / (1 + |r|)) r := by
  have hden : 0 < 1 + |r| := add_pos_of_pos_of_nonneg one_pos (abs_nonneg r)
  have hle : r ≤ |r| := le_abs_self r
  refine ⟨div_nonneg (add_abs_nonneg r) hden.le, ?_, fun hr => ?_, fun hr => ?_⟩
  · rw [decimal_two_zero, div_le_iff₀ hden]
    linarith
  · rw [abs_of_nonpos hr, add_neg_cancel, zero_div]
  · rw [decimal_two_zero, div_le_iff₀ hden, abs_of_nonneg hr, ← two_mul]
    exact le_mul_of_one_le_right (mul_nonneg zero_le_two hr) (le_add_of_nonneg_right hr)

theorem limits_superbee (r : K) :
    Limits (max (max 0 (min 1 (decimal 2 0 * r))) (min (decimal 2 0) r)) r := by
  have htwo : (decimal 2 0 : K) = 2 := decimal_two_zero
  have htwice : (decimal 2 0 : K) * r = 2 * r := by rw [htwo]
  refine ⟨le_max_of_le_left (le_max_left _ _), ?_, fun hr => ?_, fun hr => ?_⟩
  · exact max_le (max_le (by linarith) ((min_le_left _ _).trans (by linarith))) (min_le_left _ _)
  · have hmin : min 1 (decimal 2 0 * r) ≤ 0 := (min_le_right _ _).trans (by linarith)
    rw [max_eq_left hmin, max_eq_left ((min_le_right _ _).trans hr)]
  · exact max_le (max_le (by linarith) (min_le_right _ _)) ((min_le_right _ _).trans (by linarith))

theorem limits_fvApplyLimiter {limType : ℤ} (h : limType = limiterMinmod ∨
    limType = limiterVanLeer ∨ limType = limiterSuperbee) (r : K) :
    Limits (fvApplyLimiter r limType) r := by
  rcases h with rfl | rfl | rfl
  · exact limits_minmod r
  · exact limits_vanLeer r
  · exact limits_superbee r

/-! ### The interfaces of a cell -/

section Slope

variable {limType : ℤ} (h : ∀ r : K, Limits (fvApplyLimiter r limType) r)

include h

/-- The value at the left interface. -/
theorem sub_limitedSlope_mem (uPrev u uNext : K) :
    u - limitedSlope limType uPrev u uNext ∈ Set.uIcc uPrev u := by
  rw [limitedSlope, decimal_two_zero]
  set phi := fvApplyLimiter (slopeRatio uPrev u uNext) limType
  have hphi : Limits phi (slopeRatio uPrev u uNext) := h _
  have hle := hphi.le_two
  rw [decimal_two_zero] at hle
  have hmove : u - phi * (u - uPrev) / 2 = u + phi / 2 * (uPrev - u) := by ring
  rw [hmove, Set.uIcc_comm]
  exact (convex_uIcc u uPrev).add_smul_sub_mem Set.left_mem_uIcc Set.right_mem_uIcc
    ⟨div_nonneg hphi.nonneg zero_le_two, (div_le_one two_pos).2 hle⟩

theorem add_limitedSlope_mem (uPrev u uNext : K) :
    u + limitedSlope limType uPrev u uNext ∈ Set.uIcc u uNext := by
  rw [limitedSlope, decimal_two_zero]
  set r := slopeRatio uPrev u uNext with hr
  set phi := fvApplyLimiter r limType
  have hphi : Limits phi r := h r
  rcases le_or_gt r 0 with hneg | hpos
  · rw [hphi.of_nonpos hneg, zero_mul, zero_div, add_zero]
    exact Set.left_mem_uIcc
  · -- The slopes have the same sign, and the ratio takes the one on the left to that on the right.
    have hratio : r * (u - uPrev) = uNext - u := by
      rw [slopeRatio] at hr
      split_ifs at hr with htol
      · have hne : u - uPrev ≠ 0 := by
          intro hzero
          rw [hzero, abs_zero] at htol
          exact absurd (lt_trans (by rw [tolDefault]; positivity) htol) (lt_irrefl 0)
        rw [hr, div_mul_cancel₀ _ hne]
      · exact absurd hr hpos.ne'
    have hle := hphi.of_nonneg hpos.le
    rw [decimal_two_zero] at hle
    have hmove : u + phi * (u - uPrev) / 2 = u + phi / (2 * r) * (uNext - u) := by
      rw [← hratio, div_mul_eq_mul_div, mul_comm 2 r, mul_left_comm phi r,
        mul_div_mul_left _ _ hpos.ne']
    have htwice : 0 < 2 * r := mul_pos two_pos hpos
    rw [hmove]
    exact (convex_uIcc u uNext).add_smul_sub_mem Set.left_mem_uIcc Set.right_mem_uIcc
      ⟨div_nonneg hphi.nonneg htwice.le, (div_le_one htwice).2 hle⟩

end Slope

/-! ### No new extrema -/

/-- **Limited reconstruction creates no new extrema.** -/
theorem fvReconstruct_no_new_extrema (u uLeft uRight : Array1 K) (limiterType : Option ℤ)
    (hlimiter : limiterType.getD limiterMinmod = limiterMinmod ∨
      limiterType.getD limiterMinmod = limiterVanLeer ∨
      limiterType.getD limiterMinmod = limiterSuperbee)
    (hn : 2 ≤ u.size) (hleft : uLeft.size = u.size) (hright : uRight.size = u.size) :
    Returns (fvReconstruct u uLeft uRight limiterType) fun faces =>
      ∀ i : ℤ, 2 ≤ i → i ≤ u.size - 1 →
        faces.1.elem i ∈ Set.uIcc (u.elem (i - 1)) (u.elem i) ∧
        faces.2.elem i ∈ Set.uIcc (u.elem i) (u.elem (i + 1)) := by
  refine (fvReconstruct_returns limiterType hn hleft hright).mono fun faces h i h2 hi => ?_
  have hlimits := limits_fvApplyLimiter (K := K) hlimiter
  rw [h.left_eq i h2 (by omega), h.right_eq i h2 (by omega)]
  exact ⟨sub_limitedSlope_mem hlimits _ _ _, add_limitedSlope_mem hlimits _ _ _⟩

/-- With the superbee limiter, on three cells. -/
theorem fvReconstruct_no_new_extrema_superbee :
    Returns (fvReconstruct threeCells threeCells threeCells (some limiterSuperbee)) fun faces =>
      faces.1.elem 2 ∈ Set.uIcc 1 2 ∧ faces.2.elem 2 ∈ Set.uIcc 2 3 :=
  (fvReconstruct_no_new_extrema threeCells threeCells threeCells (some limiterSuperbee)
    (.inr (.inr rfl)) (by decide) rfl rfl).mono fun faces h => h 2 (by decide) (by decide)

end DistributedComputing
