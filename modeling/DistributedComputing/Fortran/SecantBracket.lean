import DistributedComputing.Fortran.NewtonBracket

/-!
# The secant method in a bracket

A model of `secant_solve_bracket` (the Illinois algorithm), over an ordered field in place of
`real(wp)`. The inputs that are refused are those of the Newton method.

The values that are stored for the two ends are not those of the function: the algorithm halves one
of them on purpose, and where the ends are given in descending order, the value of the **lower** end
is stored for both.

* `Kept` is what the rounds keep nevertheless: a bracket with a change of sign, and a value for the
  lower end that is not zero and has the right sign. The value for the upper end only decides where
  in the bracket the new point is. `secant_encloses` follows.
* With the ends in descending order, the first new point is the midpoint, and the wrong value stays
  stored until a round moves the upper end. The results are the same in both orders, with whatever
  limit for the rounds, exactly if the secant points are midpoints as well up to there. `OrderFree`
  says this of the function and the ends, and `secant_order` proves it.
-/

namespace DistributedComputing

open BoundedLoop Brackets
open NewtonBracket (Rejects nonpos_of_not_rejects)

/-- The status codes. -/
inductive SecStatus
  | success
  | maxIter
  | diverged
  | flatFunction
  | invalidInput
  deriving DecidableEq, Repr

/-- `secant_params_t`, less what only `secant_solve` reads. -/
structure SecParams (K : Type) [Field K] where
  tol : K := decimal 1 10
  tolF : K := decimal 1 10
  maxIter : ℤ := 100

/-- The variables of the loop, and what is returned from it. -/
structure SecState (K : Type) [Field K] where
  xLow : K
  xHigh : K
  fLow : K
  fHigh : K
  side : ℤ := 0
  root : K := 0
  numIter : ℤ := 0

/-- What is returned. -/
structure SecResult (K : Type) where
  root : K
  status : SecStatus
  numIter : ℤ
  deriving DecidableEq, Repr

namespace SecantBracket

variable {K : Type} [Field K] [LinearOrder K]

section Solve

variable (huge tiny : K) (f : K → K) (p : SecParams K)

/-- `x_new`: the secant point, cut off at the ends of the bracket, or the midpoint. -/
def newPoint (s : SecState K) : K :=
  if |s.fHigh - s.fLow| < tiny then decimal 5 1 * (s.xLow + s.xHigh)
  else max s.xLow (min s.xHigh (s.xLow - s.fLow * (s.xHigh - s.xLow) / (s.fHigh - s.fLow)))

/-- A round of the loop. -/
def round (iter : ℕ) (s : SecState K) : Round (SecState K) :=
  if s.xHigh - s.xLow < p.tol * (1 + |s.xLow|) then
    .exit { s with root := decimal 5 1 * (s.xLow + s.xHigh), numIter := iter }
  else
    let xNew := newPoint tiny s
    if |f xNew| < p.tolF then .exit { s with root := xNew, numIter := iter }
    else if f xNew * s.fLow < 0 then
      .next { s with
        xHigh := xNew
        fHigh := f xNew
        fLow := if s.side = -1 then s.fLow * decimal 5 1 else s.fLow
        side := -1 }
    else
      .next { s with
        xLow := xNew
        fLow := f xNew
        fHigh := if s.side = 1 then s.fHigh * decimal 5 1 else s.fHigh
        side := 1 }

/-- The variables before the first round. In descending order, `f_low` is set to `f_high`, and
`f_high` to the value at `x_low`. -/
def start (a b : K) : SecState K :=
  if a < b then { xLow := a, xHigh := b, fLow := f a, fHigh := f b }
  else { xLow := b, xHigh := a, fLow := f b, fHigh := f b }

/-- What is returned after the loop. -/
def finish : Round (SecState K) → SecResult K
  | .exit s => ⟨s.root, .success, s.numIter⟩
  | .next s => ⟨decimal 5 1 * (s.xLow + s.xHigh), .maxIter, p.maxIter⟩

/-- `secant_solve_bracket` behind the set-up of the bracket. -/
def solveFrom (s : SecState K) : SecResult K :=
  if |s.fLow| < p.tolF then ⟨s.xLow, .success, 0⟩
  else if |s.fHigh| < p.tolF then ⟨s.xHigh, .success, 0⟩
  else finish p (run (round tiny f p) p.maxIter.toNat 1 s)

/-- `secant_solve_bracket`. -/
def solve (a b : K) : SecResult K :=
  if Rejects huge f a b then ⟨decimal 5 1 * (a + b), .invalidInput, 0⟩
  else solveFrom tiny f p (start f a b)

end Solve

/-! ### The rounds -/

/-- **A round** leaves the loop with a narrow bracket or a small value, or replaces one of the
ends. -/
inductive Ended (tiny : K) (f : K → K) (p : SecParams K) (iter : ℕ) (s : SecState K) :
    Round (SecState K) → Prop
  | narrow (h : s.xHigh - s.xLow < p.tol * (1 + |s.xLow|)) :
      Ended tiny f p iter s
        (.exit { s with root := decimal 5 1 * (s.xLow + s.xHigh), numIter := iter })
  | found (hwide : p.tol * (1 + |s.xLow|) ≤ s.xHigh - s.xLow)
      (h : |f (newPoint tiny s)| < p.tolF) :
      Ended tiny f p iter s (.exit { s with root := newPoint tiny s, numIter := iter })
  | upper (hwide : p.tol * (1 + |s.xLow|) ≤ s.xHigh - s.xLow)
      (hlarge : p.tolF ≤ |f (newPoint tiny s)|) (h : f (newPoint tiny s) * s.fLow < 0) :
      Ended tiny f p iter s (.next { s with
        xHigh := newPoint tiny s
        fHigh := f (newPoint tiny s)
        fLow := if s.side = -1 then s.fLow * decimal 5 1 else s.fLow
        side := -1 })
  | lower (hwide : p.tol * (1 + |s.xLow|) ≤ s.xHigh - s.xLow)
      (hlarge : p.tolF ≤ |f (newPoint tiny s)|) (h : 0 ≤ f (newPoint tiny s) * s.fLow) :
      Ended tiny f p iter s (.next { s with
        xLow := newPoint tiny s
        fLow := f (newPoint tiny s)
        fHigh := if s.side = 1 then s.fHigh * decimal 5 1 else s.fHigh
        side := 1 })

theorem ended_round (tiny : K) (f : K → K) (p : SecParams K) (iter : ℕ) (s : SecState K) :
    Ended tiny f p iter s (round tiny f p iter s) := by
  rw [round]
  rcases lt_or_ge (s.xHigh - s.xLow) (p.tol * (1 + |s.xLow|)) with hnarrow | hwide
  · rw [if_pos hnarrow]
    exact .narrow hnarrow
  rw [if_neg hwide.not_gt]
  rcases lt_or_ge |f (newPoint tiny s)| p.tolF with hsmall | hlarge
  · rw [if_pos hsmall]
    exact .found hwide hsmall
  rw [if_neg hlarge.not_gt]
  rcases lt_or_ge (f (newPoint tiny s) * s.fLow) 0 with hneg | hpos
  · rw [if_pos hneg]
    exact .upper hwide hlarge hneg
  · rw [if_neg hpos.not_gt]
    exact .lower hwide hlarge hpos

variable [IsStrictOrderedRing K] {huge tiny a b lo hi : K} {f : K → K} {p : SecParams K}
  {s t : SecState K} {iter : ℕ}

/-- The new point is in the bracket, whatever the stored values are. -/
theorem newPoint_mem (tiny : K) {s : SecState K} (h : s.xLow ≤ s.xHigh) :
    s.xLow ≤ newPoint tiny s ∧ newPoint tiny s ≤ s.xHigh := by
  rw [newPoint]
  split
  · rw [decimal_five_one]
    exact ⟨le_half_sum h, half_sum_le h⟩
  · exact ⟨le_max_left _ _, max_le h (min_le_left _ _)⟩

/-- What the rounds keep. -/
structure Kept (f : K → K) (lo hi : K) (s : SecState K) : Prop where
  bracket : Bracket f lo hi s.xLow s.xHigh
  sign : 0 < s.fLow * f s.xLow

theorem kept_of_next (htol : 0 < p.tolF) (h : Kept f lo hi s)
    (hround : round tiny f p iter s = .next t) : Kept f lo hi t := by
  obtain ⟨hlow, hhigh⟩ := newPoint_mem tiny h.bracket.le
  have hend := ended_round tiny f p iter s
  rw [hround] at hend
  cases hend with
  | upper _ _ hneg =>
    refine ⟨h.bracket.upper hlow hhigh ((mul_neg_iff_of_same_sign h.sign).1 hneg), ?_⟩
    -- halving does not change the sign
    show 0 < (if s.side = -1 then s.fLow * decimal 5 1 else s.fLow) * f s.xLow
    split
    · rw [mul_right_comm]
      exact mul_pos h.sign (decimal_pos (by decide) 1)
    · exact h.sign
  | lower _ hlarge hpos =>
    have hne : f (newPoint tiny s) ≠ 0 := abs_pos.1 (htol.trans_le hlarge)
    have hsame : 0 ≤ f (newPoint tiny s) * f s.xLow :=
      not_lt.1 fun hneg => hpos.not_gt ((mul_neg_iff_of_same_sign h.sign).2 hneg)
    exact ⟨h.bracket.lower hlow hhigh (right_ne_zero_of_mul h.sign.ne') hsame, mul_self_pos.2 hne⟩

/-- **What a success has to mean**: a root in the range, with a small value, or in the middle of a
narrow bracket at whose ends the function does not have the same sign. -/
def Encloses (f : K → K) (p : SecParams K) (lo hi root : K) : Prop :=
  lo ≤ root ∧ root ≤ hi ∧
    (|f root| < p.tolF ∨ ∃ xLow xHigh, lo ≤ xLow ∧ xLow ≤ xHigh ∧ xHigh ≤ hi ∧
      root + root = xLow + xHigh ∧ xHigh - xLow < p.tol * (1 + |xLow|) ∧
      f xLow * f xHigh ≤ 0)

theorem encloses_of_exit (h : Kept f lo hi s) (hround : round tiny f p iter s = .exit t) :
    Encloses f p lo hi t.root := by
  have hend := ended_round tiny f p iter s
  rw [hround] at hend
  cases hend with
  | narrow hwidth =>
    rw [Encloses, decimal_five_one]
    have hmiddle : 1 / 2 * (s.xLow + s.xHigh) + 1 / 2 * (s.xLow + s.xHigh) = s.xLow + s.xHigh := by
      ring
    exact ⟨h.bracket.lo_le.trans (le_half_sum h.bracket.le),
      (half_sum_le h.bracket.le).trans h.bracket.le_hi, .inr ⟨s.xLow, s.xHigh, h.bracket.lo_le,
        h.bracket.le, h.bracket.le_hi, hmiddle, hwidth, h.bracket.nonpos⟩⟩
  | found _ hsmall =>
    obtain ⟨hlow, hhigh⟩ := newPoint_mem tiny h.bracket.le
    exact ⟨h.bracket.lo_le.trans hlow, hhigh.trans h.bracket.le_hi, .inl hsmall⟩

/-- **The loop.** What it reports as a root is enclosed. -/
theorem encloses_of_finish (htol : 0 < p.tolF) (h : Kept f lo hi s) {count : ℕ}
    (hstatus : (finish p (run (round tiny f p) count 1 s)).status = .success) :
    Encloses f p lo hi (finish p (run (round tiny f p) count 1 s)).root := by
  rcases @run_cases _ (round tiny f p) 1 s count with
    ⟨t, hrun, -⟩ | ⟨j, t, u, hrun, -, hreach, hround⟩
  · rw [hrun] at hstatus
    cases hstatus
  · rw [hrun]
    have ht : Kept f lo hi t :=
      Reaches.invariant (I := fun _ => Kept f lo hi) h (fun _ _ _ => kept_of_next htol) hreach
    exact encloses_of_exit ht hround

/-! ### The beginning -/

/-- The variables before the first round, up to the value that is stored for the upper end. -/
def startWith (f : K → K) (lo hi fHigh : K) : SecState K :=
  { xLow := lo, xHigh := hi, fLow := f lo, fHigh }

omit [IsStrictOrderedRing K] in
/-- In both orders, the value that is stored for the upper end is that of the second argument. -/
theorem start_eq (f : K → K) (a b : K) :
    start f a b = startWith f (min a b) (max a b) (f b) := by
  rw [start, startWith]
  rcases lt_or_ge a b with h | h
  · rw [if_pos h, min_eq_left h.le, max_eq_right h.le]
  · rw [if_neg h.not_gt, min_eq_right h, max_eq_left h]

/-- **The secant method in a bracket.** Whatever it reports as a root is enclosed. -/
theorem secant_encloses (huge tiny : K) (f : K → K) (a b : K) (p : SecParams K) (htol : 0 < p.tolF)
    (hstatus : (solve huge tiny f p a b).status = .success) :
    Encloses f p (min a b) (max a b) (solve huge tiny f p a b).root := by
  rw [solve] at hstatus ⊢
  split at hstatus
  · cases hstatus
  next hvalid =>
  rw [if_neg hvalid]
  rw [solveFrom, start_eq, startWith] at hstatus ⊢
  rcases lt_or_ge |f (min a b)| p.tolF with hsmall | hlarge
  · rw [if_pos hsmall]
    exact ⟨le_rfl, min_le_max, .inl hsmall⟩
  rw [if_neg hlarge.not_gt] at hstatus ⊢
  rcases lt_or_ge |f b| p.tolF with hsmall | hlarge'
  · -- in descending order, this would have been the value at the lower end
    rw [if_pos hsmall]
    have hmax : max a b = b := max_eq_right (le_of_not_ge fun hle => by
      rw [min_eq_right hle] at hlarge
      exact hlarge.not_gt hsmall)
    exact ⟨min_le_max, le_rfl, .inl (hmax.symm ▸ hsmall)⟩
  rw [if_neg hlarge'.not_gt] at hstatus ⊢
  refine encloses_of_finish htol ⟨⟨le_rfl, min_le_max, le_rfl, ?_⟩, ?_⟩ hstatus
  · exact nonpos_of_not_rejects hvalid
  · exact mul_self_pos.2 (abs_pos.1 (htol.trans_le hlarge))

/-- The parameters of the runs below. -/
def coarse : SecParams ℚ := { tol := decimal 25 2, tolF := decimal 1 1, maxIter := 10 }

/-- The square root of two, between one and two. -/
theorem secant_encloses_sqrt :
    (solve 100 (decimal 1 9) (fun x => x * x - 2) coarse 1 2).status = .success ∧
      Encloses (fun x => x * x - 2) coarse (min 1 2) (max 1 2)
        (solve 100 (decimal 1 9) (fun x => x * x - 2) coarse 1 2).root := by
  have hstatus : (solve 100 (decimal 1 9) (fun x => x * x - 2) coarse 1 2).status = .success := by
    with_unfolding_all decide
  refine ⟨hstatus, secant_encloses 100 (decimal 1 9) (fun x => x * x - 2) 1 2 coarse ?_ hstatus⟩
  exact decimal_pos (by decide) 1

/-! ### The order of the ends -/

/-- The lower end after `k` bisections that have moved it. -/
def lowPoint (lo hi : K) (k : ℕ) : K := hi - (hi - lo) * decimal 5 1 ^ k

/-- The variables after `k` rounds that have bisected and moved the lower end. The value for the
upper end is halved from the second of them on. -/
def lowState (f : K → K) (lo hi v : K) (k : ℕ) : SecState K where
  xLow := lowPoint lo hi k
  xHigh := hi
  fLow := f (lowPoint lo hi k)
  fHigh := v * decimal 5 1 ^ (k - 1)
  side := if k = 0 then 0 else 1

/-- The first `k` bisections have found values that are not small, with the sign at the lower end,
and the bracket is not narrow after them. -/
inductive Raised (f : K → K) (tol tolF lo hi : K) : ℕ → Prop
  | zero (hwide : tol * (1 + |lowPoint lo hi 0|) ≤ hi - lowPoint lo hi 0) :
      Raised f tol tolF lo hi 0
  | succ {k : ℕ} (h : Raised f tol tolF lo hi k) (hlarge : tolF ≤ |f (lowPoint lo hi (k + 1))|)
      (hsame : 0 ≤ f (lowPoint lo hi (k + 1)) * f (lowPoint lo hi k))
      (hwide : tol * (1 + |lowPoint lo hi (k + 1)|) ≤ hi - lowPoint lo hi (k + 1)) :
      Raised f tol tolF lo hi (k + 1)

/-- **The next point is the midpoint** in both orders: with the value of the lower end stored for
the upper end as well, and with the right one. -/
def Bisects (tiny : K) (f : K → K) (lo hi : K) (k : ℕ) : Prop :=
  |f lo * decimal 5 1 ^ (k - 1) - f (lowPoint lo hi k)| < tiny ∧
    (|f hi * decimal 5 1 ^ (k - 1) - f (lowPoint lo hi k)| < tiny ∨
      f (lowPoint lo hi k) = -(f hi * decimal 5 1 ^ (k - 1)))

/-- **The order makes no difference**: there is none, the input is refused, the lower end is taken
for a root, or the upper end is not and both orders bisect as long as they move the lower end. -/
def OrderFree (huge tiny : K) (f : K → K) (p : SecParams K) (a b : K) : Prop :=
  a = b ∨ Rejects huge f a b ∨ |f (min a b)| < p.tolF ∨
    p.tolF ≤ |f (max a b)| ∧ ∀ k, Raised f p.tol p.tolF (min a b) (max a b) k →
      Bisects tiny f (min a b) (max a b) k

section Points

omit [LinearOrder K] [IsStrictOrderedRing K] in
theorem lowPoint_zero (lo hi : K) : lowPoint lo hi 0 = lo := by
  rw [lowPoint, pow_zero, mul_one, sub_sub_cancel]

omit [LinearOrder K] [IsStrictOrderedRing K] in
theorem lowState_zero (f : K → K) (lo hi v : K) : lowState f lo hi v 0 = startWith f lo hi v := by
  rw [lowState, lowPoint_zero, Nat.zero_sub, pow_zero, mul_one]
  rfl

theorem lowPoint_succ (lo hi : K) (k : ℕ) :
    lowPoint lo hi (k + 1) = decimal 5 1 * (lowPoint lo hi k + hi) := by
  rw [lowPoint, lowPoint, pow_succ, decimal_five_one]
  ring

theorem lowPoint_lt (hlt : lo < hi) (k : ℕ) : lowPoint lo hi k < hi :=
  sub_lt_self _ (mul_pos (sub_pos.2 hlt) (pow_pos (decimal_pos (by decide) 1) k))

omit [LinearOrder K] [IsStrictOrderedRing K] in
/-- The secant point, as seen from the upper end. -/
theorem secant_eq (hd : s.fHigh - s.fLow ≠ 0) :
    s.xLow - s.fLow * (s.xHigh - s.xLow) / (s.fHigh - s.fLow) =
      s.xHigh - s.fHigh * (s.xHigh - s.xLow) / (s.fHigh - s.fLow) := by
  field_simp
  ring

theorem slope_term_neg {u w d : K} (hw : 0 < w) (h : u * d < 0) : u * w / d < 0 := by
  rw [mul_div_right_comm]
  exact mul_neg_of_neg_of_pos (div_neg_iff.2 (mul_neg_iff.1 h)) hw

theorem slope_term_pos {u w d : K} (hw : 0 < w) (h : 0 < u * d) : 0 < u * w / d := by
  rw [mul_div_right_comm]
  exact mul_pos (div_pos_iff.2 (mul_pos_iff.1 h)) hw

theorem secant_mem (hlt : s.xLow < s.xHigh) (hsign : s.fLow * s.fHigh < 0) :
    s.fHigh - s.fLow ≠ 0 ∧
      s.xLow < s.xLow - s.fLow * (s.xHigh - s.xLow) / (s.fHigh - s.fLow) ∧
      s.xLow - s.fLow * (s.xHigh - s.xLow) / (s.fHigh - s.fLow) < s.xHigh := by
  have hw : 0 < s.xHigh - s.xLow := sub_pos.2 hlt
  have hlow : s.fLow * (s.fHigh - s.fLow) < 0 := by linarith [mul_self_nonneg s.fLow]
  have hhigh : 0 < s.fHigh * (s.fHigh - s.fLow) := by linarith [mul_self_nonneg s.fHigh]
  have hd : s.fHigh - s.fLow ≠ 0 := right_ne_zero_of_mul hlow.ne
  refine ⟨hd, ?_, ?_⟩
  · linarith [slope_term_neg hw hlow]
  · rw [secant_eq hd]
    linarith [slope_term_pos hw hhigh]

/-- So is the new point. -/
theorem newPoint_strict (tiny : K) (hlt : s.xLow < s.xHigh) (hsign : s.fLow * s.fHigh < 0) :
    s.xLow < newPoint tiny s ∧ newPoint tiny s < s.xHigh := by
  obtain ⟨-, hlow, hhigh⟩ := secant_mem hlt hsign
  rw [newPoint]
  split
  · rw [decimal_five_one]
    exact ⟨lt_half_sum hlt, half_sum_lt hlt⟩
  · rw [min_eq_right hhigh.le, max_eq_right hlow.le]
    exact ⟨hlow, hhigh⟩

theorem newPoint_eq_mid (htiny : 0 < tiny) (hle : s.xLow ≤ s.xHigh)
    (h : |s.fHigh - s.fLow| < tiny ∨ s.fLow = -s.fHigh) :
    newPoint tiny s = decimal 5 1 * (s.xLow + s.xHigh) := by
  rw [newPoint]
  split
  · rfl
  · next hnot =>
    have hopp := h.resolve_left hnot
    have hne : s.fHigh ≠ 0 := fun h0 => hnot (by
      rw [hopp, h0, neg_zero, sub_zero, abs_zero]
      exact htiny)
    have hpoint : s.xLow - s.fLow * (s.xHigh - s.xLow) / (s.fHigh - s.fLow) =
        1 / 2 * (s.xLow + s.xHigh) := by
      rw [hopp]
      field_simp
      ring
    rw [hpoint, decimal_five_one, min_eq_right (half_sum_le hle), max_eq_right (le_half_sum hle)]

/-- And nowhere else. -/
theorem opposite_of_newPoint (hlt : s.xLow < s.xHigh) (hsign : s.fLow * s.fHigh < 0)
    (h : newPoint tiny s = decimal 5 1 * (s.xLow + s.xHigh)) :
    |s.fHigh - s.fLow| < tiny ∨ s.fLow = -s.fHigh := by
  obtain ⟨hd, hlow, hhigh⟩ := secant_mem hlt hsign
  rw [or_iff_not_imp_left]
  intro hnot
  have hw : s.xHigh - s.xLow ≠ 0 := (sub_pos.2 hlt).ne'
  rw [newPoint, if_neg hnot, min_eq_right hhigh.le, max_eq_right hlow.le, decimal_five_one] at h
  have hratio : s.fLow * (s.xHigh - s.xLow) / (s.fHigh - s.fLow) =
      -(1 / 2) * (s.xHigh - s.xLow) := by linarith
  rw [div_eq_iff hd, mul_right_comm] at hratio
  have hhalf := mul_right_cancel₀ hw hratio
  linarith

/-- With stored values of the same sign the new point is one of the ends, but for values that are
too near to each other. -/
theorem newPoint_eq_end (hlt : s.xLow < s.xHigh) (hsign : 0 < s.fLow * s.fHigh)
    (htiny : 0 < tiny) (hnot : ¬ |s.fHigh - s.fLow| < tiny) :
    newPoint tiny s = s.xLow ∨ newPoint tiny s = s.xHigh := by
  have hw : 0 < s.xHigh - s.xLow := sub_pos.2 hlt
  have hd : s.fHigh - s.fLow ≠ 0 := fun h0 => hnot (by rwa [h0, abs_zero])
  rw [newPoint, if_neg hnot]
  rcases lt_or_gt_of_ne (mul_ne_zero (left_ne_zero_of_mul hsign.ne') hd) with hneg | hpos
  · right
    rw [mul_comm] at hneg
    have hhigh : s.fHigh * (s.fHigh - s.fLow) < 0 := by
      rw [mul_comm]
      exact (mul_neg_iff_of_same_sign hsign).1 hneg
    rw [secant_eq hd]
    rw [min_eq_left (by linarith [slope_term_neg hw hhigh]), max_eq_right hlt.le]
  · left
    exact max_eq_left ((min_le_right _ _).trans (by linarith [slope_term_pos hw hpos]))

end Points

section Order

variable {v : K} {k : ℕ} {q : SecParams K}

theorem newPoint_of_bisects (htiny : 0 < tiny) (hlt : lo < hi) (h : Bisects tiny f lo hi k)
    (hv : v = f hi ∨ v = f lo) : newPoint tiny (lowState f lo hi v k) = lowPoint lo hi (k + 1) := by
  rw [lowPoint_succ]
  refine newPoint_eq_mid htiny (lowPoint_lt hlt k).le ?_
  rcases hv with rfl | rfl
  · exact h.2
  · exact .inl h.1

omit [IsStrictOrderedRing K] in
/-- **A round that bisects.** The stored value is still there only if the lower end is moved. -/
theorem round_lowState (hwide : p.tol * (1 + |lowPoint lo hi k|) ≤ hi - lowPoint lo hi k)
    (hpoint : newPoint tiny (lowState f lo hi v k) = lowPoint lo hi (k + 1)) (iter : ℕ) :
    round tiny f p iter (lowState f lo hi v k) =
      if |f (lowPoint lo hi (k + 1))| < p.tolF then
        .exit { lowState f lo hi v k with root := lowPoint lo hi (k + 1), numIter := iter }
      else if f (lowPoint lo hi (k + 1)) * f (lowPoint lo hi k) < 0 then
        .next {
          xLow := lowPoint lo hi k
          xHigh := lowPoint lo hi (k + 1)
          fLow := f (lowPoint lo hi k)
          fHigh := f (lowPoint lo hi (k + 1))
          side := -1 }
      else .next (lowState f lo hi v (k + 1)) := by
  have hside : ¬ (lowState f lo hi v k).side = -1 := by
    rw [lowState]
    dsimp only
    split_ifs <;> decide
  have hhalved : (if (lowState f lo hi v k).side = 1 then
      (lowState f lo hi v k).fHigh * decimal 5 1 else (lowState f lo hi v k).fHigh) =
        (lowState f lo hi v (k + 1)).fHigh := by
    rcases k with - | k
    · rfl
    · exact (if_pos rfl).trans ((mul_assoc _ _ _).trans (congrArg (v * ·) (pow_succ _ k).symm))
  rw [round]
  refine (if_neg hwide.not_gt).trans ?_
  dsimp only
  rw [hpoint, if_neg hside, hhalved]
  rfl

/-- **If both orders bisect, they end in the same way.** By induction on the rounds left. -/
theorem finish_lowState_eq (htiny : 0 < tiny) (hlt : lo < hi)
    (h : ∀ k, Raised f p.tol p.tolF lo hi k → Bisects tiny f lo hi k) (count : ℕ)
    (hraised : p.tol * (1 + |lowPoint lo hi k|) ≤ hi - lowPoint lo hi k →
      Raised f p.tol p.tolF lo hi k) :
    finish p (run (round tiny f p) count iter (lowState f lo hi (f hi) k)) =
      finish p (run (round tiny f p) count iter (lowState f lo hi (f lo) k)) := by
  induction count generalizing k iter with
  | zero => rfl
  | succ count ih =>
    rcases lt_or_ge (hi - lowPoint lo hi k) (p.tol * (1 + |lowPoint lo hi k|)) with hnarrow | hwide
    · rw [run_of_exit (Nat.succ_pos count) (if_pos hnarrow),
        run_of_exit (Nat.succ_pos count) (if_pos hnarrow)]
      rfl
    have hb := h k (hraised hwide)
    have hround := round_lowState hwide (newPoint_of_bisects htiny hlt hb (.inl rfl)) iter
    have hround' := round_lowState hwide (newPoint_of_bisects htiny hlt hb (.inr rfl)) iter
    rcases lt_or_ge |f (lowPoint lo hi (k + 1))| p.tolF with hsmall | hlarge
    · rw [if_pos hsmall] at hround hround'
      rw [run_of_exit (Nat.succ_pos count) hround, run_of_exit (Nat.succ_pos count) hround']
      rfl
    rw [if_neg hlarge.not_gt] at hround hround'
    rcases lt_or_ge (f (lowPoint lo hi (k + 1)) * f (lowPoint lo hi k)) 0 with hneg | hsame
    · rw [if_pos hneg] at hround hround'
      rw [run_of_next hround, run_of_next hround']
    · rw [if_neg hsame.not_gt] at hround hround'
      rw [run_of_next hround, run_of_next hround']
      exact ih (.succ (hraised hwide) hlarge hsame)

/-- As long as they bisect, both orders come to the same points. -/
theorem reaches_lowState (htiny : 0 < tiny) (hlt : lo < hi) (hv : v = f hi ∨ v = f lo)
    (h : Raised f p.tol p.tolF lo hi k) (hb : ∀ i < k, Bisects tiny f lo hi i) :
    Reaches (round tiny f p) 1 (startWith f lo hi v) (k + 1) (lowState f lo hi v k) ∧
      p.tol * (1 + |lowPoint lo hi k|) ≤ hi - lowPoint lo hi k := by
  induction h with
  | zero hwide =>
    rw [lowState_zero]
    exact ⟨.first, hwide⟩
  | @succ k _ hlarge hsame hwide ih =>
    obtain ⟨hreach, hwide'⟩ := ih fun i hi => hb i (Nat.lt_succ_of_lt hi)
    have hpoint := newPoint_of_bisects htiny hlt (hb k (Nat.lt_succ_self k)) hv
    refine ⟨hreach.next ?_, hwide⟩
    rw [round_lowState hwide' hpoint, if_neg hlarge.not_gt, if_neg hsame.not_gt]

omit [IsStrictOrderedRing K] in
/-- What is returned after the last round: its point, or the middle of it and one of the ends. -/
theorem finish_round (tiny : K) (f : K → K) (q : SecParams K) (iter : ℕ)
    (hwide : p.tol * (1 + |s.xLow|) ≤ s.xHigh - s.xLow) :
    finish q (round tiny f p iter s) = ⟨newPoint tiny s, .success, iter⟩ ∨
      ∃ e, (e = s.xLow ∨ e = s.xHigh) ∧ finish q (round tiny f p iter s) =
        ⟨decimal 5 1 * (e + newPoint tiny s), .maxIter, q.maxIter⟩ := by
  have hend := ended_round tiny f p iter s
  generalize round tiny f p iter s = r at hend
  cases hend with
  | narrow h => exact absurd h hwide.not_gt
  | found => exact .inl rfl
  | upper => exact .inr ⟨s.xLow, .inl rfl, rfl⟩
  | lower =>
    refine .inr ⟨s.xHigh, .inr rfl, ?_⟩
    rw [add_comm]
    rfl

/-- **Two points.** If the last round ends in the same way, it has come to the same point. -/
theorem newPoint_eq_of_finish (hwide : p.tol * (1 + |s.xLow|) ≤ s.xHigh - s.xLow)
    (hstrict : s.xLow < newPoint tiny s ∧ newPoint tiny s < s.xHigh) (hlow : t.xLow = s.xLow)
    (hhigh : t.xHigh = s.xHigh)
    (h : finish q (round tiny f p iter s) = finish q (round tiny f p iter t)) :
    newPoint tiny s = newPoint tiny t := by
  have hlt := hstrict.1.trans hstrict.2
  have hle : t.xLow ≤ t.xHigh := by
    rw [hlow, hhigh]
    exact hlt.le
  obtain ⟨hlow', hhigh'⟩ := newPoint_mem tiny hle
  have hend := finish_round tiny f q iter hwide
  have hend' := finish_round (s := t) (p := p) tiny f q iter (by rwa [hlow, hhigh])
  rw [hlow] at hlow'
  rw [hhigh] at hhigh'
  rcases hend with heq | ⟨e, he, heq⟩ <;> rcases hend' with heq' | ⟨e', he', heq'⟩ <;>
    rw [heq, heq'] at h
  · exact congrArg SecResult.root h
  · cases congrArg SecResult.status h
  · cases congrArg SecResult.status h
  · have hsum : e + newPoint tiny s = e' + newPoint tiny t :=
      mul_left_cancel₀ (decimal_pos (by decide) 1).ne' (congrArg SecResult.root h)
    rw [hlow, hhigh] at he'
    -- the points would be as far from each other as the ends
    rcases he with rfl | rfl <;> rcases he' with rfl | rfl
    · exact add_left_cancel hsum
    · linarith [hstrict.2]
    · linarith [hstrict.1]
    · exact add_left_cancel hsum

theorem Raised.sign (htol : 0 < p.tolF) (h : Raised f p.tol p.tolF lo hi k) (hlo : f lo ≠ 0) :
    0 < f (lowPoint lo hi k) * f lo := by
  induction h with
  | zero =>
    rw [lowPoint_zero]
    exact mul_self_pos.2 hlo
  | @succ k _ hlarge hsame _ ih =>
    have hne : f (lowPoint lo hi (k + 1)) ≠ 0 := abs_pos.1 (htol.trans_le hlarge)
    have hle : 0 ≤ f (lowPoint lo hi (k + 1)) * f lo :=
      not_lt.1 fun hneg => hsame.not_gt ((mul_neg_iff_of_same_sign ih).2 hneg)
    exact lt_of_le_of_ne hle (mul_ne_zero hne hlo).symm

/-- **If both orders end in the same way after a round, it bisects** as those before it. -/
theorem bisects_of_finish_eq (htiny : 0 < tiny) (htol : 0 < p.tolF) (hlt : lo < hi)
    (hsign : f lo * f hi < 0)
    (hlast : finish q (run (round tiny f p) (k + 1) 1 (startWith f lo hi (f hi))) =
      finish q (run (round tiny f p) (k + 1) 1 (startWith f lo hi (f lo))))
    (hraised : Raised f p.tol p.tolF lo hi k) (hb : ∀ i < k, Bisects tiny f lo hi i) :
    Bisects tiny f lo hi k := by
  obtain ⟨hreach, hwide⟩ := reaches_lowState htiny hlt (.inl rfl) hraised hb
  obtain ⟨hreach', -⟩ := reaches_lowState htiny hlt (.inr rfl) hraised hb
  rw [show k + 1 = k + 1 - 1 + 1 from rfl, hreach.run_eq, hreach'.run_eq, run_one, run_one] at hlast
  have hpos : (0 : K) < decimal 5 1 ^ (k - 1) := pow_pos (decimal_pos (by decide) 1) _
  have hlow := hraised.sign htol (left_ne_zero_of_mul hsign.ne)
  have hopp : f (lowPoint lo hi k) * (f hi * decimal 5 1 ^ (k - 1)) < 0 := by
    rw [← mul_assoc]
    refine mul_neg_of_neg_of_pos ?_ hpos
    rw [mul_comm]
    rw [mul_comm] at hsign
    exact (mul_neg_iff_of_same_sign (mul_comm (f lo) _ ▸ hlow)).1 hsign
  have hsame : 0 < f (lowPoint lo hi k) * (f lo * decimal 5 1 ^ (k - 1)) := by
    rw [← mul_assoc]
    exact mul_pos hlow hpos
  have hinside : (lowState f lo hi (f hi) k).xLow < (lowState f lo hi (f hi) k).xHigh :=
    lowPoint_lt hlt k
  have hstrict := newPoint_strict tiny hinside hopp
  have hpoint := newPoint_eq_of_finish (t := lowState f lo hi (f lo) k) hwide hstrict rfl rfl hlast
  have hnear : |(lowState f lo hi (f lo) k).fHigh - (lowState f lo hi (f lo) k).fLow| < tiny := by
    by_contra hnot
    have hends := newPoint_eq_end (s := lowState f lo hi (f lo) k) (lowPoint_lt hlt k) hsame htiny
    rcases hends hnot with hend | hend
    · exact hstrict.1.ne' (hpoint.trans hend)
    · exact hstrict.2.ne (hpoint.trans hend)
  have hmid := newPoint_eq_mid (s := lowState f lo hi (f lo) k) htiny (lowPoint_lt hlt k).le
    (.inl hnear)
  exact ⟨hnear, opposite_of_newPoint hinside hopp (hpoint.trans hmid)⟩

theorem bisects_of_forall_finish_eq {q : ℕ → SecParams K} (htiny : 0 < tiny) (htol : 0 < p.tolF)
    (hlt : lo < hi) (hsign : f lo * f hi < 0)
    (hlast : ∀ k, finish (q k) (run (round tiny f p) (k + 1) 1 (startWith f lo hi (f hi))) =
      finish (q k) (run (round tiny f p) (k + 1) 1 (startWith f lo hi (f lo))))
    (h : Raised f p.tol p.tolF lo hi k) : ∀ i ≤ k, Bisects tiny f lo hi i := by
  induction h with
  | zero hwide =>
    intro i hi
    rw [Nat.le_zero.1 hi]
    exact bisects_of_finish_eq htiny htol hlt hsign (hlast 0) (.zero hwide) nofun
  | succ h hbig hsame hwide ih =>
    intro i hi
    rcases Nat.le_succ_iff.1 hi with hle | rfl
    · exact ih i hle
    · exact bisects_of_finish_eq htiny htol hlt hsign (hlast _) (.succ h hbig hsame hwide)
        fun i hi => ih i (Nat.le_of_lt_succ hi)

end Order

omit [IsStrictOrderedRing K] in
theorem rejects_comm : Rejects huge f a b ↔ Rejects huge f b a := by
  simp only [Rejects, mul_comm (f a), or_assoc, or_left_comm, or_comm]

omit [IsStrictOrderedRing K] in
theorem solve_eq_iff (hne : a ≠ b) (hvalid : ¬ Rejects huge f a b) :
    solve huge tiny f p a b = solve huge tiny f p b a ↔
      solveFrom tiny f p (startWith f (min a b) (max a b) (f (max a b))) =
        solveFrom tiny f p (startWith f (min a b) (max a b) (f (min a b))) := by
  rw [solve, solve, if_neg hvalid, if_neg (mt rejects_comm.2 hvalid), start_eq, start_eq,
    min_comm b a, max_comm b a]
  rcases lt_or_gt_of_ne hne with h | h
  · rw [min_eq_left h.le, max_eq_right h.le]
  · rw [min_eq_right h.le, max_eq_left h.le]
    exact eq_comm

omit [IsStrictOrderedRing K] in
theorem solveFrom_of_large {v : K} (hlow : p.tolF ≤ |f lo|) (hv : p.tolF ≤ |v|) :
    solveFrom tiny f p (startWith f lo hi v) =
      finish p (run (round tiny f p) p.maxIter.toNat 1 (startWith f lo hi v)) :=
  (if_neg hlow.not_gt).trans (if_neg hv.not_gt)

/-- **The order of the ends** makes no difference with any limit for the rounds exactly if
`OrderFree`. -/
theorem secant_order (huge : K) (htiny : 0 < tiny) (f : K → K) (p : SecParams K) (a b : K) :
    (OrderFree huge tiny f p a b → ∀ m, solve huge tiny f { p with maxIter := m } a b =
      solve huge tiny f { p with maxIter := m } b a) ∧
    (0 < p.tolF → (∀ m, solve huge tiny f { p with maxIter := m } a b =
      solve huge tiny f { p with maxIter := m } b a) → OrderFree huge tiny f p a b) := by
  by_cases hab : a = b
  · subst hab
    exact ⟨fun _ _ => rfl, fun _ _ => .inl rfl⟩
  by_cases hvalid : Rejects huge f a b
  · refine ⟨fun _ m => ?_, fun _ _ => .inr (.inl hvalid)⟩
    rw [solve, solve, if_pos hvalid, if_pos (rejects_comm.1 hvalid), add_comm]
  simp only [solve_eq_iff hab hvalid]
  have hlt : min a b < max a b := min_lt_max.2 hab
  have hnonpos := nonpos_of_not_rejects hvalid
  rw [OrderFree, or_iff_right hab, or_iff_right hvalid]
  generalize min a b = lo at *
  generalize max a b = hi at *
  rcases lt_or_ge |f lo| p.tolF with hsmall | hlarge
  · -- both stop at the lower end
    refine ⟨fun _ m => ?_, fun _ _ => .inl hsmall⟩
    exact (if_pos hsmall).trans (if_pos hsmall).symm
  rw [or_iff_right hlarge.not_gt]
  have hrun : ∀ (m : ℤ) {v : K}, p.tolF ≤ |v| →
      solveFrom tiny f { p with maxIter := m } (startWith f lo hi v) =
        finish { p with maxIter := m } (run (round tiny f p) m.toNat 1 (startWith f lo hi v)) :=
    fun m _ hv => solveFrom_of_large (p := { p with maxIter := m }) hlarge hv
  rcases lt_or_ge |f hi| p.tolF with hsmall | hlarge'
  · -- only one of them stops at the upper end
    refine ⟨fun h => absurd hsmall h.1.not_gt, fun _ h => ?_⟩
    have hstop : solveFrom tiny f { p with maxIter := 0 } (startWith f lo hi (f hi)) =
        ⟨hi, .success, 0⟩ := (if_neg hlarge.not_gt).trans (if_pos hsmall)
    have heq := h 0
    rw [hstop, hrun 0 hlarge] at heq
    cases congrArg SecResult.status heq
  rw [and_iff_right hlarge']
  refine ⟨fun h m => ?_, fun htol h k hk => ?_⟩
  · rw [hrun m hlarge', hrun m hlarge, ← lowState_zero, ← lowState_zero]
    exact finish_lowState_eq (p := { p with maxIter := m }) htiny hlt h _ .zero
  · have hsign : f lo * f hi < 0 := lt_of_le_of_ne hnonpos (mul_ne_zero
      (abs_pos.1 (htol.trans_le hlarge)) (abs_pos.1 (htol.trans_le hlarge')))
    have hlast : ∀ k, finish { p with maxIter := (k + 1 : ℕ) }
        (run (round tiny f p) (k + 1) 1 (startWith f lo hi (f hi))) =
          finish { p with maxIter := (k + 1 : ℕ) }
            (run (round tiny f p) (k + 1) 1 (startWith f lo hi (f lo))) := fun k => by
      have heq := h (k + 1 : ℕ)
      rw [hrun _ hlarge', hrun _ hlarge] at heq
      exact heq
    exact bisects_of_forall_finish_eq htiny htol hlt hsign hlast hk k le_rfl

/-- A step from minus one to one, between these numbers. -/
def stepFunction (x : ℚ) : ℚ := if x ≤ 0 then -1 else 1

/-- Both orders bisect twice, and then move the upper end. -/
theorem secant_order_step :
    solve 100 (decimal 1 9) stepFunction coarse (-1) 1 = ⟨1 / 24, .success, 5⟩ ∧
      solve 100 (decimal 1 9) stepFunction coarse (-1) 1 =
        solve 100 (decimal 1 9) stepFunction coarse 1 (-1) := by
  refine ⟨by with_unfolding_all decide, ?_⟩
  refine (secant_order 100 (decimal_pos (by decide) 9) stepFunction coarse (-1) 1).1 ?_ 10
  have htwo : ∀ k, Raised stepFunction coarse.tol coarse.tolF (min (-1) 1) (max (-1) 1) k →
      k < 2 := by
    intro k hk
    induction hk with
    | zero => decide
    | @succ k _ _ hsame _ ih =>
      obtain rfl | rfl : k = 0 ∨ k = 1 := by omega
      · decide
      · exact absurd hsame (by with_unfolding_all decide)
  refine .inr (.inr (.inr ⟨by with_unfolding_all decide, fun k hk => ?_⟩))
  obtain rfl | rfl : k = 0 ∨ k = 1 := by
    have hlt := htwo k hk
    omega
  · exact ⟨by with_unfolding_all decide, .inr (by with_unfolding_all decide)⟩
  · exact ⟨by with_unfolding_all decide, .inr (by with_unfolding_all decide)⟩

/-- The identity between minus one and two. Both orders find the root, in one round and in two. -/
theorem secant_order_matters :
    solve 100 (decimal 1 9) (fun x => x) coarse (-1) 2 = ⟨0, .success, 1⟩ ∧
      solve 100 (decimal 1 9) (fun x => x) coarse 2 (-1) = ⟨0, .success, 2⟩ := by
  constructor
  · with_unfolding_all decide
  · with_unfolding_all decide

end SecantBracket

end DistributedComputing
