import DistributedComputing.Foundations.BoundedLoops
import DistributedComputing.Foundations.Brackets
import DistributedComputing.Fortran.NumericUtils

/-!
# The Newton method in a bracket

A model of `newton_raphson_solve_bracket`, over an ordered field in place of `real(wp)`. The
function and what is passed as its derivative are arbitrary; the largest and the smallest number are
parameters.

Every round replaces an end of the bracket by the new point, which is a Newton step that stays in
the bracket, or the midpoint. It takes the lower end unless the signs are opposite, and so also if
the lower end is a root. The root is then left behind, and from there on the lower end moves towards
the upper end as long as the signs at the two agree (`LeftBehind`). `Kept` is what the rounds keep
otherwise: a bracket with a change of sign.

`LosesRoot` says when the method can report a root that is not enclosed, and `newton_encloses` that
these are all the cases.
-/

namespace DistributedComputing

open BoundedLoop Brackets

/-- The status codes. -/
inductive NrStatus
  | success
  | maxIter
  | diverged
  | zeroDerivative
  | invalidInput
  deriving DecidableEq, Repr

/-- `newton_raphson_params_t`, less what only `newton_raphson_solve` reads. -/
structure NrParams (K : Type) [Field K] where
  tol : K := decimal 1 10
  tolF : K := decimal 1 10
  maxIter : ℤ := 100

/-- The variables of the loop. -/
structure NrState (K : Type) where
  x : K
  xLow : K
  xHigh : K
  numIter : ℤ := 0
  deriving DecidableEq, Repr

/-- What is returned, with the bracket in which the loop ended. -/
structure NrResult (K : Type) where
  root : K
  status : NrStatus
  numIter : ℤ
  bracket : Option (K × K) := none
  deriving DecidableEq, Repr

namespace NewtonBracket

variable {K : Type} [Field K] [LinearOrder K]

section Solve

variable (huge tiny : K) (f df : K → K) (p : NrParams K)

/-- `x_new`: the Newton step, if it stays in the bracket, and otherwise the midpoint. -/
def newPoint (s : NrState K) : K :=
  let xNew := s.x + -f s.x / df s.x
  if tiny < |df s.x| ∧ ¬ (xNew < s.xLow ∨ s.xHigh < xNew) then xNew
  else decimal 5 1 * (s.xLow + s.xHigh)

/-- A round of the loop. -/
def round (iter : ℕ) (s : NrState K) : Round (NrState K) :=
  if |f s.x| < p.tolF ∨ s.xHigh - s.xLow < p.tol * (1 + |s.x|) then .exit { s with numIter := iter }
  else
    let xNew := newPoint tiny f df s
    if f xNew * f s.xLow < 0 then .next { s with x := xNew, xHigh := xNew }
    else .next { s with x := xNew, xLow := xNew }

/-- The inputs that are refused. -/
def Rejects (a b : K) : Prop :=
  (¬ isFinite huge a ∨ ¬ isFinite huge b ∨ ¬ isFinite huge (f a) ∨ ¬ isFinite huge (f b)) ∨
    0 < f a * f b

instance (a b : K) : Decidable (Rejects huge f a b) := inferInstanceAs (Decidable (_ ∨ _))

/-- The variables before the first round. -/
def start (a b : K) : NrState K :=
  let ends := if a < b then (a, b) else (b, a)
  { x := decimal 5 1 * (ends.1 + ends.2), xLow := ends.1, xHigh := ends.2 }

/-- `newton_raphson_solve_bracket`. -/
def solve (a b : K) : NrResult K :=
  if Rejects huge f a b then ⟨decimal 5 1 * (a + b), .invalidInput, 0, none⟩
  else
    match run (round tiny f df p) p.maxIter.toNat 1 (start a b) with
    | .exit s => ⟨s.x, .success, s.numIter, some (s.xLow, s.xHigh)⟩
    | .next s => ⟨s.x, .maxIter, p.maxIter, some (s.xLow, s.xHigh)⟩

end Solve

/-- **What a success has to mean**: a root in the range, with a small value or in a narrow bracket
at whose ends the function does not have the same sign. -/
def Encloses (f : K → K) (p : NrParams K) (a b : K) (r : NrResult K) : Prop :=
  min a b ≤ r.root ∧ r.root ≤ max a b ∧
    (|f r.root| < p.tolF ∨ ∃ xLow xHigh, r.bracket = some (xLow, xHigh) ∧
      xLow ≤ r.root ∧ r.root ≤ xHigh ∧ xHigh - xLow < p.tol * (1 + |r.root|) ∧
      f xLow * f xHigh ≤ 0)

theorem start_eq (a b : K) :
    start a b = { x := decimal 5 1 * (min a b + max a b), xLow := min a b, xHigh := max a b } := by
  rw [start]
  rcases lt_or_ge a b with h | h
  · rw [if_pos h, min_eq_left h.le, max_eq_right h.le]
  · rw [if_neg h.not_gt, min_eq_right h, max_eq_left h]

theorem nonpos_of_not_rejects {huge a b : K} {f : K → K} (h : ¬ Rejects huge f a b) :
    f (min a b) * f (max a b) ≤ 0 := by
  have hprod : f a * f b ≤ 0 := not_lt.1 fun hpos => h (.inr hpos)
  rcases le_total a b with hab | hab
  · rwa [min_eq_left hab, max_eq_right hab]
  · rw [min_eq_right hab, max_eq_left hab, mul_comm]
    exact hprod

/-! ### The rounds -/

/-- The test at the beginning of a round: a small value, or a narrow bracket. -/
def Done (f : K → K) (p : NrParams K) (s : NrState K) : Prop :=
  |f s.x| < p.tolF ∨ s.xHigh - s.xLow < p.tol * (1 + |s.x|)

/-- **A round** leaves the loop at the test, or goes on from the new point. -/
theorem round_cases (tiny : K) (f df : K → K) (p : NrParams K) (iter : ℕ) (s : NrState K) :
    (Done f p s ∧ round tiny f df p iter s = .exit { s with numIter := iter }) ∨
      (¬ Done f p s ∧ f (newPoint tiny f df s) * f s.xLow < 0 ∧
        round tiny f df p iter s =
          .next { s with x := newPoint tiny f df s, xHigh := newPoint tiny f df s }) ∨
      (¬ Done f p s ∧ 0 ≤ f (newPoint tiny f df s) * f s.xLow ∧
        round tiny f df p iter s =
          .next { s with x := newPoint tiny f df s, xLow := newPoint tiny f df s }) := by
  rw [round]
  by_cases hdone : Done f p s
  · exact .inl ⟨hdone, if_pos hdone⟩
  · rcases lt_or_ge (f (newPoint tiny f df s) * f s.xLow) 0 with hneg | hpos
    · exact .inr (.inl ⟨hdone, hneg, (if_neg hdone).trans (if_pos hneg)⟩)
    · exact .inr (.inr ⟨hdone, hpos, (if_neg hdone).trans (if_neg hpos.not_gt)⟩)

theorem exists_of_success {huge tiny a b : K} {f df : K → K} {p : NrParams K}
    (hstatus : (solve huge tiny f df p a b).status = .success) :
    ¬ Rejects huge f a b ∧ ∃ j s, j < 1 + p.maxIter.toNat ∧
      Reaches (round tiny f df p) 1 (start a b) j s ∧ Done f p s ∧
      (solve huge tiny f df p a b).root = s.x ∧
      (solve huge tiny f df p a b).bracket = some (s.xLow, s.xHigh) := by
  rw [solve] at hstatus ⊢
  split at hstatus
  · cases hstatus
  next hvalid =>
  rw [if_neg hvalid]
  rcases @run_cases _ (round tiny f df p) 1 (start a b) p.maxIter.toNat with
    ⟨t, hrun, -⟩ | ⟨j, s, u, hrun, hj, hreach, hround⟩
  · rw [hrun] at hstatus
    cases hstatus
  · rw [hrun]
    rcases round_cases tiny f df p j s with ⟨hdone, heq⟩ | ⟨-, -, heq⟩ | ⟨-, -, heq⟩
    · obtain rfl := Round.exit.inj (heq.symm.trans hround)
      exact ⟨hvalid, j, s, hj, hreach, hdone, rfl, rfl⟩
    · cases heq.symm.trans hround
    · cases heq.symm.trans hround

variable [IsStrictOrderedRing K]

/-- What the rounds keep. Where the lower end is a root, the upper end is one as well, or the next
round will find the point to be one. -/
structure Kept (f : K → K) (lo hi : K) (s : NrState K) : Prop where
  bracket : Bracket f lo hi s.xLow s.xHigh
  low_le : s.xLow ≤ s.x
  le_high : s.x ≤ s.xHigh
  root : f s.xLow = 0 → f s.xHigh = 0 ∨ f s.x = 0

variable {huge tiny a b lo hi : K} {f df : K → K} {p : NrParams K} {s t : NrState K} {iter : ℕ}

/-- The new point is in the bracket. -/
theorem newPoint_mem (tiny : K) (f df : K → K) {s : NrState K} (h : s.xLow ≤ s.xHigh) :
    s.xLow ≤ newPoint tiny f df s ∧ newPoint tiny f df s ≤ s.xHigh := by
  rw [newPoint]
  split
  · next hstep =>
    obtain ⟨hlow, hhigh⟩ := not_or.1 hstep.2
    exact ⟨not_lt.1 hlow, not_lt.1 hhigh⟩
  · rw [decimal_five_one]
    exact ⟨le_half_sum h, half_sum_le h⟩

theorem kept_of_next (htol : 0 < p.tolF) (h : Kept f lo hi s)
    (hround : round tiny f df p iter s = .next t) : Kept f lo hi t := by
  obtain ⟨hlow, hhigh⟩ := newPoint_mem tiny f df h.bracket.le
  rcases round_cases tiny f df p iter s with ⟨-, heq⟩ | ⟨-, hneg, heq⟩ | ⟨hgo, hpos, heq⟩
  · cases heq.symm.trans hround
  · obtain rfl := Round.next.inj (heq.symm.trans hround)
    refine ⟨h.bracket.upper hlow hhigh hneg, hlow, le_rfl, fun hroot => ?_⟩
    rw [show f s.xLow = 0 from hroot, mul_zero] at hneg
    exact absurd hneg (lt_irrefl 0)
  · obtain rfl := Round.next.inj (heq.symm.trans hround)
    refine ⟨?_, le_rfl, hhigh, fun hroot => .inr hroot⟩
    by_cases hroot : f s.xLow = 0
    · rcases h.root hroot with hhigh0 | hx0
      · exact h.bracket.lower_of_root hlow hhigh hhigh0
      · -- the round would have ended the loop
        refine absurd (.inl ?_) hgo
        rw [hx0, abs_zero]
        exact htol
    · exact h.bracket.lower hlow hhigh hroot hpos

/-- The beginning is kept, if a root at the lower end is not the only one that is known. -/
theorem kept_start (hvalid : ¬ Rejects huge f a b)
    (hends : f (min a b) = 0 → f (max a b) = 0 ∨ f (decimal 5 1 * (min a b + max a b)) = 0) :
    Kept f (min a b) (max a b) (start a b) := by
  rw [start_eq]
  refine ⟨⟨le_rfl, min_le_max, le_rfl, nonpos_of_not_rejects hvalid⟩, ?_, ?_, hends⟩
  · show min a b ≤ decimal 5 1 * (min a b + max a b)
    rw [decimal_five_one]
    exact le_half_sum min_le_max
  · show decimal 5 1 * (min a b + max a b) ≤ max a b
    rw [decimal_five_one]
    exact half_sum_le min_le_max

omit [IsStrictOrderedRing K] in
theorem encloses_of_bracket {r : NrResult K} (h : Bracket f (min a b) (max a b) s.xLow s.xHigh)
    (hlow : s.xLow ≤ s.x) (hhigh : s.x ≤ s.xHigh) (hdone : Done f p s) (hroot : r.root = s.x)
    (hbracket : r.bracket = some (s.xLow, s.xHigh)) : Encloses f p a b r := by
  rw [Encloses, hroot, hbracket]
  exact ⟨h.lo_le.trans hlow, hhigh.trans h.le_hi, hdone.imp_right fun hwidth =>
    ⟨s.xLow, s.xHigh, rfl, hlow, hhigh, hwidth, h.nonpos⟩⟩

/-! ### A root that is left behind -/

/-- The lower end has been moved away from the root: it is the last point, and the upper end is
still that of the beginning. -/
structure LeftBehind (lo hi : K) (s : NrState K) : Prop where
  low : s.xLow = s.x
  high : s.xHigh = hi
  lo_le : lo ≤ s.x
  le_hi : s.x ≤ hi

/-- **The first round leaves a root at the lower end behind**, and the others go on with it, until
one of them finds a change of sign. -/
theorem leftBehind_or_kept (htol : 0 < p.tolF) (hroot : f (min a b) = 0)
    (h : Reaches (round tiny f df p) 1 (start a b) iter s) :
    s = start a b ∨ LeftBehind (min a b) (max a b) s ∨ Kept f (min a b) (max a b) s := by
  refine Reaches.invariant (I := fun _ s => s = start a b ∨
    LeftBehind (min a b) (max a b) s ∨ Kept f (min a b) (max a b) s) (.inl rfl) ?_ h
  intro j s t hs hround
  refine .inr ?_
  rcases hs with rfl | hs | hs
  · rcases round_cases tiny f df p j (start a b) with ⟨-, heq⟩ | ⟨-, hneg, -⟩ | ⟨-, -, heq⟩
    · cases heq.symm.trans hround
    · rw [start_eq, show f (min a b) = 0 from hroot, mul_zero] at hneg
      exact absurd hneg (lt_irrefl 0)
    · obtain rfl := Round.next.inj (heq.symm.trans hround)
      have hle : (start a b).xLow ≤ (start a b).xHigh := by
        rw [start_eq]
        exact min_le_max
      obtain ⟨hlow, hhigh⟩ := newPoint_mem tiny f df hle
      refine .inl ⟨rfl, ?_, ?_, ?_⟩
      · rw [start_eq]
      · exact (congrArg NrState.xLow (start_eq a b)).ge.trans hlow
      · exact hhigh.trans (congrArg NrState.xHigh (start_eq a b)).le
  · obtain ⟨hlow, hhigh⟩ := newPoint_mem tiny f df (hs.low.trans_le (hs.high ▸ hs.le_hi))
    have hlo : min a b ≤ s.xLow := hs.low ▸ hs.lo_le
    rcases round_cases tiny f df p j s with ⟨-, heq⟩ | ⟨-, hneg, heq⟩ | ⟨-, -, heq⟩
    · cases heq.symm.trans hround
    · obtain rfl := Round.next.inj (heq.symm.trans hround)
      refine .inr ⟨⟨hlo, hlow, hhigh.trans hs.high.le, ?_⟩, hlow, le_rfl, fun h0 => ?_⟩
      · exact (mul_comm _ _).trans_le hneg.le
      · rw [show f s.xLow = 0 from h0, mul_zero] at hneg
        exact absurd hneg (lt_irrefl 0)
    · obtain rfl := Round.next.inj (heq.symm.trans hround)
      exact .inl ⟨rfl, hs.high, hlo.trans hlow, hhigh.trans hs.high.le⟩
  · exact .inr (kept_of_next htol hs hround)

/-- **How a root can be lost.** The lower end is a root; the first round goes on and is not the
last; and there is a point so near to the upper end that the bracket between them is narrow, with a
value that is not small and has the sign of the value there. -/
structure LosesRoot (huge : K) (f : K → K) (p : NrParams K) (a b : K) : Prop where
  valid : ¬ Rejects huge f a b
  root : f (min a b) = 0
  rounds : 2 ≤ p.maxIter
  mid : p.tolF ≤ |f (decimal 5 1 * (min a b + max a b))|
  wide : p.tol * (1 + |decimal 5 1 * (min a b + max a b)|) ≤ max a b - min a b
  drift : ∃ y, min a b ≤ y ∧ y ≤ max a b ∧ p.tolF ≤ |f y| ∧ 0 < f y * f (max a b) ∧
    max a b - y < p.tol * (1 + |y|)

/-- **A success that encloses nothing** has lost a root. -/
theorem losesRoot_of_not_encloses (htol : 0 < p.tolF)
    (hstatus : (solve huge tiny f df p a b).status = .success)
    (hnot : ¬ Encloses f p a b (solve huge tiny f df p a b)) : LosesRoot huge f p a b := by
  obtain ⟨hvalid, j, s, hj, hreach, hdone, hroot, hbracket⟩ := exists_of_success hstatus
  have hkept : ¬ Kept f (min a b) (max a b) s := fun h =>
    hnot (encloses_of_bracket h.bracket h.low_le h.le_high hdone hroot hbracket)
  have hends : f (min a b) = 0 := by
    by_contra hne
    exact hkept (Reaches.invariant (I := fun _ => Kept f (min a b) (max a b))
      (kept_start hvalid fun h0 => absurd h0 hne) (fun _ _ _ => kept_of_next htol) hreach)
  have hstart : ¬ Done f p (start a b) := fun hfirst => by
    -- the loop is left in the bracket of the beginning
    obtain ⟨-, rfl⟩ := hreach.eq_first (if_pos hfirst)
    rw [start_eq] at hdone hroot hbracket
    refine hnot (encloses_of_bracket ⟨le_rfl, min_le_max, le_rfl, nonpos_of_not_rejects hvalid⟩
      ?_ ?_ hdone hroot hbracket)
    · rw [decimal_five_one]
      exact le_half_sum min_le_max
    · rw [decimal_five_one]
      exact half_sum_le min_le_max
  have hleft : LeftBehind (min a b) (max a b) s := by
    rcases leftBehind_or_kept htol hends hreach with rfl | h | h
    · exact absurd hdone hstart
    · exact h
    · exact absurd h hkept
  have hlarge : ¬ |f s.x| < p.tolF := fun hsmall => hnot (by
    rw [Encloses, hroot]
    exact ⟨hleft.lo_le, hleft.le_hi, .inl hsmall⟩)
  have hrounds : j ≠ 1 := by
    rintro rfl
    exact hstart (hreach.eq_start ▸ hdone)
  have hsecond := hreach.le
  rw [start_eq] at hstart
  obtain ⟨hmid, hwide⟩ := not_or.1 hstart
  have hnarrow := hdone.resolve_left hlarge
  rw [hleft.low, hleft.high] at hnarrow
  refine ⟨hvalid, hends, by omega, not_lt.1 hmid, not_lt.1 hwide, s.x, hleft.lo_le, hleft.le_hi,
    not_lt.1 hlarge, not_le.1 fun hnonpos => hnot ?_, hnarrow⟩
  have hhigh : s.x ≤ s.xHigh := hleft.le_hi.trans hleft.high.ge
  refine encloses_of_bracket ⟨hleft.low ▸ hleft.lo_le, hleft.low.trans_le hhigh, hleft.high.le, ?_⟩
    hleft.low.le hhigh hdone hroot hbracket
  rwa [hleft.low, hleft.high]

/-! ### A derivative that loses the root -/

omit [IsStrictOrderedRing K] in
/-- The first round replaces the lower end, and the second one finds the bracket narrow. -/
theorem not_encloses_of_newPoint {y : K} (h : LosesRoot huge f p a b)
    (hpoint : newPoint tiny f df (start a b) = y) (hy : p.tolF ≤ |f y|)
    (hsame : 0 < f y * f (max a b)) (hnarrow : max a b - y < p.tol * (1 + |y|)) :
    (solve huge tiny f df p a b).status = .success ∧
      ¬ Encloses f p a b (solve huge tiny f df p a b) := by
  have hfirst : round tiny f df p 1 (start a b) = .next { start a b with x := y, xLow := y } := by
    have hgo : ¬ Done f p (start a b) := by
      rw [start_eq]
      exact not_or.2 ⟨h.mid.not_gt, h.wide.not_gt⟩
    have hsign : ¬ f y * f (start a b).xLow < 0 := by
      rw [start_eq, show f (min a b) = 0 from h.root, mul_zero]
      exact lt_irrefl 0
    rw [round, hpoint]
    exact (if_neg hgo).trans (if_neg hsign)
  have hsecond : round tiny f df p 2 { start a b with x := y, xLow := y } =
      .exit { start a b with x := y, xLow := y, numIter := 2 } := by
    rw [round, start_eq]
    exact if_pos (.inr hnarrow)
  have hrun : run (round tiny f df p) p.maxIter.toNat 1 (start a b) =
      .exit { start a b with x := y, xLow := y, numIter := 2 } :=
    (Reaches.first.next hfirst).run_of_exit hsecond (by have := h.rounds; omega)
  have hsolve : solve huge tiny f df p a b = ⟨y, .success, 2, some (y, max a b)⟩ := by
    rw [solve, if_neg h.valid, hrun, start_eq]
  rw [hsolve]
  refine ⟨rfl, fun h => ?_⟩
  rcases h.2.2 with hsmall | ⟨xLow, xHigh, hbracket, -, -, -, hnonpos⟩
  · exact hsmall.not_ge hy
  · obtain ⟨rfl, rfl⟩ := Prod.mk.inj (Option.some.inj hbracket)
    exact hnonpos.not_gt hsame

/-- **Some derivative leads from the midpoint to any point** of the bracket, unless its threshold is
in the way. -/
theorem exists_newPoint_eq {y : K} (hlow : min a b ≤ y) (hhigh : y ≤ max a b)
    (hmid : f (decimal 5 1 * (min a b + max a b)) ≠ 0)
    (hflat : tiny * (max a b - min a b) < |f (decimal 5 1 * (min a b + max a b))|) :
    ∃ df : K → K, newPoint tiny f df (start a b) = y := by
  have hm : decimal 5 1 * (min a b + max a b) ∈ Set.Icc (min a b) (max a b) := by
    rw [decimal_five_one]
    exact ⟨le_half_sum min_le_max, half_sum_le min_le_max⟩
  simp only [newPoint, start_eq]
  generalize decimal 5 1 * (min a b + max a b) = m at *
  by_cases hym : y = m
  · refine ⟨fun _ => 0, ?_⟩
    rw [div_zero, add_zero, hym, ite_self]
  have hne : y - m ≠ 0 := sub_ne_zero.2 hym
  have hstep : m + -f m / (-f m / (y - m)) = y := by
    rw [div_div_cancel₀ (neg_ne_zero.2 hmid), add_sub_cancel]
  have hslope : tiny < |-f m / (y - m)| := by
    have hdist : |y - m| ≤ max a b - min a b := abs_sub_le_of_le_of_le hlow hhigh hm.1 hm.2
    rw [abs_div, abs_neg, lt_div_iff₀ (abs_pos.2 hne)]
    rcases le_total tiny 0 with hneg | hpos
    · exact (mul_nonpos_of_nonpos_of_nonneg hneg (abs_nonneg _)).trans_lt (abs_pos.2 hmid)
    · exact (mul_le_mul_of_nonneg_left hdist hpos).trans_lt hflat
  refine ⟨fun _ => -f m / (y - m), ?_⟩
  rw [hstep]
  exact if_pos ⟨hslope, not_or.2 ⟨hlow.not_gt, hhigh.not_gt⟩⟩

/-- **The Newton method in a bracket.** Every success means enclosure, whatever is passed as the
derivative, if the method cannot lose a root. Otherwise a success does not mean it for some
derivative, unless the bracket is so wide that the threshold for derivatives keeps Newton steps from
crossing it. -/
theorem newton_encloses (huge tiny : K) (f : K → K) (a b : K) (p : NrParams K)
    (htol : 0 < p.tolF) :
    (¬ LosesRoot huge f p a b → ∀ df, (solve huge tiny f df p a b).status = .success →
      Encloses f p a b (solve huge tiny f df p a b)) ∧
    (tiny * (max a b - min a b) < p.tolF →
      (∀ df, (solve huge tiny f df p a b).status = .success →
        Encloses f p a b (solve huge tiny f df p a b)) → ¬ LosesRoot huge f p a b) := by
  constructor
  · intro h df hstatus
    by_contra hnot
    exact h (losesRoot_of_not_encloses htol hstatus hnot)
  · intro htiny h hloses
    obtain ⟨y, hlow, hhigh, hlarge, hsame, hnarrow⟩ := hloses.drift
    obtain ⟨df, hpoint⟩ := exists_newPoint_eq hlow hhigh
      (abs_pos.1 (htol.trans_le hloses.mid)) (htiny.trans_le hloses.mid)
    obtain ⟨hstatus, hnot⟩ := not_encloses_of_newPoint hloses hpoint hlarge hsame hnarrow
    exact hnot (h df hstatus)

/-- The parameters of the two runs below. -/
def coarse : NrParams ℚ := { tol := decimal 25 2, maxIter := 10 }

/-- The square root of two, between one and two. -/
theorem newton_encloses_sqrt :
    (solve 100 0 (fun x => x * x - 2) (fun x => 2 * x) coarse 1 2).status = .success ∧
      Encloses (fun x => x * x - 2) coarse 1 2
        (solve 100 0 (fun x => x * x - 2) (fun x => 2 * x) coarse 1 2) := by
  have hstatus :
      (solve 100 0 (fun x => x * x - 2) (fun x => 2 * x) coarse 1 2).status = .success := by
    with_unfolding_all decide
  refine ⟨hstatus, (newton_encloses 100 0 (fun x => x * x - 2) 1 2 coarse ?_).1 ?_ _ hstatus⟩
  · norm_num [coarse, decimal]
  · intro h
    have hroot := h.root
    norm_num at hroot

/-- The square, between zero and one, with its derivative. The method starts at the midpoint, and
what it reports is not enclosed: the root is at zero, and the bracket is from 5/8 to 1. -/
theorem square_not_enclosed :
    solve 100 0 (fun x => x * x) (fun x => 2 * x) coarse 0 1 =
        ⟨5 / 8, .success, 3, some (5 / 8, 1)⟩ ∧
      ¬ Encloses (fun x => x * x) coarse 0 1
        (solve 100 0 (fun x => x * x) (fun x => 2 * x) coarse 0 1) := by
  have hsolve : solve 100 0 (fun x => x * x) (fun x => 2 * x) coarse 0 1 =
      ⟨5 / 8, .success, 3, some (5 / 8, 1)⟩ := by
    with_unfolding_all decide
  refine ⟨hsolve, ?_⟩
  rw [hsolve]
  rintro ⟨-, -, hsmall | ⟨xLow, xHigh, hbracket, -, -, -, hnonpos⟩⟩
  · norm_num [coarse, decimal] at hsmall
  · obtain ⟨rfl, rfl⟩ := Prod.mk.inj (Option.some.inj hbracket)
    norm_num at hnonpos

end NewtonBracket

end DistributedComputing
