import DistributedComputing.Fortran.SecantBracket

/-!
# The secant method

A model of `secant_solve`, over an ordered field in place of `real(wp)`. The status codes and what
is returned are those of the method in a bracket.

One of the exits with a success returns the next point, at which the function was not evaluated; it
is taken if the step is short and the value at the **current** point is small. At the head of the
loop the current value is never small, however (`Kept`), so that exit is not taken, and whatever is
returned as a root has a small value (`secantSolve_success`).
-/

namespace DistributedComputing

open BoundedLoop

/-- `secant_params_t` -/
structure SecantParams (K : Type) [Field K] extends SecParams K where
  stepLimit : K := decimal 10000000000 0

/-- The variables of the loop, and what is returned from it. -/
structure SecantState (K : Type) [Field K] where
  xPrev : K
  xCurr : K
  fPrev : K
  fCurr : K
  root : K := 0
  status : SecStatus := .maxIter
  numIter : ℤ := 0

namespace Secant

variable {K : Type} [Field K] [LinearOrder K]

/-- `sign(a, b)` -/
def sign (a b : K) : K := if 0 ≤ b then |a| else -|a|

section Solve

variable (huge tiny : K) (f : K → K) (p : SecantParams K)

/-- `dx`: the step of the secant method, cut off at the limit. -/
def step (s : SecantState K) : K :=
  let dx := -s.fCurr * (s.xCurr - s.xPrev) / (s.fCurr - s.fPrev)
  if p.stepLimit < |dx| then sign p.stepLimit dx else dx

/-- The test of the exit that returns `x_next`. -/
def Converged (s : SecantState K) : Prop :=
  |step p s| < p.tol * (1 + |s.xCurr|) ∧ |s.fCurr| < p.tolF

instance (s : SecantState K) : Decidable (Converged p s) := inferInstanceAs (Decidable (_ ∧ _))

/-- The points are shifted. -/
def shift (s : SecantState K) (xNext : K) : SecantState K :=
  { s with xPrev := s.xCurr, fPrev := s.fCurr, xCurr := xNext, fCurr := f xNext }

/-- A round of the loop. -/
def round (iter : ℕ) (s : SecantState K) : Round (SecantState K) :=
  if |s.fCurr - s.fPrev| < tiny then
    .exit { s with root := s.xCurr, status := .flatFunction, numIter := iter }
  else
    let xNext := s.xCurr + step p s
    if Converged p s then .exit { s with root := xNext, status := .success, numIter := iter }
    else if ¬ isFinite huge xNext then
      .exit { s with root := s.xCurr, status := .diverged, numIter := iter }
    else if |f xNext| < p.tolF then
      .exit { shift f s xNext with root := xNext, status := .success, numIter := iter }
    else .next (shift f s xNext)

/-- The variables before the first round. -/
def start (x0 x1 : K) : SecantState K := { xPrev := x0, xCurr := x1, fPrev := f x0, fCurr := f x1 }

/-- What is returned after the loop. -/
def finish : Round (SecantState K) → SecResult K
  | .exit s => ⟨s.root, s.status, s.numIter⟩
  | .next s => ⟨s.xCurr, s.status, p.maxIter⟩

/-- `secant_solve` -/
def secantSolve (x0 x1 : K) (params : Option (SecantParams K)) : SecResult K :=
  let p := params.getD {}
  if ¬ isFinite huge x0 ∨ ¬ isFinite huge x1 then ⟨x0, .invalidInput, 0⟩
  else if |f x1| < p.tolF then ⟨x1, .success, 0⟩
  else finish p (run (round huge tiny f p) p.maxIter.toNat 1 (start f x0 x1))

end Solve

variable {huge tiny x0 x1 : K} {f : K → K} {p : SecantParams K} {s t : SecantState K} {iter : ℕ}

/-- **What the rounds keep**: the current value is that of the current point, and it is not
small. -/
structure Kept (f : K → K) (p : SecantParams K) (s : SecantState K) : Prop where
  fCurr_eq : s.fCurr = f s.xCurr
  large : p.tolF ≤ |s.fCurr|
  status_eq : s.status = .maxIter

theorem Kept.not_converged (h : Kept f p s) : ¬ Converged p s := fun hconverged =>
  hconverged.2.not_ge h.large

theorem kept_start (hlarge : p.tolF ≤ |f x1|) : Kept f p (start f x0 x1) := ⟨rfl, hlarge, rfl⟩

/-- **A round** from such a state leaves the loop with a small value or without success, or goes on
to such a state. -/
theorem Kept.round (h : Kept f p s) :
    (∃ t, round huge tiny f p iter s = .exit t ∧
      (t.status = .success → |f t.root| < p.tolF) ∧ t.numIter = iter) ∨
      ∃ t, round huge tiny f p iter s = .next t ∧ Kept f p t := by
  rw [Secant.round, if_neg h.not_converged]
  by_cases hflat : |s.fCurr - s.fPrev| < tiny
  · rw [if_pos hflat]
    exact .inl ⟨_, rfl, SecStatus.noConfusion, rfl⟩
  rw [if_neg hflat]
  by_cases hfinite : isFinite huge (s.xCurr + step p s)
  · rw [if_neg (not_not.2 hfinite)]
    rcases lt_or_ge |f (s.xCurr + step p s)| p.tolF with hsmall | hlarge
    · rw [if_pos hsmall]
      exact .inl ⟨_, rfl, fun _ => hsmall, rfl⟩
    · rw [if_neg hlarge.not_gt]
      exact .inr ⟨_, rfl, rfl, hlarge, h.status_eq⟩
  · rw [if_pos hfinite]
    exact .inl ⟨_, rfl, SecStatus.noConfusion, rfl⟩

/-- **The head of the loop** -/
theorem Kept.of_reaches (h : Kept f p s)
    (hreach : Reaches (Secant.round huge tiny f p) 1 s iter t) : Kept f p t := by
  refine Reaches.invariant (I := fun _ => Kept f p) h (fun j t u ht hround => ?_) hreach
  rcases ht.round with ⟨v, hv, -⟩ | ⟨v, hv, hkept⟩
  · rw [hv] at hround
    cases hround
  · rw [hv] at hround
    cases hround
    exact hkept

/-- **The loop.** -/
theorem Kept.finish (h : Kept f p s) (hmax : 0 ≤ p.maxIter) :
    ((finish p (run (Secant.round huge tiny f p) p.maxIter.toNat 1 s)).status = .success →
      |f (finish p (run (Secant.round huge tiny f p) p.maxIter.toNat 1 s)).root| < p.tolF) ∧
    (finish p (run (Secant.round huge tiny f p) p.maxIter.toNat 1 s)).numIter ≤ p.maxIter := by
  rcases @run_cases _ (Secant.round huge tiny f p) 1 s p.maxIter.toNat with
    ⟨t, hrun, hreach⟩ | ⟨iter, t, u, hrun, hiter, hreach, hround⟩
  · have hstatus := (h.of_reaches hreach).status_eq
    rw [hrun]
    exact ⟨fun hsuccess => SecStatus.noConfusion (hstatus.symm.trans hsuccess), le_rfl⟩
  · rcases (h.of_reaches hreach).round with ⟨v, hv, hsmall, hnum⟩ | ⟨v, hv, -⟩
    · rw [hround] at hv
      cases hv
      rw [hrun]
      refine ⟨hsmall, ?_⟩
      show u.numIter ≤ p.maxIter
      omega
    · rw [hround] at hv
      cases hv

/-- **A success means a small value.** The exit that returns a point without a value is not taken,
and the reported number of rounds is within the bound. -/
theorem secantSolve_success (huge tiny : K) (f : K → K) (x0 x1 : K)
    (params : Option (SecantParams K)) (hmax : 0 ≤ (params.getD {}).maxIter) :
    ((secantSolve huge tiny f x0 x1 params).status = .success →
      |f (secantSolve huge tiny f x0 x1 params).root| < (params.getD {}).tolF) ∧
    (¬ |f x1| < (params.getD {}).tolF → ∀ iter s,
      Reaches (round huge tiny f (params.getD {})) 1 (start f x0 x1) iter s →
        ¬ Converged (params.getD {}) s) ∧
    (secantSolve huge tiny f x0 x1 params).numIter ≤ (params.getD {}).maxIter := by
  refine and_left_comm.1 ⟨fun hlarge iter s hreach => ?_, ?_⟩
  · exact ((kept_start (not_lt.1 hlarge)).of_reaches hreach).not_converged
  rw [secantSolve]
  by_cases hinvalid : ¬ isFinite huge x0 ∨ ¬ isFinite huge x1
  · rw [if_pos hinvalid]
    exact ⟨SecStatus.noConfusion, hmax⟩
  rw [if_neg hinvalid]
  rcases lt_or_ge |f x1| (params.getD {}).tolF with hsmall | hlarge
  · rw [if_pos hsmall]
    exact ⟨fun _ => hsmall, hmax⟩
  · rw [if_neg hlarge.not_gt]
    exact (kept_start hlarge).finish hmax

/-- The square root of two, with the default parameters. -/
theorem secantSolve_success_sqrt :
    (secantSolve 100 (decimal 1 9) (fun x : ℚ => x * x - 2) 1 2 none).status = .success ∧
      |(fun x : ℚ => x * x - 2) (secantSolve 100 (decimal 1 9) (fun x => x * x - 2) 1 2 none).root|
        < (decimal 1 10 : ℚ) := by
  have hstatus : (secantSolve 100 (decimal 1 9) (fun x : ℚ => x * x - 2) 1 2 none).status =
      .success := by
    with_unfolding_all decide
  exact ⟨hstatus, (secantSolve_success 100 (decimal 1 9) (fun x => x * x - 2) 1 2 none
    (by decide)).1 hstatus⟩

end Secant

end DistributedComputing
