import Mathlib.LinearAlgebra.Matrix.Notation
import Mathlib.Tactic.Module
import DistributedComputing.Foundations.BoundedLoops
import DistributedComputing.Fortran.NumericUtils

/-!
# Gradient descent

A model of `gradient_descent.f90`, over an ordered field in place of `real(wp)`. The three
minimisers are one loop: it takes the gradient at some point, leaves if that is small enough, and
otherwise makes a step. What differs is the point and the step, and what a method remembers between
its steps (`GdMethod`).

A run reports convergence for the point at which it has taken the gradient, and returns the point at
which it is (`GdMethod.converged_minimize`). For `gradient_descent_minimize` and
`gradient_descent_adam` these are the same. `gradient_descent_momentum` takes the gradient
**ahead**, at `x + momentum * velocity`, and returns `x`. So it can report convergence and return a
point with a large gradient. `descent_nearStationary_iff` says for exactly which configurations that
cannot happen. Besides those in which the velocity stays zero, there is one with the momentum `-1`
(`TurnedBack`).
-/

namespace DistributedComputing

open BoundedLoop

variable {K : Type} [Field K] [LinearOrder K] {n : ℕ}

/-- The part of `gd_config_t` that is used. -/
structure GdConfig (K : Type) [Field K] where
  learningRate : K := decimal 1 2
  momentum : K := 0
  tolerance : K := decimal 1 6
  maxIterations : ℤ := 10000
  useLineSearch : Bool := false
  beta1 : K := decimal 9 1
  beta2 : K := decimal 999 3
  epsilon : K := decimal 1 8
  printInterval : ℤ := 0

/-- The values of `message`. -/
inductive GdMessage
  | converged
  | notFinite
  | maxIterations
  deriving DecidableEq, Repr

/-- `gd_result_t`, with the square of `gradient_norm`, and `xmin`. -/
structure GdResult (K : Type) (n : ℕ) where
  xmin : Fin n → K
  finalValue : K
  gradientNormSq : K
  iterations : ℕ
  functionEvals : ℕ
  converged : Bool
  message : Option GdMessage

/-! ### The line search -/

/-- The variables of `backtracking_line_search`. -/
structure Backtracking (K : Type) where
  alpha : K
  funcEvals : ℕ

/-- A round of `backtracking_line_search`. -/
def backtrackingRound (f : (Fin n → K) → K) (x grad : Fin n → K) (f0 descent : K)
    (w : Backtracking K) : Round (Backtracking K) :=
  let xNew := x - w.alpha • grad
  let w := { w with funcEvals := w.funcEvals + 1 }
  if f xNew ≤ f0 - decimal 1 4 * w.alpha * descent then .exit w
  else .next { w with alpha := decimal 5 1 * w.alpha }

/-- `backtracking_line_search`: the step length, and the number of evaluations. -/
def backtrackingLineSearch (f : (Fin n → K) → K) (x grad : Fin n → K) (funcEvals : ℕ) : K × ℕ :=
  let w := (run (fun _ => backtrackingRound f x grad (f x) (∑ i, grad i * grad i)) 50 1
    { alpha := 1, funcEvals := funcEvals + 1 }).state
  (w.alpha, w.funcEvals)

/-- The step length and the number of evaluations. -/
def gdStepLength (f : (Fin n → K) → K) (config : GdConfig K) (x grad : Fin n → K)
    (funcEvals : ℕ) : K × ℕ :=
  if config.useLineSearch then backtrackingLineSearch f x grad funcEvals
  else (config.learningRate, funcEvals)

/-- The counter of the evaluations has no influence on the step length. -/
theorem gdStepLength_congr (f : (Fin n → K) → K) (config : GdConfig K) (x grad : Fin n → K)
    (evals evals' : ℕ) :
    (gdStepLength f config x grad evals).1 = (gdStepLength f config x grad evals').1 := by
  have hrun : ∀ (count first : ℕ) (w w' : Backtracking K) (f0 descent : K), w.alpha = w'.alpha →
      (run (fun _ => backtrackingRound f x grad f0 descent) count first w).state.alpha =
        (run (fun _ => backtrackingRound f x grad f0 descent) count first w').state.alpha := by
    intro count
    induction count with
    | zero => exact fun _ _ _ _ _ h => h
    | succ count ih =>
      intro first w w' f0 descent h
      rw [run, run, backtrackingRound, backtrackingRound, h]
      dsimp only
      by_cases harmijo : f (x - w'.alpha • grad) ≤ f0 - decimal 1 4 * w'.alpha * descent
      · rw [if_pos harmijo, if_pos harmijo]
        rfl
      · rw [if_neg harmijo, if_neg harmijo]
        exact ih _ _ _ _ _ rfl
  rw [gdStepLength, gdStepLength]
  split
  · exact hrun _ _ _ _ _ _ rfl
  · rfl

/-! ### The loop of the three methods -/

/-- What a step returns. -/
structure GdStep (M K : Type) (n : ℕ) where
  memory : M
  x : Fin n → K
  functionEvals : ℕ

/-- A method: what it remembers, the point at which it takes the gradient, its step, and how many
evaluations the progress report of a round needs. -/
structure GdMethod (M K : Type) (n : ℕ) where
  initial : M
  lookahead : M → (Fin n → K) → Fin n → K
  advance : (iter : ℕ) → M → (x grad : Fin n → K) → (functionEvals : ℕ) → GdStep M K n
  reportEvals : ℕ → ℕ

/-- The variables of the loop. -/
structure GdState (M K : Type) (n : ℕ) where
  x : Fin n → K
  memory : M
  iterations : ℕ := 0
  functionEvals : ℕ := 0
  converged : Bool := false
  message : Option GdMessage := none

/-- A run that reports convergence returns a point with a small gradient. -/
def NearStationary (gradF : (Fin n → K) → Fin n → K) (config : GdConfig K) (result : GdResult K n) :
    Prop :=
  result.converged = true →
    norm2Lt (gradF result.xmin) config.tolerance ∧ result.gradientNormSq < config.tolerance ^ 2

namespace GdMethod

variable {M : Type} (method : GdMethod M K n) (f : (Fin n → K) → K)
  (gradF : (Fin n → K) → Fin n → K) (config : GdConfig K) (huge : K)

/-- A round of the loop. -/
def round (iter : ℕ) (s : GdState M K n) : Round (GdState M K n) :=
  let grad := gradF (method.lookahead s.memory s.x)
  if norm2Lt grad config.tolerance then
    .exit { s with converged := true, message := some .converged }
  else
    let step := method.advance iter s.memory s.x grad s.functionEvals
    let s := { s with memory := step.memory, x := step.x, functionEvals := step.functionEvals }
    if ¬ ∀ i, isFinite huge (step.x i) then .exit { s with message := some .notFinite }
    else
      .next { s with
        functionEvals := step.functionEvals + method.reportEvals iter
        iterations := iter }

/-- The variables before the loop. -/
def start (x0 : Fin n → K) : GdState M K n where
  x := x0
  memory := method.initial

/-- The loop, and the final evaluation. The message of an exit without convergence is replaced. -/
def minimize (x0 : Fin n → K) : GdResult K n :=
  let s := (run (method.round gradF config huge) config.maxIterations.toNat 1
    (method.start x0)).state
  { xmin := s.x
    finalValue := f s.x
    gradientNormSq := sumSquares (gradF s.x)
    iterations := s.iterations
    functionEvals := s.functionEvals + 2
    converged := s.converged
    message := if s.converged then s.message else some .maxIterations }

variable {method f gradF config huge}

/-- What a round that goes on does. -/
theorem round_next {iter : ℕ} {s t : GdState M K n}
    (h : method.round gradF config huge iter s = .next t) :
    ¬ norm2Lt (gradF (method.lookahead s.memory s.x)) config.tolerance ∧
      t.memory = (method.advance iter s.memory s.x (gradF (method.lookahead s.memory s.x))
        s.functionEvals).memory ∧
      t.x = (method.advance iter s.memory s.x (gradF (method.lookahead s.memory s.x))
        s.functionEvals).x ∧ t.converged = s.converged := by
  rw [round] at h
  dsimp only at h
  split at h
  · cases h
  next htest =>
  split at h
  · cases h
  · cases h
    exact ⟨htest, rfl, rfl, rfl⟩

theorem exists_round_next {iter : ℕ} {s : GdState M K n}
    (htest : ¬ norm2Lt (gradF (method.lookahead s.memory s.x)) config.tolerance)
    (hfinite : ∀ i, isFinite huge ((method.advance iter s.memory s.x
      (gradF (method.lookahead s.memory s.x)) s.functionEvals).x i)) :
    ∃ t, method.round gradF config huge iter s = .next t := by
  rw [round]
  dsimp only
  rw [if_neg htest, if_neg (not_not.2 hfinite)]
  exact ⟨_, rfl⟩

theorem round_exit {iter : ℕ} {s t : GdState M K n} (hs : s.converged = false)
    (h : method.round gradF config huge iter s = .exit t) (ht : t.converged = true) :
    t.x = s.x ∧ norm2Lt (gradF (method.lookahead s.memory s.x)) config.tolerance := by
  rw [round] at h
  dsimp only at h
  split at h
  · next htest =>
    cases h
    exact ⟨rfl, htest⟩
  · split at h
    · cases h
      exact absurd (hs.symm.trans ht) Bool.false_ne_true
    · cases h

theorem converged_of_reaches {x0 : Fin n → K} {iter : ℕ} {s : GdState M K n}
    (h : Reaches (method.round gradF config huge) 1 (method.start x0) iter s) :
    s.converged = false :=
  Reaches.invariant (I := fun _ s => s.converged = false) rfl
    (fun _ _ _ ht hround => (round_next hround).2.2.2.trans ht) h

/-- **Where a run converges**: in the state of some round, at the point at which that round has
taken the gradient. -/
theorem converged_minimize {x0 : Fin n → K}
    (h : (method.minimize f gradF config huge x0).converged = true) :
    ∃ (iter : ℕ) (s : GdState M K n), iter ≤ config.maxIterations ∧
      Reaches (method.round gradF config huge) 1 (method.start x0) iter s ∧
      (method.minimize f gradF config huge x0).xmin = s.x ∧
      norm2Lt (gradF (method.lookahead s.memory s.x)) config.tolerance := by
  rw [minimize] at h ⊢
  dsimp only at h ⊢
  rcases @run_cases _ (method.round gradF config huge) 1 (method.start x0)
    config.maxIterations.toNat with ⟨t, ht, hreach⟩ | ⟨iter, s, t, ht, hlt, hreach, hexit⟩
  · rw [ht] at h
    exact absurd ((converged_of_reaches hreach).symm.trans h) Bool.false_ne_true
  · rw [ht] at h ⊢
    obtain ⟨hx, htest⟩ := round_exit (converged_of_reaches hreach) hexit h
    have hfirst := hreach.le
    exact ⟨iter, s, by omega, hreach, hx, htest⟩

/-- **Runs that test where they are** in every round in which they converge. -/
theorem nearStationary_minimize {x0 : Fin n → K}
    (h : ∀ (iter : ℕ) (s : GdState M K n), iter ≤ config.maxIterations →
      Reaches (method.round gradF config huge) 1 (method.start x0) iter s →
      norm2Lt (gradF (method.lookahead s.memory s.x)) config.tolerance →
        norm2Lt (gradF s.x) config.tolerance) :
    NearStationary gradF config (method.minimize f gradF config huge x0) := by
  intro hconverged
  obtain ⟨iter, s, hle, hreach, hx, htest⟩ := converged_minimize hconverged
  have hsmall := h iter s hle hreach htest
  rw [← hx] at hsmall
  exact ⟨hsmall, hsmall.2⟩

end GdMethod

/-! ### The methods -/

/-- The method of `gradient_descent_minimize`, which remembers the velocity. -/
def plainMethod (f : (Fin n → K) → K) (config : GdConfig K) : GdMethod (Fin n → K) K n where
  initial := 0
  lookahead _ x := x
  advance _ velocity x grad functionEvals :=
    let alpha := gdStepLength f config x grad functionEvals
    if config.momentum > 0 then
      let velocity := config.momentum • velocity - alpha.1 • grad
      ⟨velocity, x + velocity, alpha.2⟩
    else ⟨velocity, x - alpha.1 • grad, alpha.2⟩
  reportEvals iter :=
    if config.printInterval > 0 then
      if (iter : ℤ).tmod config.printInterval = 0 then 1 else 0
    else 0

/-- The method of `gradient_descent_momentum`. -/
def nesterovMethod (f : (Fin n → K) → K) (config : GdConfig K) : GdMethod (Fin n → K) K n where
  initial := 0
  lookahead velocity x := x + config.momentum • velocity
  advance _ velocity x grad functionEvals :=
    let alpha := gdStepLength f config (x + config.momentum • velocity) grad functionEvals
    let velocity := config.momentum • velocity - alpha.1 • grad
    ⟨velocity, x + velocity, alpha.2⟩
  reportEvals _ := 0

/-- The estimates of the moments. -/
structure Moments (K : Type) (n : ℕ) where
  m : Fin n → K
  v : Fin n → K

/-- The method of `gradient_descent_adam`. -/
def adamMethod (sqrt : K → K) (config : GdConfig K) : GdMethod (Moments K n) K n where
  initial := ⟨0, 0⟩
  lookahead _ x := x
  advance iter moments x grad functionEvals :=
    let m := config.beta1 • moments.m + (1 - config.beta1) • grad
    let v := config.beta2 • moments.v + (1 - config.beta2) • fun i => grad i ^ 2
    let mHat := fun i => m i / (1 - config.beta1 ^ iter)
    let vHat := fun i => v i / (1 - config.beta2 ^ iter)
    ⟨⟨m, v⟩, fun i => x i - config.learningRate * mHat i / (sqrt (vHat i) + config.epsilon),
      functionEvals⟩
  reportEvals _ := 0

section Routines

variable (f : (Fin n → K) → K) (gradF : (Fin n → K) → Fin n → K) (x0 : Fin n → K)
  (config : GdConfig K) (huge : K)

/-- `gradient_descent_minimize` -/
def gradientDescentMinimize : GdResult K n :=
  (plainMethod f config).minimize f gradF config huge x0

/-- `gradient_descent_momentum` -/
def gradientDescentMomentum : GdResult K n :=
  (nesterovMethod f config).minimize f gradF config huge x0

/-- `gradient_descent_adam`, with the square root that it uses. -/
def gradientDescentAdam (sqrt : K → K) : GdResult K n :=
  (adamMethod sqrt config).minimize f gradF config huge x0

theorem gradientDescentMinimize_nearStationary :
    NearStationary gradF config (gradientDescentMinimize f gradF x0 config huge) :=
  GdMethod.nearStationary_minimize fun _ _ _ _ htest => htest

theorem gradientDescentAdam_nearStationary (sqrt : K → K) :
    NearStationary gradF config (gradientDescentAdam f gradF x0 config huge sqrt) :=
  GdMethod.nearStationary_minimize fun _ _ _ _ htest => htest

end Routines

/-! ### Momentum -/

section Momentum

variable {f : (Fin n → K) → K} {gradF : (Fin n → K) → Fin n → K} {x0 : Fin n → K}
  {config : GdConfig K} {huge : K} {iter : ℕ} {s : GdState (Fin n → K) K n}

/-- What a round that goes on does. -/
theorem nesterov_next {t : GdState (Fin n → K) K n} {point : Fin n → K}
    (hpoint : s.x + config.momentum • s.memory = point)
    (h : (nesterovMethod f config).round gradF config huge iter s = .next t) :
    ¬ norm2Lt (gradF point) config.tolerance ∧
      t.memory = config.momentum • s.memory -
        (gdStepLength f config point (gradF point) 0).1 • gradF point ∧
      t.x = s.x + t.memory := by
  obtain ⟨htest, hmemory, hx, -⟩ := GdMethod.round_next h
  subst hpoint
  refine ⟨htest, ?_, ?_⟩
  · rw [hmemory, gdStepLength_congr f config _ _ 0 s.functionEvals]
    rfl
  · rw [hx, hmemory]
    rfl

theorem lookahead_of_velocity (h : s.memory = 0) :
    (nesterovMethod f config).lookahead s.memory s.x = s.x := by
  show s.x + config.momentum • s.memory = s.x
  rw [h, smul_zero, add_zero]

/-- With the momentum `-1`: the velocity is zero, or the last step was made with the gradient at the
point that it came from, and this gradient was too large. -/
def TurnedBack (f : (Fin n → K) → K) (gradF : (Fin n → K) → Fin n → K) (config : GdConfig K)
    (s : GdState (Fin n → K) K n) : Prop :=
  s.memory = 0 ∨
    ∃ point, s.x = point + s.memory ∧ ¬ norm2Lt (gradF point) config.tolerance ∧
      s.memory = -((gdStepLength f config point (gradF point) 0).1 • gradF point)

theorem turnedBack_of_reaches (hmomentum : config.momentum = -1)
    (h : Reaches ((nesterovMethod f config).round gradF config huge) 1
      ((nesterovMethod f config).start x0) iter s) : TurnedBack f gradF config s := by
  refine Reaches.invariant (I := fun _ s => TurnedBack f gradF config s) (.inl rfl)
    (fun j s t hs hround => ?_) h
  rcases hs with hzero | ⟨point, hpoint, -, hvelocity⟩
  · have hhere : s.x + config.momentum • s.memory = s.x := by rw [hzero, smul_zero, add_zero]
    obtain ⟨htest, hmemory, hx⟩ := nesterov_next hhere hround
    rw [hzero, smul_zero, zero_sub] at hmemory
    exact .inr ⟨s.x, hx, htest, hmemory⟩
  · have hback : s.x + config.momentum • s.memory = point := by
      rw [hmomentum, neg_one_smul, hpoint, add_neg_cancel_right]
    obtain ⟨-, hmemory, -⟩ := nesterov_next hback hround
    rw [hmomentum, neg_one_smul, hvelocity, neg_neg, sub_self] at hmemory
    exact .inl hmemory

/-- **The configurations with which the velocity cannot be in the way.** -/
def LooksWhereItIs (config : GdConfig K) (n : ℕ) : Prop :=
  n = 0 ∨ config.maxIterations ≤ 1 ∨ config.momentum = 0 ∨ config.momentum = -1 ∨
    config.useLineSearch = false ∧ config.learningRate = 0

theorem LooksWhereItIs.nearStationary (h : LooksWhereItIs config n) :
    NearStationary gradF config (gradientDescentMomentum f gradF x0 config huge) := by
  refine GdMethod.nearStationary_minimize fun iter s hle hreach htest => ?_
  have hstill : s.memory = 0 → norm2Lt (gradF s.x) config.tolerance := fun hzero => by
    rwa [lookahead_of_velocity hzero] at htest
  rcases h with rfl | hmax | hmomentum | hmomentum | ⟨hsearch, hrate⟩
  · -- all vectors without components are the same
    rwa [Subsingleton.elim s.x ((nesterovMethod f config).lookahead s.memory s.x)]
  · -- only the first round is reached
    have hfirst := hreach.le
    obtain rfl : iter = 1 := by omega
    exact hstill (hreach.eq_start ▸ rfl)
  · have hhere : (nesterovMethod f config).lookahead s.memory s.x = s.x := by
      show s.x + config.momentum • s.memory = s.x
      rw [hmomentum, zero_smul, add_zero]
    rwa [hhere] at htest
  · rcases turnedBack_of_reaches hmomentum hreach with hzero | ⟨point, hpoint, hlarge, -⟩
    · exact hstill hzero
    · have hhere : (nesterovMethod f config).lookahead s.memory s.x = point := by
        show s.x + config.momentum • s.memory = point
        rw [hmomentum, neg_one_smul, hpoint, add_neg_cancel_right]
      rw [hhere] at htest
      exact absurd htest hlarge
  · refine hstill
      (Reaches.invariant (I := fun _ s => s.memory = 0) rfl (fun j s t hs hround => ?_) hreach)
    rw [(nesterov_next rfl hround).2.1, hs, smul_zero, gdStepLength, hsearch,
      if_neg Bool.false_ne_true, hrate, zero_smul, sub_zero]

/-! ### A run that goes past a minimum it has not reached -/

variable [IsStrictOrderedRing K]

/-- On a constant objective the line search tries all its step lengths in vain. -/
theorem run_backtracking_const {x grad : Fin n → K} {descent : K} (hdescent : 0 < descent) :
    ∀ (count first : ℕ) (w : Backtracking K), 0 < w.alpha →
      (run (fun _ => backtrackingRound (fun _ => 0) x grad 0 descent) count first w).state.alpha =
        decimal 5 1 ^ count * w.alpha := by
  intro count
  induction count with
  | zero =>
    intro first w hw
    rw [pow_zero, one_mul]
    rfl
  | succ count ih =>
    intro first w hw
    have harmijo : ¬ (0 : K) ≤ 0 - decimal 1 4 * w.alpha * descent := by
      rw [zero_sub, not_le, neg_lt_zero]
      exact mul_pos (mul_pos (decimal_pos one_pos 4) hw) hdescent
    have hnext : backtrackingRound (fun _ => 0) x grad 0 descent w =
        .next ⟨decimal 5 1 * w.alpha, w.funcEvals + 1⟩ := if_neg harmijo
    rw [run_of_next hnext, ih _ _ (mul_pos (decimal_pos (by decide) 1) hw), pow_succ, mul_assoc]

/-- The step length on a constant objective. -/
def constantLength (config : GdConfig K) : K :=
  if config.useLineSearch then decimal 5 1 ^ 50 else config.learningRate

theorem gdStepLength_const {x grad : Fin n → K} (hgrad : 0 < ∑ i, grad i * grad i) (evals : ℕ) :
    (gdStepLength (fun _ => 0) config x grad evals).1 = constantLength config := by
  rw [gdStepLength, constantLength]
  split
  · show (run (fun _ => backtrackingRound _ x grad _ _) 50 1 _).state.alpha = _
    rw [run_backtracking_const hgrad 50 1 _ one_pos, mul_one]
  · rfl

/-- A vector of the norm `tolerance`, times the step length. -/
def firstStep (config : GdConfig K) (i : Fin n) : Fin n → K :=
  constantLength config • Pi.single i config.tolerance

/-- The point that the second round looks at. -/
def hole (config : GdConfig K) (i : Fin n) : Fin n → K := config.momentum • -firstStep config i

/-- A gradient that is zero at one point only, and of the norm `tolerance` elsewhere. -/
def punctured (config : GdConfig K) (i : Fin n) (x : Fin n → K) : Fin n → K :=
  if x = hole config i then 0 else Pi.single i config.tolerance

omit [LinearOrder K] [IsStrictOrderedRing K] in
theorem sumSquares_single (i : Fin n) (c : K) : sumSquares (Pi.single i c) = c ^ 2 := by
  rw [sumSquares, Finset.sum_eq_single i]
  · rw [Pi.single_eq_same]
  · intro j _ hj
    rw [Pi.single_eq_of_ne hj, zero_pow two_ne_zero]
  · exact fun hi => absurd (Finset.mem_univ i) hi

omit [IsStrictOrderedRing K] in
/-- Away from the hole the gradient is too large. -/
theorem not_norm2Lt_punctured {i : Fin n} {x : Fin n → K} (hx : x ≠ hole config i) :
    ¬ norm2Lt (punctured config i x) config.tolerance := by
  rw [punctured, if_neg hx]
  rintro ⟨-, hlt⟩
  rw [sumSquares_single] at hlt
  exact lt_irrefl _ hlt

theorem firstStep_ne_zero (htol : 0 < config.tolerance)
    (hrate : config.useLineSearch = false → config.learningRate ≠ 0) (i : Fin n) :
    firstStep config i ≠ 0 := by
  refine smul_ne_zero ?_ fun hsingle => htol.ne' (Pi.single_eq_zero_iff.1 hsingle)
  rw [constantLength]
  split
  · exact (pow_pos (decimal_pos (by decide) 1) 50).ne'
  · next hsearch => exact hrate (Bool.not_eq_true _ ▸ hsearch)

theorem gdStepLength_punctured (htol : 0 < config.tolerance) {i : Fin n} {x : Fin n → K}
    (hx : x ≠ hole config i) (evals : ℕ) :
    (gdStepLength (fun _ => 0) config x (punctured config i x) evals).1 • punctured config i x =
      firstStep config i := by
  have hpos : 0 < ∑ j, (Pi.single i config.tolerance : Fin n → K) j *
      (Pi.single i config.tolerance : Fin n → K) j := by
    have hsquares := sumSquares_single i config.tolerance
    simp only [sumSquares, sq] at hsquares
    rw [hsquares]
    exact mul_pos htol htol
  rw [punctured, if_neg hx, gdStepLength_const hpos, firstStep]

/-- The first round goes from one step away to the origin. -/
theorem punctured_first_round (htol : 0 < config.tolerance) (hhuge : 0 ≤ huge) {i : Fin n}
    (hstart : firstStep config i ≠ hole config i) :
    ∃ s, (nesterovMethod (fun _ => 0) config).round (punctured config i) config huge 1
        ((nesterovMethod (fun _ => 0) config).start (firstStep config i)) = .next s ∧
      s.x = 0 ∧ s.memory = -firstStep config i := by
  have hahead : firstStep config i + config.momentum • (0 : Fin n → K) = firstStep config i := by
    rw [smul_zero, add_zero]
  have hstep := gdStepLength_punctured htol hstart 0
  have hgoes : ∃ s, (nesterovMethod (fun _ => 0) config).round (punctured config i) config huge 1
      ((nesterovMethod (fun _ => 0) config).start (firstStep config i)) = .next s := by
    refine GdMethod.exists_round_next ?_ fun j => ?_
    · show ¬ norm2Lt (punctured config i (firstStep config i + config.momentum • 0)) _
      rw [hahead]
      exact not_norm2Lt_punctured hstart
    · show |(firstStep config i + (config.momentum • (0 : Fin n → K) -
        (gdStepLength (fun _ => 0) config (firstStep config i + config.momentum • (0 : Fin n → K))
          (punctured config i (firstStep config i + config.momentum • (0 : Fin n → K))) 0).1 •
            punctured config i (firstStep config i + config.momentum • (0 : Fin n → K)))) j| ≤ huge
      rw [hahead, hstep, smul_zero, zero_sub, add_neg_cancel, Pi.zero_apply, abs_zero]
      exact hhuge
  obtain ⟨s, hs⟩ := hgoes
  obtain ⟨-, hmemory, hx⟩ := nesterov_next hahead hs
  have hvelocity : s.memory = -firstStep config i := by
    rw [hmemory, hstep]
    show config.momentum • (0 : Fin n → K) - _ = _
    rw [smul_zero, zero_sub]
  refine ⟨s, hs, ?_, hvelocity⟩
  rw [hx, hvelocity]
  exact add_neg_cancel _

/-- The second round looks into the hole, and is content. -/
theorem punctured_second_round (htol : 0 < config.tolerance) {i : Fin n}
    {s : GdState (Fin n → K) K n} (hx : s.x = 0) (hmemory : s.memory = -firstStep config i) :
    (nesterovMethod (fun _ => 0) config).round (punctured config i) config huge 2 s =
      .exit { s with converged := true, message := some .converged } := by
  refine if_pos ?_
  show norm2Lt (punctured config i (s.x + config.momentum • s.memory)) config.tolerance
  rw [hx, hmemory, zero_add, ← hole, punctured, if_pos rfl]
  refine ⟨htol, ?_⟩
  rw [sumSquares, Finset.sum_eq_zero fun j _ => zero_pow two_ne_zero]
  exact pow_pos htol 2

omit [LinearOrder K] [IsStrictOrderedRing K] in
theorem firstStep_ne_hole (hone : config.momentum ≠ -1) {i : Fin n}
    (hne : firstStep config i ≠ 0) : firstStep config i ≠ hole config i := by
  intro heq
  have hsum : (1 + config.momentum) • firstStep config i = 0 := by
    rw [hole, smul_neg] at heq
    rw [add_smul, one_smul, eq_neg_iff_add_eq_zero.1 heq]
  rcases smul_eq_zero.1 hsum with hcoeff | hstep
  · exact hone (eq_neg_of_add_eq_zero_right hcoeff)
  · exact hne hstep

/-- **If the velocity can be in the way, it is.** The first step goes to the origin. The second
round looks ahead to the only point with a small gradient, which is not the origin. -/
theorem not_nearStationary_punctured (htol : 0 < config.tolerance) (hhuge : 0 ≤ huge)
    (h : ¬ LooksWhereItIs config n) (i : Fin n) :
    ¬ NearStationary (punctured config i) config
      (gradientDescentMomentum (fun _ => 0) (punctured config i) (firstStep config i) config
        huge) := by
  rw [LooksWhereItIs] at h
  push Not at h
  obtain ⟨-, hmax, hzero, hone, hrate⟩ := h
  have hne := firstStep_ne_zero htol hrate i
  have horigin : (0 : Fin n → K) ≠ hole config i :=
    (smul_ne_zero hzero (neg_ne_zero.2 hne)).symm
  obtain ⟨s, hfirst, hx, hmemory⟩ :=
    punctured_first_round htol hhuge (firstStep_ne_hole hone hne)
  have hcount : config.maxIterations.toNat = config.maxIterations.toNat - 2 + 1 + 1 := by omega
  have hrun : run ((nesterovMethod (fun _ => 0) config).round (punctured config i) config huge)
      config.maxIterations.toNat 1
      ((nesterovMethod (fun _ => 0) config).start (firstStep config i)) =
        .exit { s with converged := true, message := some .converged } := by
    rw [hcount, run_of_next hfirst]
    exact run_of_exit (Nat.succ_pos _) (punctured_second_round htol hx hmemory)
  intro hnear
  rw [NearStationary, gradientDescentMomentum, GdMethod.minimize, hrun] at hnear
  have hsmall := (hnear rfl).1
  exact not_norm2Lt_punctured horigin (hx ▸ hsmall)

/-- **When the three minimisers return what they report.** Two of them always do. The third one
does, for all objectives and starting points, exactly if its velocity cannot be in the way. -/
theorem descent_nearStationary_iff (sqrt : K → K) {config : GdConfig K}
    (htol : 0 < config.tolerance) {huge : K} (hhuge : 0 ≤ huge) (n : ℕ) :
    (∀ (f : (Fin n → K) → K) (gradF : (Fin n → K) → Fin n → K) (x0 : Fin n → K),
      NearStationary gradF config (gradientDescentMinimize f gradF x0 config huge) ∧
        NearStationary gradF config (gradientDescentAdam f gradF x0 config huge sqrt)) ∧
      ((∀ (f : (Fin n → K) → K) (gradF : (Fin n → K) → Fin n → K) (x0 : Fin n → K),
        NearStationary gradF config (gradientDescentMomentum f gradF x0 config huge)) ↔
          n = 0 ∨ config.maxIterations ≤ 1 ∨ config.momentum = 0 ∨ config.momentum = -1 ∨
            config.useLineSearch = false ∧ config.learningRate = 0) := by
  refine ⟨fun f gradF x0 => ⟨gradientDescentMinimize_nearStationary f gradF x0 config huge,
    gradientDescentAdam_nearStationary f gradF x0 config huge sqrt⟩, fun h => ?_,
    fun h f gradF x0 => LooksWhereItIs.nearStationary h⟩
  by_contra hlooks
  have hn : 0 < n := Nat.pos_of_ne_zero fun hn => hlooks (.inl hn)
  exact not_nearStationary_punctured htol hhuge hlooks ⟨0, hn⟩ (h _ _ _)

end Momentum

/-- A configuration for the minimisation of `x² / 2`. -/
def parabolaConfig (momentum : ℚ) : GdConfig ℚ :=
  { momentum, learningRate := 2 / 3, maxIterations := 20 }

/-- Without momentum the run converges where it is. -/
theorem descent_nearStationary_iff_parabola :
    (gradientDescentMomentum (fun x => x 0 ^ 2 / 2) id ![1] (parabolaConfig 0) 1000).converged ∧
      NearStationary id (parabolaConfig 0)
        (gradientDescentMomentum (fun x => x 0 ^ 2 / 2) id ![1] (parabolaConfig 0) 1000) :=
  ⟨by with_unfolding_all decide,
    (descent_nearStationary_iff id (decimal_pos one_pos 6) (by decide) 1).2.2
      (.inr (.inr (.inl rfl))) _ _ _⟩

/-- With the momentum `1 / 2`, the second round looks ahead to the minimum, and the run returns
`1 / 3` as converged. -/
theorem momentum_converges_away :
    (gradientDescentMomentum (fun x => x 0 ^ 2 / 2) id ![1] (parabolaConfig (1 / 2))
        1000).converged ∧
      (gradientDescentMomentum (fun x => x 0 ^ 2 / 2) id ![1] (parabolaConfig (1 / 2)) 1000).xmin =
        ![1 / 3] ∧
      (parabolaConfig (1 / 2)).tolerance ^ 2 ≤
        (gradientDescentMomentum (fun x => x 0 ^ 2 / 2) id ![1] (parabolaConfig (1 / 2))
          1000).gradientNormSq := by
  with_unfolding_all decide

end DistributedComputing
