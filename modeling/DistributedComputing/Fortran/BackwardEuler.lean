import Mathlib.LinearAlgebra.FiniteDimensional.Basic
import Mathlib.LinearAlgebra.Matrix.NonsingularInverse
import Mathlib.LinearAlgebra.Matrix.Notation
import DistributedComputing.Foundations.BoundedLoops
import DistributedComputing.Fortran.NumericUtils

/-!
# The backward Euler method

A model of `backward_euler.f90`, over an ordered field in place of `real(wp)`. `dgesv` is a
parameter, with what it is assumed to do stated in `Dgesv.Solves` and `Dgesv.Accepts`; so are the
right-hand side and the optional Jacobian.

Fortran passes arrays by reference, and here that matters. The step routines therefore work on a
store of named arrays and are given **the names of `y` and `y_new`**, which may be the same. The
routines with an analytical and with a finite difference Jacobian are one definition
(`beulerStepWith`), which both instantiate.

* With two different names a successful step satisfies the implicit equation up to the tolerance
  (`implicit_of_separate`): the residual of the last round is the residual of the equation.
* `beuler_solve` passes one array under both names. The predictor then overwrites the state that the
  residual should be measured against, and `y_new - y` is zero from there on. What is tested is the
  size of `dt * f`, and the Newton iteration looks for a zero of `f`. `implicit_shared_iff` says
  for which right-hand sides and states the implicit equation is satisfied nevertheless, whatever
  the Jacobian.
-/

namespace DistributedComputing

open Matrix BoundedLoop

variable {K : Type} [Field K] [LinearOrder K] {n : ℕ} {ι : Type} [DecidableEq ι]

/-- The status codes. -/
inductive BeulerCode
  | success
  | maxSteps
  | invalidArg
  | newtonFailed
  | singularJacobian
  deriving DecidableEq, Repr

/-- `beuler_config_t`. -/
structure BeulerConfig (K : Type) [Field K] where
  dt : K := decimal 1 2
  newtonTol : K := decimal 1 6
  fdEpsilon : K := decimal 1 8
  maxSteps : ℤ := 100000
  maxNewtonIter : ℤ := 20
  outputEvery : ℤ := 1
  denseOutput : Bool := false

/-- `dgesv` for one right-hand side: the solution and `info`. -/
abbrev Dgesv (K : Type) (n : ℕ) : Type :=
  Matrix (Fin n) (Fin n) K → (Fin n → K) → (Fin n → K) × ℤ

/-- What `dgesv` is assumed to do. -/
def Dgesv.Solves (dgesv : Dgesv K n) : Prop :=
  ∀ A b, (dgesv A b).2 = 0 → A *ᵥ (dgesv A b).1 = b

/-- It fails for singular matrices only. -/
def Dgesv.Accepts (dgesv : Dgesv K n) : Prop :=
  ∀ A b, IsUnit A → (dgesv A b).2 = 0

/-! ### The step routines -/

/-- The arrays and the output arguments of a step routine. -/
structure StepState (ι K : Type) (n : ℕ) where
  store : ι → Fin n → K
  newtonIters : ℤ := 0
  errorCode : BeulerCode := .success

/-- `I - dt * J`, as it is built. -/
def systemMatrix (dt : K) (jacobian : Matrix (Fin n) (Fin n) K) : Matrix (Fin n) (Fin n) K :=
  .of fun i j => if i = j then 1 + -dt * jacobian i j else -dt * jacobian i j

section Step

variable (func : K → (Fin n → K) → Fin n → K)
  (jacobian : K → (Fin n → K) → (Fin n → K) → Matrix (Fin n) (Fin n) K) (dgesv : Dgesv K n)
  (config : BeulerConfig K) (t dt : K) (y yNew : ι)

/-- A round of the Newton iteration. -/
def newtonRound (iter : ℕ) (s : StepState ι K n) : Round (StepState ι K n) :=
  let fNew := func (t + dt) (s.store yNew)
  let residual := s.store yNew - s.store y - dt • fNew
  if norm2Lt residual config.newtonTol then .exit { s with newtonIters := iter }
  else
    let solved := dgesv (systemMatrix dt (jacobian (t + dt) (s.store yNew) fNew)) (-residual)
    if solved.2 ≠ 0 then .exit { s with newtonIters := iter, errorCode := .singularJacobian }
    else .next { s with store := Function.update s.store yNew (s.store yNew + solved.1) }

/-- The arrays after the predictor. -/
def predicted (store : ι → Fin n → K) : ι → Fin n → K :=
  Function.update store yNew (store y + dt • func (t + dt) (store y))

/-- Both step routines, with the Jacobian as a function of the time, the state and `f_new`. -/
def beulerStepWith (store : ι → Fin n → K) : StepState ι K n :=
  match run (newtonRound func jacobian dgesv config t dt y yNew) config.maxNewtonIter.toNat 1
      { store := predicted func t dt y yNew store } with
  | .exit s => s
  | .next s => { s with errorCode := .newtonFailed, newtonIters := config.maxNewtonIter }

/-- The Jacobian by finite differences, one column for each component. -/
def fdJacobian (eps t : K) (v fNew : Fin n → K) : Matrix (Fin n) (Fin n) K :=
  .of fun i j => (func t (Function.update v j (v j + eps)) i - fNew i) / eps

/-- `beuler_step_analytical`. -/
def beulerStepAnalytical (jac : K → (Fin n → K) → Matrix (Fin n) (Fin n) K)
    (store : ι → Fin n → K) : StepState ι K n :=
  beulerStepWith func (fun t v _ => jac t v) dgesv config t dt y yNew store

/-- `beuler_step_fd`. -/
def beulerStepFd (store : ι → Fin n → K) : StepState ι K n :=
  beulerStepWith func (fdJacobian func config.fdEpsilon) dgesv config t dt y yNew store

end Step

/-! ### The integration -/

/-- The arguments of `beuler_solve` that stay the same. -/
structure Beuler (K : Type) [Field K] (n : ℕ) where
  func : K → (Fin n → K) → Fin n → K
  jac : Option (K → (Fin n → K) → Matrix (Fin n) (Fin n) K)
  dgesv : Dgesv K n
  config : BeulerConfig K

/-- The variables of the integration loop; `outputs` is what has been written to `t_out` and
`y_out`. -/
structure SolveState (K : Type) (n : ℕ) where
  t : K
  dt : K
  y : Fin n → K
  code : BeulerCode := .success
  stepsTaken : ℕ := 0
  newtonItersTotal : ℤ := 0
  finalTime : K
  outputIdx : ℤ := 1
  outputs : List (K × (Fin n → K))

namespace Beuler

variable (b : Beuler K n)

/-- The Jacobian that the chosen routine uses. -/
def jacobian : K → (Fin n → K) → (Fin n → K) → Matrix (Fin n) (Fin n) K :=
  match b.jac with
  | some jac => fun t v _ => jac t v
  | none => fdJacobian b.func b.config.fdEpsilon

/-- The call in `beuler_solve`: **one array is both `y` and `y_new`**. -/
def step (t dt : K) (y : Fin n → K) : StepState Unit K n :=
  match b.jac with
  | some jac => beulerStepAnalytical b.func b.dgesv b.config t dt () () jac fun _ => y
  | none => beulerStepFd b.func b.dgesv b.config t dt () () fun _ => y

/-- A round of the integration loop. -/
def round (tf : K) (maxOutputs : ℤ) (step : ℕ) (s : SolveState K n) : Round (SolveState K n) :=
  let dt := if s.t + s.dt > tf then tf - s.t else s.dt
  let r := b.step s.t dt s.y
  let s := { s with dt, y := r.store (), code := r.errorCode }
  if r.errorCode ≠ .success then .exit { s with finalTime := s.t }
  else
    let t := s.t + dt
    let s := { s with
      t
      stepsTaken := step
      newtonItersTotal := s.newtonItersTotal + r.newtonIters }
    let s :=
      if b.config.denseOutput ∨ (step : ℤ).tmod b.config.outputEvery = 0 ∨
          |t - tf| < machineEpsilon then
        { s with
          outputIdx := s.outputIdx + 1
          outputs := if s.outputIdx + 1 ≤ maxOutputs then s.outputs ++ [(t, s.y)] else s.outputs }
      else s
    if |t - tf| < machineEpsilon then .exit { s with code := .success, finalTime := t }
    else .next s

/-- The size of the output arrays. -/
def maxOutputs [FloorRing K] (t tf : K) : ℤ :=
  if b.config.denseOutput then ⌈(tf - t) / b.config.dt⌉ + 1
  else ⌈(tf - t) / (b.config.dt * b.config.outputEvery)⌉ + 1

/-- The check after the loop. -/
def afterLoop (s : SolveState K n) : SolveState K n :=
  if s.code ≠ .success then { s with code := .maxSteps, finalTime := s.t } else s

/-- `beuler_solve`. -/
def solve [FloorRing K] (t tf : K) (y0 : Fin n → K) : SolveState K n :=
  let s : SolveState K n := { t, dt := b.config.dt, y := y0, finalTime := 0, outputs := [] }
  if b.config.dt ≤ 0 ∨ tf ≤ t ∨ n = 0 then { s with code := .invalidArg }
  else
    match run (b.round tf (b.maxOutputs t tf)) b.config.maxSteps.toNat 1
        { s with outputs := [(t, y0)] } with
    -- a failed step returns from the routine, and the check after the loop is not reached
    | .exit s => if s.code ≠ .success then s else afterLoop s
    | .next s => afterLoop s

end Beuler

/-! ### What a successful step has tested -/

/-- The residual of the implicit equation. -/
def implicitResidual (func : K → (Fin n → K) → Fin n → K) (t dt : K) (v w : Fin n → K) :
    Fin n → K :=
  w - v - dt • func (t + dt) w

omit [LinearOrder K] in
theorem systemMatrix_eq (dt : K) (A : Matrix (Fin n) (Fin n) K) :
    systemMatrix dt A = 1 - dt • A := by
  ext i j
  by_cases h : i = j
  · subst h
    simp [systemMatrix, sub_eq_add_neg]
  · simp [systemMatrix, h]

section Round

variable {func : K → (Fin n → K) → Fin n → K}
  {jacobian : K → (Fin n → K) → (Fin n → K) → Matrix (Fin n) (Fin n) K} {dgesv : Dgesv K n}
  {config : BeulerConfig K} {t dt : K} {y yNew : ι} {iter : ℕ} {s u : StepState ι K n}

/-- A round that goes on writes to `y_new` only. -/
theorem store_of_next (h : newtonRound func jacobian dgesv config t dt y yNew iter s = .next u)
    (hne : y ≠ yNew) : u.store y = s.store y := by
  rw [newtonRound] at h
  dsimp only at h
  split_ifs at h
  cases h
  exact Function.update_of_ne hne _ _

/-- **What a round that ends the iteration has found.** -/
theorem store_of_exit (h : newtonRound func jacobian dgesv config t dt y yNew iter s = .exit u) :
    u.store = s.store ∧ (u.errorCode = .success →
      norm2Lt (implicitResidual func t dt (s.store y) (s.store yNew)) config.newtonTol) := by
  rw [newtonRound] at h
  dsimp only at h
  split_ifs at h with hnorm hinfo
  · cases h
    exact ⟨rfl, fun _ => hnorm⟩
  · cases h
    exact ⟨rfl, fun hcode => BeulerCode.noConfusion hcode⟩

/-- **A successful step** ends in a round that was reached and whose residual passed the test. -/
theorem reaches_of_success {store : ι → Fin n → K}
    (h : (beulerStepWith func jacobian dgesv config t dt y yNew store).errorCode = .success) :
    ∃ iter s, iter ≤ config.maxNewtonIter.toNat ∧
      Reaches (newtonRound func jacobian dgesv config t dt y yNew) 1
        { store := predicted func t dt y yNew store } iter s ∧
      (beulerStepWith func jacobian dgesv config t dt y yNew store).store = s.store ∧
      norm2Lt (implicitResidual func t dt (s.store y) (s.store yNew)) config.newtonTol := by
  rcases @run_cases _ (newtonRound func jacobian dgesv config t dt y yNew) 1
      { store := predicted func t dt y yNew store } config.maxNewtonIter.toNat with
    ⟨s, hrun, -⟩ | ⟨iter, s, u, hrun, hiter, hreach, hexit⟩
  · rw [beulerStepWith, hrun] at h
    cases h
  · have hstep : beulerStepWith func jacobian dgesv config t dt y yNew store = u := by
      rw [beulerStepWith, hrun]
    rw [hstep] at h ⊢
    obtain ⟨hstore, htested⟩ := store_of_exit hexit
    exact ⟨iter, s, by omega, hreach, hstore, htested h⟩

end Round

/-! ### Different arrays -/

section Routine

variable {func : K → (Fin n → K) → Fin n → K}
  {jacobian : K → (Fin n → K) → (Fin n → K) → Matrix (Fin n) (Fin n) K} {dgesv : Dgesv K n}
  {config : BeulerConfig K} {t dt : K} {y yNew : ι}

/-- **With different arrays a successful step satisfies the implicit equation** up to the
tolerance. -/
theorem implicit_of_separate (hne : y ≠ yNew) {store : ι → Fin n → K}
    (h : (beulerStepWith func jacobian dgesv config t dt y yNew store).errorCode = .success) :
    norm2Lt (implicitResidual func t dt (store y)
      ((beulerStepWith func jacobian dgesv config t dt y yNew store).store yNew))
        config.newtonTol := by
  obtain ⟨iter, s, -, hreach, hstore, htested⟩ := reaches_of_success h
  -- nothing writes to `y`
  have hy : s.store y = store y := by
    refine Reaches.invariant (I := fun _ s => s.store y = store y)
      (Function.update_of_ne hne _ _) (fun _ s u hs hround => ?_) hreach
    rw [store_of_next hround hne, hs]
  rwa [hstore, ← hy]

end Routine

/-! ### One array -/

omit [LinearOrder K] in
theorem exists_isUnit_mulVec_eq {v w : Fin n → K} (hv : v ≠ 0) (hw : w ≠ 0) :
    ∃ A : Matrix (Fin n) (Fin n) K, IsUnit A ∧ A *ᵥ v = w := by
  obtain ⟨g, hg⟩ := Submodule.exists_linearEquiv_restrict_eq
    ((LinearEquiv.toSpanNonzeroSingleton K _ v hv).symm.trans
      (LinearEquiv.toSpanNonzeroSingleton K _ w hw))
  refine ⟨LinearMap.toMatrix' g.toLinearMap, ?_, ?_⟩
  · rw [← mulVec_injective_iff_isUnit]
    intro x z hxz
    rw [LinearMap.toMatrix'_mulVec, LinearMap.toMatrix'_mulVec] at hxz
    exact g.injective hxz
  · have hgv := hg (LinearEquiv.toSpanNonzeroSingleton K _ v hv 1)
    rw [LinearEquiv.trans_apply, LinearEquiv.symm_apply_apply] at hgv
    simp only [LinearEquiv.toSpanNonzeroSingleton_apply, one_smul] at hgv
    rw [LinearMap.toMatrix'_mulVec]
    exact hgv.symm

namespace Beuler

variable {b : Beuler K n} {t dt : K} {y : Fin n → K}

theorem step_eq (b : Beuler K n) (t dt : K) (y : Fin n → K) :
    b.step t dt y = beulerStepWith b.func b.jacobian b.dgesv b.config t dt () () fun _ => y := by
  rcases hjac : b.jac with - | jac
  · rw [step, hjac, jacobian, hjac]
    rfl
  · rw [step, hjac, jacobian, hjac]
    rfl

omit [LinearOrder K] in
theorem implicitResidual_self (func : K → (Fin n → K) → Fin n → K) (t dt : K) (v : Fin n → K) :
    implicitResidual func t dt v v = -(dt • func (t + dt) v) := by
  rw [implicitResidual, sub_self, zero_sub]

theorem norm2Lt_neg (v : Fin n → K) (tol : K) : norm2Lt (-v) tol ↔ norm2Lt v tol := by
  simp [norm2Lt, sumSquares]

/-- What a right-hand side and a state have to be like for `beuler_solve` to satisfy the implicit
equation. **If `dt * f` is below the tolerance at the predictor**, the step ends there, and `f` has
to change by little between the two. **Otherwise** the Jacobian decides where the corrections lead,
and the equation has to hold wherever `dt * f` is below the tolerance. -/
def ZerosSolve (func : K → (Fin n → K) → Fin n → K) (config : BeulerConfig K) (t dt : K)
    (y : Fin n → K) : Prop :=
  if norm2Lt (dt • func (t + dt) (y + dt • func (t + dt) y)) config.newtonTol then
    1 ≤ config.maxNewtonIter →
      sumSquares (dt • (func (t + dt) y - func (t + dt) (y + dt • func (t + dt) y))) <
        config.newtonTol ^ 2
  else
    2 ≤ config.maxNewtonIter → ∀ z, norm2Lt (dt • func (t + dt) z) config.newtonTol →
      sumSquares (implicitResidual func t dt y z) < config.newtonTol ^ 2

/-- A step whose predictor passes the test is the predictor. -/
theorem step_of_predicted (hiter : 1 ≤ b.config.maxNewtonIter)
    (h : norm2Lt (dt • b.func (t + dt) (y + dt • b.func (t + dt) y)) b.config.newtonTol) :
    b.step t dt y = { store := fun _ => y + dt • b.func (t + dt) y, newtonIters := 1,
                      errorCode := .success } := by
  have hpred : predicted b.func t dt () () (fun _ => y) = fun _ => y + dt • b.func (t + dt) y :=
    funext fun _ => Function.update_self _ _ _
  have hround : newtonRound b.func b.jacobian b.dgesv b.config t dt () () 1
      { store := fun _ : Unit => y + dt • b.func (t + dt) y } =
      .exit { store := fun _ => y + dt • b.func (t + dt) y, newtonIters := 1 } := by
    rw [newtonRound]
    dsimp only
    rw [if_pos (by rwa [sub_self, zero_sub, norm2Lt_neg])]
    rfl
  rw [step_eq, beulerStepWith, hpred, run_of_exit (by omega) hround]

omit [LinearOrder K] in
theorem implicitResidual_predictor (func : K → (Fin n → K) → Fin n → K) (t dt : K)
    (y : Fin n → K) :
    implicitResidual func t dt y (y + dt • func (t + dt) y) =
      dt • (func (t + dt) y - func (t + dt) (y + dt • func (t + dt) y)) := by
  rw [implicitResidual, add_sub_cancel_left, smul_sub]

/-- **One correction reaches any point** where `dt * f` is below the tolerance, with a Jacobian for
it, unless the predictor passes the test. -/
theorem exists_jac_step [IsStrictOrderedRing K] (hsolves : b.dgesv.Solves)
    (haccepts : b.dgesv.Accepts) (hiter : 2 ≤ b.config.maxNewtonIter)
    (htest : ¬ norm2Lt (dt • b.func (t + dt) (y + dt • b.func (t + dt) y)) b.config.newtonTol)
    {z : Fin n → K} (hz : norm2Lt (dt • b.func (t + dt) z) b.config.newtonTol) :
    ∃ jac, ({ b with jac }.step t dt y) = { store := fun _ => z, newtonIters := 2 } := by
  set p := y + dt • b.func (t + dt) y with hp
  have hpz : z - p ≠ 0 := fun h => htest (sub_eq_zero.1 h ▸ hz)
  have hslope : dt • b.func (t + dt) p ≠ 0 := fun h => htest (by
    rw [h]
    exact ⟨hz.1, by simpa [sumSquares] using pow_pos hz.1 2⟩)
  have hdt : dt ≠ 0 := fun h => hslope (by rw [h, zero_smul])
  obtain ⟨A, hA, hmove⟩ := exists_isUnit_mulVec_eq hpz hslope
  have hsystem : systemMatrix dt (dt⁻¹ • (1 - A)) = A := by
    rw [systemMatrix_eq, smul_smul, mul_inv_cancel₀ hdt, one_smul, sub_sub_cancel]
  have hdelta : (b.dgesv A (dt • b.func (t + dt) p)).1 = z - p := by
    refine mulVec_injective_iff_isUnit.2 hA ?_
    exact (hsolves A _ (haccepts A _ hA)).trans hmove.symm
  refine ⟨some fun _ _ => dt⁻¹ • (1 - A), ?_⟩
  have hpred : predicted b.func t dt () () (fun _ => y) = fun _ => p :=
    funext fun _ => Function.update_self _ _ _
  have hfirst : newtonRound b.func (fun _ _ _ => dt⁻¹ • (1 - A)) b.dgesv b.config t dt () () 1
      { store := fun _ : Unit => p } = .next { store := fun _ => z } := by
    rw [newtonRound]
    dsimp only
    rw [sub_self, zero_sub, if_neg (by rwa [norm2Lt_neg]), hsystem, neg_neg,
      if_neg (not_not.2 (haccepts A _ hA)), hdelta]
    congr 2
    funext _
    rw [Function.update_self, add_sub_cancel]
  have hsecond : newtonRound b.func (fun _ _ _ => dt⁻¹ • (1 - A)) b.dgesv b.config t dt () () 2
      { store := fun _ : Unit => z } = .exit { store := fun _ => z, newtonIters := 2 } := by
    rw [newtonRound]
    dsimp only
    rw [if_pos (by rwa [sub_self, zero_sub, norm2Lt_neg])]
    rfl
  have hcount : b.config.maxNewtonIter.toNat = (b.config.maxNewtonIter.toNat - 2) + 1 + 1 := by
    omega
  rw [step_eq]
  show beulerStepWith b.func (fun _ _ _ => dt⁻¹ • (1 - A)) b.dgesv b.config t dt () () _ = _
  rw [beulerStepWith, hpred, hcount, run_of_next hfirst, run_of_exit (Nat.succ_pos _) hsecond]

/-- **When the steps of `beuler_solve` satisfy the implicit equation**, with finite differences and
with every Jacobian. -/
theorem implicit_shared_iff [IsStrictOrderedRing K] (hsolves : b.dgesv.Solves)
    (haccepts : b.dgesv.Accepts) :
    (∀ jac, ({ b with jac }.step t dt y).errorCode = .success →
      sumSquares (implicitResidual b.func t dt y (({ b with jac }.step t dt y).store ())) <
        b.config.newtonTol ^ 2) ↔ ZerosSolve b.func b.config t dt y := by
  rw [ZerosSolve]
  split_ifs with htest
  · constructor
    · intro h hiter
      have hstep := step_of_predicted hiter htest
      rw [← implicitResidual_predictor]
      simpa only [hstep] using h b.jac (by rw [hstep])
    · intro h jac hcode
      have hcode' := hcode
      rw [step_eq] at hcode'
      obtain ⟨iter, _, hiter, hreach, -⟩ := reaches_of_success hcode'
      have hle := hreach.le
      have hiter : 1 ≤ b.config.maxNewtonIter := by
        replace hiter : iter ≤ b.config.maxNewtonIter.toNat := hiter
        omega
      rw [step_of_predicted (b := { b with jac }) hiter htest]
      dsimp only
      rw [implicitResidual_predictor]
      exact h hiter
  · constructor
    · intro h hiter z hz
      obtain ⟨jac, hstep⟩ := exists_jac_step hsolves haccepts hiter htest hz
      simpa only [hstep] using h jac (by rw [hstep])
    · intro h jac hcode
      rw [step_eq] at hcode ⊢
      obtain ⟨iter, s, hiter, hreach, hstore, htested⟩ := reaches_of_success hcode
      rw [implicitResidual_self, norm2Lt_neg] at htested
      -- the first round has not passed its test
      have hiter : 2 ≤ b.config.maxNewtonIter := by
        have hfirst : iter ≠ 1 := by
          rintro rfl
          obtain rfl := hreach.eq_start
          exact htest (by simpa [predicted] using htested)
        have hle := hreach.le
        replace hiter : iter ≤ b.config.maxNewtonIter.toNat := hiter
        omega
      rw [hstore]
      exact h hiter _ htested

/-- `dgesv` for one equation. -/
def dgesvOne : Dgesv ℚ 1 := fun A v => if A 0 0 = 0 then (v, 1) else (fun i => v i / A 0 0, 0)

theorem dgesvOne_solves : dgesvOne.Solves := by
  intro A v h
  by_cases hA : A 0 0 = 0
  · simp [dgesvOne, hA] at h
  · ext i
    rw [Subsingleton.elim i 0, dgesvOne, if_neg hA]
    simp only [mulVec, dotProduct, Fin.sum_univ_one]
    exact mul_div_cancel₀ _ hA

theorem dgesvOne_accepts : dgesvOne.Accepts := by
  intro A v hA
  have hne : A 0 0 ≠ 0 := by
    have hdet := (A.isUnit_iff_isUnit_det.1 hA).ne_zero
    rwa [det_fin_one] at hdet
  rw [dgesvOne, if_neg hne]

/-- `y' = 10 y`, with a tolerance that the predictor does not pass. -/
def growth : Beuler ℚ 1 where
  func _ v := (10 : ℚ) • v
  jac := none
  dgesv := dgesvOne
  config := { dt := 1, newtonTol := 1 }

theorem zerosSolve_growth : ZerosSolve growth.func growth.config 0 1 ![1 / 20] := by
  rw [ZerosSolve, if_neg (by with_unfolding_all decide)]
  rintro - z ⟨-, hz⟩
  rw [sumSquares, Fin.sum_univ_one] at hz ⊢
  replace hz : (1 * (10 * z 0)) ^ 2 < (1 : ℚ) ^ 2 := hz
  show (z 0 - 1 / 20 - 1 * (10 * z 0)) ^ 2 < (1 : ℚ) ^ 2
  rw [sq_lt_sq, abs_one, abs_lt] at hz ⊢
  constructor <;> linarith

/-- A step with one correction, by finite differences. -/
theorem implicit_shared_growth :
    (growth.step 0 1 ![1 / 20]).store () = ![-11 / 180] ∧
      (growth.step 0 1 ![1 / 20]).newtonIters = 2 ∧
      (growth.step 0 1 ![1 / 20]).errorCode = .success ∧
      sumSquares (implicitResidual growth.func 0 1 ![1 / 20]
        ((growth.step 0 1 ![1 / 20]).store ())) < growth.config.newtonTol ^ 2 := by
  have hcode : (growth.step 0 1 ![1 / 20]).errorCode = .success := by with_unfolding_all decide
  refine ⟨by with_unfolding_all decide, by with_unfolding_all decide, hcode, ?_⟩
  exact (implicit_shared_iff dgesvOne_solves dgesvOne_accepts).2 zerosSolve_growth none hcode

/-- `y' = -y`, with or without a Jacobian. -/
def decay (jac : Option (ℚ → (Fin 1 → ℚ) → Matrix (Fin 1) (Fin 1) ℚ)) : Beuler ℚ 1 where
  func _ v := -v
  jac := jac
  dgesv := dgesvOne
  config := { dt := 1 }

/-- A step into another array, with one correction by finite differences. -/
theorem implicit_of_separate_decay :
    (beulerStepWith (decay none).func (decay none).jacobian dgesvOne (decay none).config 0 1 false
      true fun _ => ![1]).newtonIters = 2 ∧
    sumSquares (implicitResidual (decay none).func 0 1 ![1]
      ((beulerStepWith (decay none).func (decay none).jacobian dgesvOne (decay none).config 0 1
        false true fun _ => ![1]).store true)) < (decay none).config.newtonTol ^ 2 := by
  have h : (beulerStepWith (decay none).func (decay none).jacobian dgesvOne (decay none).config 0 1
      false true fun _ => ![1]).errorCode = .success := by
    with_unfolding_all decide
  exact ⟨by with_unfolding_all decide, (implicit_of_separate Bool.false_ne_true h).2⟩

theorem step_decay (jac : Option (ℚ → (Fin 1 → ℚ) → Matrix (Fin 1) (Fin 1) ℚ)) :
    (decay jac).step 0 1 ![1] =
      { store := fun _ => ![0], newtonIters := 1, errorCode := .success } := by
  have hzero : ![1] + (1 : ℚ) • (decay jac).func (0 + 1) ![1] = ![0] := by simp [decay]
  have htested : norm2Lt ((1 : ℚ) • (decay jac).func (0 + 1)
      (![1] + (1 : ℚ) • (decay jac).func (0 + 1) ![1])) (decay jac).config.newtonTol := by
    rw [hzero]
    norm_num [norm2Lt, sumSquares, decay, decimal]
  have hiter : 1 ≤ (decay jac).config.maxNewtonIter := show (1 : ℤ) ≤ 20 by decide
  rw [step_of_predicted hiter htested, hzero]

theorem solve_decay (jac : Option (ℚ → (Fin 1 → ℚ) → Matrix (Fin 1) (Fin 1) ℚ)) :
    (decay jac).solve 0 1 ![1] =
      { t := 1, dt := 1, y := ![0], stepsTaken := 1, newtonItersTotal := 1, finalTime := 1,
        outputIdx := 2, outputs := [(0, ![1]), (1, ![0])] } := by
  have hmax : (decay jac).maxOutputs 0 1 = 2 := by simp [maxOutputs, decay]
  have hround : (decay jac).round 1 2 1
      { t := 0, dt := 1, y := ![1], finalTime := 0, outputs := [(0, ![1])] } =
      .exit { t := 1, dt := 1, y := ![0], stepsTaken := 1, newtonItersTotal := 1, finalTime := 1,
              outputIdx := 2, outputs := [(0, ![1]), (1, ![0])] } := by
    simp [round, step_decay, machineEpsilon]
  have hcount : (decay jac).config.maxSteps.toNat = 100000 := rfl
  have hdt : (decay jac).config.dt = 1 := rfl
  rw [solve, hmax, hcount, hdt]
  dsimp only
  rw [if_neg (by norm_num), run_of_exit (by norm_num) hround]
  rfl

theorem not_implicit_decay (jac : Option (ℚ → (Fin 1 → ℚ) → Matrix (Fin 1) (Fin 1) ℚ)) :
    ¬ sumSquares (implicitResidual (decay jac).func 0 1 ![1]
      (((decay jac).step 0 1 ![1]).store ())) < (decay jac).config.newtonTol ^ 2 := by
  rw [step_decay]
  norm_num [implicitResidual, sumSquares, decay, decimal]

/-- One step of size 1 from 1 ends in 0 and is reported as a success, with finite differences and
with the Jacobian; **the implicit equation has the solution 1/2**, and its residual at 0 is -1. -/
theorem implicit_violated_by_decay :
    (((decay none).solve 0 1 ![1]).outputs = [(0, ![1]), (1, ![0])] ∧
      ((decay none).step 0 1 ![1]).errorCode = .success ∧
      ¬ sumSquares (implicitResidual (decay none).func 0 1 ![1]
        (((decay none).step 0 1 ![1]).store ())) < (decay none).config.newtonTol ^ 2) ∧
    ((decay (some fun _ _ => -1)).solve 0 1 ![1]).outputs = [(0, ![1]), (1, ![0])] ∧
      ((decay (some fun _ _ => -1)).step 0 1 ![1]).errorCode = .success ∧
      ¬ sumSquares (implicitResidual (decay (some fun _ _ => -1)).func 0 1 ![1]
        (((decay (some fun _ _ => -1)).step 0 1 ![1]).store ())) <
          (decay (some fun _ _ => -1)).config.newtonTol ^ 2 := by
  refine ⟨⟨?_, ?_, not_implicit_decay none⟩, ?_, ?_, not_implicit_decay _⟩
  · rw [solve_decay]
  · rw [step_decay]
  · rw [solve_decay]
  · rw [step_decay]

end Beuler

end DistributedComputing
