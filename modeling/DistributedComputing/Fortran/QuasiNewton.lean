import Mathlib.LinearAlgebra.Matrix.Notation
import Mathlib.LinearAlgebra.Matrix.Symmetric
import DistributedComputing.Foundations.BoundedLoops
import DistributedComputing.Foundations.Brackets
import DistributedComputing.Foundations.SecantUpdates
import DistributedComputing.Fortran.NumericUtils

/-!
# Quasi-Newton minimisation

A model of `quasi_newton.f90`, over an ordered field in place of `real(wp)`. `bfgs_minimize` and
`lbfgs_minimize` are one loop with two memories: the dense inverse approximation, and the last
`history_size` correction pairs. The loop is `Method.minimize`, a memory with its two operations is
a `Method`.

The dense method is what its comments say. `bfgs_update_hessian` is the update of a secant pair on a
symmetric matrix (`bfgsUpdateHessian_eq`), so in every round of every run the matrix is built from
the identity by such updates. It is symmetric and positive definite, the newest update makes it
satisfy the secant equation, and **every direction of `bfgs_minimize` is a descent direction**
(`bfgs_approximation`, `bfgs_descent`).

The two-loop recursion of `lbfgs_minimize` is not the product with that matrix. Its first loop is.
The second one starts from `-gamma * q`, so everything it adds should be negative too; but it adds
`alpha_hist(i) - alpha` times `s`, where the coefficient `alpha_hist(i)` enters with **the sign it
would have if the loop started from `gamma * q`**. The direction is therefore wrong by twice the
contributions of the coefficients, and right exactly if there are none
(`lbfgsDirection_correct_iff`). Whether it still descends is a matter of size
(`lbfgsDirection_descends_iff`).
-/

namespace DistributedComputing

open Matrix SecantUpdates BoundedLoop

variable {K : Type} [Field K] [LinearOrder K] {n : ℕ}

/-- `qn_config_t`. -/
structure QnConfig (K : Type) [Field K] where
  tolerance : K := decimal 1 6
  maxIterations : ℤ := 1000
  historySize : ℤ := 10
  lineSearchTol : K := decimal 1 4
  useLineSearch : Bool := true

/-- The values of `message`. -/
inductive QnMessage
  | converged
  | notFinite
  | maxIterations
  deriving DecidableEq, Repr

/-- `qn_result_t`, with the square of `gradient_norm`, and `xmin`. -/
structure QnResult (K : Type) (n : ℕ) where
  xmin : Fin n → K
  finalValue : K
  gradientNormSq : K
  iterations : ℕ
  functionEvals : ℕ
  converged : Bool
  message : Option QnMessage

/-! ### The line search -/

/-- The variables of `wolfe_line_search`. -/
structure WolfeSearch (K : Type) where
  alpha : K
  alphaLow : K
  alphaHigh : K
  funcEvals : ℕ

/-- A round of `wolfe_line_search`. -/
def wolfeRound (f : (Fin n → K) → K) (gradF : (Fin n → K) → Fin n → K) (x direction : Fin n → K)
    (f0 slope0 tol : K) (w : WolfeSearch K) : Round (WolfeSearch K) :=
  let xNew := x + w.alpha • direction
  let w := { w with funcEvals := w.funcEvals + 1 }
  if f xNew > f0 + decimal 1 4 * w.alpha * slope0 then
    .next { w with alphaHigh := w.alpha, alpha := decimal 5 1 * (w.alphaLow + w.alpha) }
  else
    let slopeNew := gradF xNew ⬝ᵥ direction
    if slopeNew ≥ decimal 9 1 * slope0 then
      .exit w
    else
      let w := if slopeNew > 0 then { w with alphaHigh := w.alpha }
        else { w with alphaLow := w.alpha }
      if w.alphaHigh - w.alphaLow < tol then .exit w
      else .next { w with alpha := decimal 5 1 * (w.alphaLow + w.alphaHigh) }

/-- The loop of `wolfe_line_search`. -/
def wolfeSearch (f : (Fin n → K) → K) (gradF : (Fin n → K) → Fin n → K)
    (x direction grad : Fin n → K) (tol : K) (funcEvals : ℕ) : Round (WolfeSearch K) :=
  run (fun _ => wolfeRound f gradF x direction (f x) (grad ⬝ᵥ direction) tol) 20 1
    { alpha := 1, alphaLow := 0, alphaHigh := decimal 2 0, funcEvals := funcEvals + 1 }

/-- `wolfe_line_search`: the step length, and the number of evaluations. -/
def wolfeLineSearch (f : (Fin n → K) → K) (gradF : (Fin n → K) → Fin n → K)
    (x direction grad : Fin n → K) (tol : K) (funcEvals : ℕ) : K × ℕ :=
  let w := (wolfeSearch f gradF x direction grad tol funcEvals).state
  (w.alpha, w.funcEvals)

/-- Every way in which a round can go: the loop is left after the decrease has been found
sufficient; or one end of the interval moves to the length, which moves to the middle. The lower end
moves only if the decrease is sufficient and the slope still steep. -/
inductive WolfeStep (decreases steep : Prop) (w : WolfeSearch K) : Round (WolfeSearch K) → Prop
  | stop {w' : WolfeSearch K} (h : decreases) (halpha : w'.alpha = w.alpha) :
      WolfeStep decreases steep w (.exit w')
  | lower {w' : WolfeSearch K} (hlow : w'.alphaLow = w.alphaLow) (hhigh : w'.alphaHigh = w.alpha)
      (hmid : w'.alpha = decimal 5 1 * (w.alphaLow + w.alpha)) :
      WolfeStep decreases steep w (.next w')
  | raise {w' : WolfeSearch K} (h : decreases) (hsteep : steep) (hlow : w'.alphaLow = w.alpha)
      (hhigh : w'.alphaHigh = w.alphaHigh)
      (hmid : w'.alpha = decimal 5 1 * (w.alpha + w.alphaHigh)) :
      WolfeStep decreases steep w (.next w')

/-- **Inversion of a round.** -/
theorem wolfeStep_round (f : (Fin n → K) → K) (gradF : (Fin n → K) → Fin n → K)
    (x direction : Fin n → K) (f0 slope0 tol : K) (w : WolfeSearch K) :
    WolfeStep (f (x + w.alpha • direction) ≤ f0 + decimal 1 4 * w.alpha * slope0)
      (gradF (x + w.alpha • direction) ⬝ᵥ direction ≤ decimal 9 1 * slope0) w
      (wolfeRound f gradF x direction f0 slope0 tol w) := by
  rw [wolfeRound]
  dsimp only
  split
  · exact .lower rfl rfl rfl
  next hdecrease =>
  split
  · exact .stop (not_lt.1 hdecrease) rfl
  next hsteep =>
  rcases lt_or_ge 0 (gradF (x + w.alpha • direction) ⬝ᵥ direction) with hpos | hneg
  · rw [if_pos hpos]
    split
    · exact .stop (not_lt.1 hdecrease) rfl
    · exact .lower rfl rfl rfl
  · rw [if_neg hneg.not_gt]
    split
    · exact .stop (not_lt.1 hdecrease) rfl
    · exact .raise (not_lt.1 hdecrease) (not_le.1 hsteep).le rfl rfl rfl

/-! ### The loop of both methods -/

/-- What a method remembers of the earlier rounds: the direction it takes from that, and how a step
`s` and a change `y` of the gradient are stored. -/
structure Method (M K : Type) (n : ℕ) where
  initial : M
  direction : M → (Fin n → K) → Fin n → K
  store : M → (Fin n → K) → (Fin n → K) → M

/-- The variables of the loop. -/
structure Minimizer (M K : Type) (n : ℕ) where
  x : Fin n → K
  grad : Fin n → K
  memory : M
  iterations : ℕ := 0
  functionEvals : ℕ := 1
  converged : Bool := false
  message : Option QnMessage := none

namespace Method

variable {M : Type} (method : Method M K n) (f : (Fin n → K) → K)
  (gradF : (Fin n → K) → Fin n → K) (config : QnConfig K) (huge : K)

/-- The step length and the number of evaluations. -/
def stepLength (s : Minimizer M K n) : K × ℕ :=
  if config.useLineSearch then
    wolfeLineSearch f gradF s.x (method.direction s.memory s.grad) s.grad config.lineSearchTol
      s.functionEvals
  else (1, s.functionEvals)

/-- A round of the loop. -/
def round (iter : ℕ) (s : Minimizer M K n) : Round (Minimizer M K n) :=
  if norm2Lt s.grad config.tolerance then
    .exit { s with converged := true, message := some .converged }
  else
    let step := method.stepLength f gradF config s
    let xNew := s.x + step.1 • method.direction s.memory s.grad
    let gradNew := gradF xNew
    if ¬ ∀ i, isFinite huge (xNew i) then
      .exit { s with functionEvals := step.2, message := some .notFinite }
    else
      .next { s with
        x := xNew
        grad := gradNew
        memory := method.store s.memory (xNew - s.x) (gradNew - s.grad)
        functionEvals := step.2
        iterations := iter }

/-- The variables before the loop. -/
def start (x0 : Fin n → K) : Minimizer M K n where
  x := x0
  grad := gradF x0
  memory := method.initial

/-- `bfgs_minimize` and `lbfgs_minimize`. The message of an exit without convergence is replaced. -/
def minimize (x0 : Fin n → K) : QnResult K n :=
  let s := (run (method.round f gradF config huge) config.maxIterations.toNat 1
    (method.start gradF x0)).state
  { xmin := s.x
    finalValue := f s.x
    gradientNormSq := sumSquares s.grad
    iterations := s.iterations
    functionEvals := s.functionEvals + 1
    converged := s.converged
    message := if s.converged then s.message else some .maxIterations }

variable {method f gradF config huge}

/-- What a round that goes on does to the memory. -/
theorem memory_of_round {iter : ℕ} {s t : Minimizer M K n}
    (h : method.round f gradF config huge iter s = .next t) :
    t.memory = method.store s.memory (t.x - s.x) (t.grad - s.grad) := by
  rw [round] at h
  split at h
  · cases h
  · dsimp only at h
    split at h
    · cases h
    · cases h
      rfl

/-- **What `store` keeps** holds of the memory in every round. -/
theorem memory_of_reaches {P : M → Prop} (h0 : P method.initial)
    (hstore : ∀ m d y, P m → P (method.store m d y)) {x0 : Fin n → K} {iter : ℕ}
    {s : Minimizer M K n}
    (h : Reaches (method.round f gradF config huge) 1 (method.start gradF x0) iter s) :
    P s.memory := by
  refine Reaches.invariant (I := fun _ s => P s.memory) h0 (fun _ t u ht hround => ?_) h
  rw [memory_of_round hround]
  exact hstore _ _ _ ht

theorem grad_of_reaches {x0 : Fin n → K} {iter : ℕ} {s : Minimizer M K n}
    (h : Reaches (method.round f gradF config huge) 1 (method.start gradF x0) iter s) :
    s.grad = gradF s.x ∧ s.converged = false := by
  refine Reaches.invariant (I := fun _ s => s.grad = gradF s.x ∧ s.converged = false) ⟨rfl, rfl⟩
    (fun _ t u ht hround => ?_) h
  rw [round] at hround
  dsimp only at hround
  split_ifs at hround
  cases hround
  exact ⟨rfl, ht.2⟩

variable (method f gradF config huge) in
/-- **Where a run ends**: in the state of some round, with convergence only where the gradient is
below the tolerance. -/
theorem exists_reaches_minimize (x0 : Fin n → K) :
    ∃ iter s, Reaches (method.round f gradF config huge) 1 (method.start gradF x0) iter s ∧
      (method.minimize f gradF config huge x0).xmin = s.x ∧
      (method.minimize f gradF config huge x0).gradientNormSq = sumSquares (gradF s.x) ∧
      ((method.minimize f gradF config huge x0).converged = true →
        norm2Lt (gradF s.x) config.tolerance) := by
  rw [minimize]
  dsimp only
  rcases @run_cases _ (method.round f gradF config huge) 1 (method.start gradF x0)
    config.maxIterations.toNat with ⟨s, hs, hreach⟩ | ⟨iter, s, t, ht, -, hreach, hexit⟩
  · obtain ⟨hgrad, hconverged⟩ := grad_of_reaches hreach
    rw [hs, Round.state_next, hgrad, hconverged]
    exact ⟨_, s, hreach, rfl, rfl, nofun⟩
  · obtain ⟨hgrad, hconverged⟩ := grad_of_reaches hreach
    refine ⟨iter, s, hreach, ?_⟩
    rw [ht, Round.state_exit, ← hgrad]
    rw [round] at hexit
    dsimp only at hexit
    split_ifs at hexit with hsmall
    · cases hexit
      exact ⟨rfl, rfl, fun _ => hsmall⟩
    · cases hexit
      refine ⟨rfl, rfl, fun h => ?_⟩
      exact absurd (hconverged.symm.trans h) Bool.false_ne_true

end Method

/-! ### The dense method -/

/-- `bfgs_update_hessian`. -/
def bfgsUpdateHessian (H : Matrix (Fin n) (Fin n) K) (s y : Fin n → K) (rho : K) :
    Matrix (Fin n) (Fin n) K :=
  let Hy := H *ᵥ y
  H - rho • vecMulVec Hy s - rho • vecMulVec s Hy +
    ((1 + rho * (y ⬝ᵥ Hy)) * rho) • vecMulVec s s

/-- The pair that a step is stored as, if its curvature is large enough. -/
def secantPair? [IsStrictOrderedRing K] (s y : Fin n → K) : Option (SecantPair K (Fin n)) :=
  if h : decimal 1 10 < s ⬝ᵥ y then
    some
      { s, y
        rho := 1 / (s ⬝ᵥ y)
        curvature := lt_trans (decimal_pos one_pos 10) h
        rho_eq := rfl }
  else none

theorem exists_secantPair [IsStrictOrderedRing K] {s y : Fin n → K} (h : decimal 1 10 < s ⬝ᵥ y) :
    ∃ p : SecantPair K (Fin n), secantPair? s y = some p ∧ p.s = s ∧ p.y = y :=
  ⟨_, dif_pos h, rfl, rfl⟩

/-- The memory of `bfgs_minimize`. -/
def bfgs [IsStrictOrderedRing K] : Method (Matrix (Fin n) (Fin n) K) K n where
  initial := 1
  direction H grad := -(H *ᵥ grad)
  store H s y :=
    match secantPair? s y with
    | some p => bfgsUpdateHessian H p.s p.y p.rho
    | none => H

/-- On a symmetric matrix the code's formula is the update. -/
theorem bfgsUpdateHessian_eq {H : Matrix (Fin n) (Fin n) K} (hH : H.IsSymm)
    (p : SecantPair K (Fin n)) : bfgsUpdateHessian H p.s p.y p.rho = p.update H := by
  have hy : p.y ᵥ* H = H *ᵥ p.y := by rw [← mulVec_transpose, hH.eq]
  rw [SecantPair.update, bfgsUpdateHessian, sub_mul, one_mul, mul_sub, mul_one, sub_mul,
    smul_mul_assoc, smul_mul_assoc, mul_smul_comm, mul_smul_comm, vecMulVec_mul, hy, mul_vecMulVec,
    vecMulVec_mul_vecMulVec]
  ext i j
  simp only [Matrix.add_apply, Matrix.sub_apply, Matrix.smul_apply, vecMulVec_apply, Pi.smul_apply,
    smul_eq_mul, dotProduct_comm p.y]
  ring

theorem isSymm_update {H : Matrix (Fin n) (Fin n) K} (hH : H.IsSymm)
    (p : SecantPair K (Fin n)) : (p.update H).IsSymm := by
  rw [IsSymm, SecantPair.update]
  simp only [transpose_add, transpose_mul, transpose_sub, transpose_one, transpose_smul,
    transpose_vecMulVec, hH.eq, mul_assoc]

theorem foldl_bfgsUpdateHessian (ps : List (SecantPair K (Fin n)))
    {H : Matrix (Fin n) (Fin n) K} (hH : H.IsSymm) :
    ps.foldl (fun H p => bfgsUpdateHessian H p.s p.y p.rho) H =
      ps.foldl (fun H p => p.update H) H := by
  induction ps generalizing H with
  | nil => rfl
  | cons p newer ih =>
    rw [List.foldl_cons, List.foldl_cons, bfgsUpdateHessian_eq hH, ih (isSymm_update hH p)]

section Dense

variable [IsStrictOrderedRing K]

/-- The matrices that the dense method can get to. -/
def BuiltByUpdates (H : Matrix (Fin n) (Fin n) K) : Prop :=
  H.IsSymm ∧ ∃ ps : List (SecantPair K (Fin n)),
    H = ps.foldl (fun H p => p.update H) ((1 : K) • (1 : Matrix (Fin n) (Fin n) K))

theorem builtByUpdates_store (H : Matrix (Fin n) (Fin n) K) (s y : Fin n → K)
    (h : BuiltByUpdates H) : BuiltByUpdates ((bfgs (K := K)).store H s y) := by
  obtain ⟨hsymm, ps, hps⟩ := h
  rcases hp : secantPair? s y with - | p
  · have hstore : (bfgs (K := K)).store H s y = H := by simp only [bfgs, hp]
    rw [hstore]
    exact ⟨hsymm, ps, hps⟩
  · have hstore : (bfgs (K := K)).store H s y = p.update H := by
      simp only [bfgs, hp, bfgsUpdateHessian_eq hsymm]
    rw [hstore]
    exact ⟨isSymm_update hsymm p, ps ++ [p], by rw [List.foldl_append, ← hps]; rfl⟩

theorem BuiltByUpdates.pos {H : Matrix (Fin n) (Fin n) K} (h : BuiltByUpdates H) {v : Fin n → K}
    (hv : v ≠ 0) : 0 < v ⬝ᵥ (H *ᵥ v) := by
  obtain ⟨-, ps, hps⟩ := h
  rw [hps]
  exact dot_foldl_update_pos ps one_pos hv

/-- A step that is stored is what the new matrix makes of the change of the gradient. -/
theorem store_mulVec {H : Matrix (Fin n) (Fin n) K} (hH : H.IsSymm) {s y : Fin n → K}
    (hcurvature : decimal 1 10 < s ⬝ᵥ y) : (bfgs (K := K)).store H s y *ᵥ y = s := by
  obtain ⟨p, hp, rfl, rfl⟩ := exists_secantPair hcurvature
  have hstore : (bfgs (K := K)).store H p.s p.y = p.update H := by
    simp only [bfgs, hp, bfgsUpdateHessian_eq hH]
  rw [hstore, p.update_mulVec_y]

section Run

variable {f : (Fin n → K) → K} {gradF : (Fin n → K) → Fin n → K} {config : QnConfig K} {huge : K}
  {x0 : Fin n → K} {iter : ℕ} {s : Minimizer (Matrix (Fin n) (Fin n) K) K n}

theorem builtByUpdates_of_reaches
    (h : Reaches (bfgs.round f gradF config huge) 1 (bfgs.start gradF x0) iter s) :
    BuiltByUpdates s.memory :=
  Method.memory_of_reaches ⟨isSymm_one, [], (one_smul K _).symm⟩ builtByUpdates_store h

/-- **Every direction of `bfgs_minimize` is a descent direction**, in every round it gets to. -/
theorem bfgs_descent
    (h : Reaches (bfgs.round f gradF config huge) 1 (bfgs.start gradF x0) iter s)
    (hgrad : s.grad ≠ 0) : s.grad ⬝ᵥ bfgs.direction s.memory s.grad < 0 := by
  show s.grad ⬝ᵥ -(s.memory *ᵥ s.grad) < 0
  rw [dotProduct_neg, neg_lt_zero]
  exact (builtByUpdates_of_reaches h).pos hgrad

/-- **The approximation of `bfgs_minimize`**, in every round it gets to. -/
theorem bfgs_approximation
    (h : Reaches (bfgs.round f gradF config huge) 1 (bfgs.start gradF x0) iter s) :
    (s.memory.IsSymm ∧ ∀ v, v ≠ 0 → 0 < v ⬝ᵥ (s.memory *ᵥ v)) ∧
      (∀ t, bfgs.round f gradF config huge iter s = .next t →
        decimal 1 10 < (t.x - s.x) ⬝ᵥ (t.grad - s.grad) →
          t.memory *ᵥ (t.grad - s.grad) = t.x - s.x) ∧
      (s.grad ≠ 0 → s.grad ⬝ᵥ bfgs.direction s.memory s.grad < 0) := by
  have hbuilt := builtByUpdates_of_reaches h
  refine ⟨⟨hbuilt.1, fun v hv => hbuilt.pos hv⟩, fun t hround hcurvature => ?_, bfgs_descent h⟩
  rw [Method.memory_of_round hround]
  exact store_mulVec hbuilt.1 hcurvature

/-- The derivative of `x² / 8`. -/
def eighthSlope (x : Fin 1 → ℚ) : Fin 1 → ℚ := fun i => x i / 4

/-- One step from `4` with the step length 1 makes the curvature of a parabola exact. -/
theorem bfgs_approximation_parabola :
    ∃ s, Reaches (bfgs.round (fun x => x 0 ^ 2 / 8) eighthSlope { useLineSearch := false } 1000) 1
        (bfgs.start eighthSlope ![4]) 2 s ∧ s.memory = !![4] ∧
      s.memory.IsSymm ∧ s.grad ⬝ᵥ bfgs.direction s.memory s.grad < 0 := by
  have hround : ∃ t, bfgs.round (fun x => x 0 ^ 2 / 8) eighthSlope { useLineSearch := false } 1000 1
      (bfgs.start eighthSlope ![4]) = .next t ∧ t.memory = !![4] ∧ t.grad ≠ 0 := by
    rw [Method.round, if_neg (by with_unfolding_all decide)]
    dsimp only
    rw [if_neg (by with_unfolding_all decide)]
    exact ⟨_, rfl, by with_unfolding_all decide, by with_unfolding_all decide⟩
  obtain ⟨t, hround, hmemory, hgrad⟩ := hround
  have hreaches := Reaches.next .first hround
  obtain ⟨⟨hsymm, -⟩, -, hdescends⟩ := bfgs_approximation hreaches
  exact ⟨t, hreaches, hmemory, hsymm, hdescends hgrad⟩

end Run

end Dense

/-! ### The limited memory -/

/-- The history arrays with `k`, the pairs in their order: the oldest is the first. -/
structure LbfgsHistory (K : Type) [Field K] [LinearOrder K] (n m : ℕ) where
  pairs : List (SecantPair K (Fin n))
  length_le : pairs.length ≤ m

/-- `update_lbfgs_history`: on full arrays all pairs move one place down. -/
def updateLbfgsHistory [IsStrictOrderedRing K] {m : ℕ} (h : LbfgsHistory K n m)
    (s y : Fin n → K) : LbfgsHistory K n m :=
  match secantPair? s y with
  | none => h
  | some p =>
    if hm : m < h.pairs.length + 1 then
      { pairs := (h.pairs ++ [p]).drop 1
        length_le := by
          have := h.length_le
          rw [List.length_drop, List.length_append, List.length_singleton]
          omega }
    else
      { pairs := h.pairs ++ [p]
        length_le := by rw [List.length_append, List.length_singleton]; omega }

/-- The first loop, from the newest pair to the oldest: `alpha_hist` and `q`. -/
def firstLoop : List (SecantPair K (Fin n)) → (Fin n → K) → List K × (Fin n → K)
  | [], q => ([], q)
  | p :: newer, q =>
    let r := firstLoop newer q
    let alpha := p.rho * (p.s ⬝ᵥ r.2)
    (alpha :: r.1, r.2 - alpha • p.y)

/-- `gamma`, from the pair at index 1. -/
def lbfgsGamma : List (SecantPair K (Fin n)) → K
  | [] => 1
  | p :: _ => (p.s ⬝ᵥ p.y) / sumSquares p.y

/-- The second loop, from the oldest pair to the newest. -/
def secondLoop : List (SecantPair K (Fin n) × K) → (Fin n → K) → Fin n → K
  | [], direction => direction
  | x :: newer, direction =>
    let alpha := x.1.rho * (x.1.y ⬝ᵥ direction)
    secondLoop newer (direction + (x.2 - alpha) • x.1.s)

/-- The two-loop recursion. -/
def lbfgsDirection (ps : List (SecantPair K (Fin n))) (grad : Fin n → K) : Fin n → K :=
  let r := firstLoop ps grad
  secondLoop (ps.zip r.1) (-lbfgsGamma ps • r.2)

/-- The memory of `lbfgs_minimize`. As `k` is at most `m`, the loops run over all pairs. -/
def lbfgs [IsStrictOrderedRing K] (m : ℕ) : Method (LbfgsHistory K n m) K n where
  initial := { pairs := [], length_le := Nat.zero_le m }
  direction h grad := lbfgsDirection h.pairs grad
  store h s y := updateLbfgsHistory h s y

/-- `bfgs_minimize`. -/
def bfgsMinimize [IsStrictOrderedRing K] (f : (Fin n → K) → K) (gradF : (Fin n → K) → Fin n → K)
    (x0 : Fin n → K) (config : QnConfig K) (huge : K) : QnResult K n :=
  bfgs.minimize f gradF config huge x0

/-- `lbfgs_minimize`. -/
def lbfgsMinimize [IsStrictOrderedRing K] (f : (Fin n → K) → K) (gradF : (Fin n → K) → Fin n → K)
    (x0 : Fin n → K) (config : QnConfig K) (huge : K) : QnResult K n :=
  (lbfgs config.historySize.toNat).minimize f gradF config huge x0

/-- **A converged result** of either routine has a gradient below the tolerance. -/
theorem quasiNewton_nearStationary [IsStrictOrderedRing K] (f : (Fin n → K) → K)
    (gradF : (Fin n → K) → Fin n → K) (x0 : Fin n → K) (config : QnConfig K) (huge : K) :
    ((bfgsMinimize f gradF x0 config huge).converged = true →
      norm2Lt (gradF (bfgsMinimize f gradF x0 config huge).xmin) config.tolerance) ∧
    ((lbfgsMinimize f gradF x0 config huge).converged = true →
      norm2Lt (gradF (lbfgsMinimize f gradF x0 config huge).xmin) config.tolerance) := by
  constructor
  · obtain ⟨_, _, -, hx, -, hsmall⟩ := bfgs.exists_reaches_minimize f gradF config huge x0
    exact fun h => hx ▸ hsmall h
  · obtain ⟨_, _, -, hx, -, hsmall⟩ :=
      (lbfgs config.historySize.toNat).exists_reaches_minimize f gradF config huge x0
    exact fun h => hx ▸ hsmall h

/-- The matrix of the stored pairs: from `gamma` times the identity, by `bfgs_update_hessian` with
the pairs from the oldest to the newest. -/
def denseHessian (ps : List (SecantPair K (Fin n))) : Matrix (Fin n) (Fin n) K :=
  ps.foldl (fun H p => bfgsUpdateHessian H p.s p.y p.rho) (lbfgsGamma ps • 1)

theorem firstLoop_eq (ps : List (SecantPair K (Fin n))) (g : Fin n → K) :
    firstLoop ps g = (coefficients ps g, reduce ps g) := by
  induction ps with
  | nil => rfl
  | cons p newer ih =>
    rw [firstLoop, ih]
    rfl

/-- The second loop adds the coefficients with the sign `+`. -/
theorem secondLoop_eq (l : List (SecantPair K (Fin n) × K)) (d : Fin n → K) :
    secondLoop l d = sweep 1 l d := by
  induction l generalizing d with
  | nil => rfl
  | cons x newer ih =>
    have hstep : d + (x.2 - x.1.rho * (x.1.y ⬝ᵥ d)) • x.1.s =
        x.1.forward d + (1 * x.2) • x.1.s := by
      rw [SecantPair.forward]
      module
    rw [secondLoop, ih, sweep, hstep]

theorem lbfgsDirection_eq (ps : List (SecantPair K (Fin n))) (g : Fin n → K) :
    lbfgsDirection ps g =
      sweep 1 (ps.zip (coefficients ps g)) (-(lbfgsGamma ps • reduce ps g)) := by
  rw [lbfgsDirection, firstLoop_eq, secondLoop_eq, neg_smul]

/-- The direction that the recursion is meant to compute has them with the sign `-`. -/
theorem neg_denseHessian_mulVec (ps : List (SecantPair K (Fin n))) (g : Fin n → K) :
    -(denseHessian ps *ᵥ g) =
      sweep (-1) (ps.zip (coefficients ps g)) (-(lbfgsGamma ps • reduce ps g)) := by
  have hsymm : (lbfgsGamma ps • (1 : Matrix (Fin n) (Fin n) K)).IsSymm := isSymm_one.smul _
  have hzero : sweep (0 : K) (ps.zip (coefficients ps g)) (0 : Fin n → K) = 0 := by
    have h := sweep_sub (1 : K) 1 (ps.zip (coefficients ps g)) 0 0
    rw [sub_self, sub_self, sub_self] at h
    exact h.symm
  have hneg := sweep_sub (0 : K) 1 (ps.zip (coefficients ps g)) 0 (lbfgsGamma ps • reduce ps g)
  rw [hzero, zero_sub, zero_sub, zero_sub] at hneg
  rw [denseHessian, foldl_bfgsUpdateHessian ps hsymm, foldl_update_mulVec, smul_mulVec, one_mulVec,
    hneg]

/-- **How far the recursion is off.** -/
theorem lbfgsDirection_sub (ps : List (SecantPair K (Fin n))) (g : Fin n → K) :
    lbfgsDirection ps g - -(denseHessian ps *ᵥ g) = sweep 2 (ps.zip (coefficients ps g)) 0 := by
  rw [lbfgsDirection_eq, neg_denseHessian_mulVec, sweep_sub, sub_self]
  norm_num

theorem dot_lbfgsDirection (ps : List (SecantPair K (Fin n))) (g : Fin n → K) :
    g ⬝ᵥ lbfgsDirection ps g =
      energy ps g - lbfgsGamma ps * (reduce ps g ⬝ᵥ reduce ps g) := by
  rw [lbfgsDirection_eq, dot_sweep, dotProduct_neg, dotProduct_smul, smul_eq_mul]
  ring

section Signs

variable [IsStrictOrderedRing K]

theorem lbfgsGamma_pos (ps : List (SecantPair K (Fin n))) : 0 < lbfgsGamma ps := by
  cases ps with
  | nil => exact one_pos
  | cons p newer =>
    rw [lbfgsGamma, sumSquares_eq_dotProduct]
    exact div_pos p.curvature (dot_self_pos p.y_ne_zero)

/-- **When the direction descends**: what the coefficients add is smaller than what is left of the
gradient after the first loop. -/
theorem lbfgsDirection_descends_iff (ps : List (SecantPair K (Fin n))) (g : Fin n → K) :
    g ⬝ᵥ lbfgsDirection ps g < 0 ↔
      energy ps g < lbfgsGamma ps * (reduce ps g ⬝ᵥ reduce ps g) := by
  rw [dot_lbfgsDirection, sub_neg]

theorem lbfgsDirection_eq_iff (ps : List (SecantPair K (Fin n))) (g : Fin n → K) :
    lbfgsDirection ps g = -(denseHessian ps *ᵥ g) ↔ ∀ a ∈ coefficients ps g, a = 0 := by
  rw [← sub_eq_zero, lbfgsDirection_sub]
  constructor
  · intro h
    have hdot := dot_sweep (2 : K) ps g 0
    rw [h, dotProduct_zero, dotProduct_zero, zero_add] at hdot
    exact energy_eq_zero_iff.1 ((mul_eq_zero.1 hdot.symm).resolve_left two_ne_zero)
  · intro h
    exact sweep_zero (fun x hx => h x.2 (List.of_mem_zip hx).2) 2

/-- **The two-loop recursion computes the quasi-Newton direction exactly if the gradient is
orthogonal to every stored step**, and then it descends. -/
theorem lbfgsDirection_correct_iff (ps : List (SecantPair K (Fin n))) (g : Fin n → K) :
    (lbfgsDirection ps g = -(denseHessian ps *ᵥ g) ∧ (g ≠ 0 → g ⬝ᵥ lbfgsDirection ps g < 0)) ↔
      ∀ p ∈ ps, p.s ⬝ᵥ g = 0 := by
  rw [← coefficients_eq_zero_iff, lbfgsDirection_eq_iff]
  refine ⟨fun h => h.1, fun h => ⟨h, fun hg => ?_⟩⟩
  rw [lbfgsDirection_descends_iff, energy_eq_zero_iff.2 h, reduce_eq_self h]
  exact mul_pos (lbfgsGamma_pos ps) (dot_self_pos hg)

end Signs

/-- A pair along the first axis. -/
def firstAxisPair : SecantPair ℚ (Fin 2) where
  s := ![1, 0]
  y := ![1, 0]
  rho := 1
  curvature := by simp
  rho_eq := by simp

/-- Across the only stored step the direction is the intended one. -/
theorem lbfgsDirection_correct_across :
    lbfgsDirection [firstAxisPair] ![0, 1] = -(denseHessian [firstAxisPair] *ᵥ ![0, 1]) ∧
      (![0, 1] ≠ (0 : Fin 2 → ℚ) → ![0, 1] ⬝ᵥ lbfgsDirection [firstAxisPair] ![0, 1] < 0) :=
  (lbfgsDirection_correct_iff [firstAxisPair] ![0, 1]).2
    (List.forall_mem_singleton.2 (by with_unfolding_all decide))

/-- Along it the recursion returns the gradient itself: **it ascends**. -/
theorem lbfgsDirection_ascends :
    lbfgsDirection [firstAxisPair] ![1, 0] ≠ -(denseHessian [firstAxisPair] *ᵥ ![1, 0]) ∧
      0 < ![1, 0] ⬝ᵥ lbfgsDirection [firstAxisPair] ![1, 0] := by
  have hdir : lbfgsDirection [firstAxisPair] ![1, 0] = ![1, 0] := by with_unfolding_all decide
  have hdense : -(denseHessian [firstAxisPair] *ᵥ ![1, 0]) = ![-1, 0] := by
    with_unfolding_all decide
  rw [hdir, hdense]
  with_unfolding_all decide

end DistributedComputing
