import Mathlib.LinearAlgebra.Matrix.Notation
import DistributedComputing.Foundations.BoundedLoops
import DistributedComputing.Fortran.NumericUtils

/-!
# Projected gradient descent

A model of `projected_gradient_minimize` of `constrained.f90`, over an ordered field in place of
`real(wp)`. The bounds are a `Box`, so that a lower bound is below its upper one.

Every point the routine gets to is a projection, so the result lies in the box
(`inBox_projectedGradientMinimize`). What convergence says about it depends on `project_gradient`,
which sets components of the gradient to zero at a bound. The step goes **against** the gradient, so
the component that cannot be followed at a lower bound is a positive one. The routine drops the
negative one there, and at an upper bound the positive one: those along which the objective still
decreases inside the box. So whether converged results are first-order points is a question about
the gradient near the bounds (`firstOrder_iff`).
-/

namespace DistributedComputing

open Matrix BoundedLoop

variable {K : Type} [Field K] [LinearOrder K] {n : ℕ}

/-- `lower` and `upper`. -/
structure Box (K : Type) [LinearOrder K] (n : ℕ) where
  lower : Fin n → K
  upper : Fin n → K
  lower_lt_upper : ∀ i, lower i < upper i

/-- The part of `constrained_config_t` that the routine reads. -/
structure ConstrainedConfig (K : Type) [Field K] where
  learningRate : K := decimal 1 2
  tolerance : K := decimal 1 6
  maxIterations : ℤ := 10000
  useLineSearch : Bool := true

/-- The values of `message`. -/
inductive ConstrainedMessage
  | converged
  | notFinite
  | maxIterations
  deriving DecidableEq, Repr

/-- `constrained_result_t`, with the square of `gradient_norm`, and `xmin`. -/
structure ConstrainedResult (K : Type) (n : ℕ) where
  xmin : Fin n → K
  finalValue : K
  gradientNormSq : K
  constraintViolation : K
  iterations : ℕ
  functionEvals : ℕ
  converged : Bool
  message : Option ConstrainedMessage

/-- `active_tol`. -/
def activeTol : K := decimal 1 10

/-- The variables of the loop. -/
structure ProjectedDescent (K : Type) (n : ℕ) where
  x : Fin n → K
  iterations : ℕ := 0
  functionEvals : ℕ := 0
  converged : Bool := false
  message : Option ConstrainedMessage := none

namespace Box

variable (box : Box K n)

/-- A point of the box. -/
def Contains (x : Fin n → K) : Prop := ∀ i, box.lower i ≤ x i ∧ x i ≤ box.upper i

/-- The component is within `active_tol` of its lower bound. -/
def NearLower (x : Fin n → K) (i : Fin n) : Prop := |x i - box.lower i| < activeTol

/-- The component is within `active_tol` of its upper bound. -/
def NearUpper (x : Fin n → K) (i : Fin n) : Prop := |x i - box.upper i| < activeTol

instance (x : Fin n → K) (i : Fin n) : Decidable (box.NearLower x i) :=
  inferInstanceAs (Decidable (_ < _))

instance (x : Fin n → K) (i : Fin n) : Decidable (box.NearUpper x i) :=
  inferInstanceAs (Decidable (_ < _))

/-- `project_onto_box`. -/
def projectOntoBox (x : Fin n → K) : Fin n → K :=
  fun i => clip (x i) (box.lower i) (box.upper i)

/-- `project_gradient`. -/
def projectGradient (x grad : Fin n → K) : Fin n → K := fun i =>
  let gradProj := if box.NearLower x i ∧ grad i < 0 then 0 else grad i
  if box.NearUpper x i ∧ grad i > 0 then 0 else gradProj

/-- `projected_line_search`: the step length, and the number of evaluations. -/
def projectedLineSearch (f : (Fin n → K) → K) (x grad : Fin n → K) (funcEvals : ℕ) : K × ℕ :=
  (run (fun _ (w : K × ℕ) =>
    let xNew := box.projectOntoBox (x - w.1 • grad)
    if f xNew ≤ f x - decimal 1 4 * w.1 * (grad ⬝ᵥ grad) then .exit (w.1, w.2 + 1)
    else .next (decimal 5 1 * w.1, w.2 + 1)) 20 1 (1, funcEvals + 1)).state

section Minimize

variable (f : (Fin n → K) → K) (gradF : (Fin n → K) → Fin n → K) (config : ConstrainedConfig K)
  (huge : K)

/-- A round of the loop. -/
def round (iter : ℕ) (s : ProjectedDescent K n) : Round (ProjectedDescent K n) :=
  let grad := box.projectGradient s.x (gradF s.x)
  if norm2Lt grad config.tolerance then
    .exit { s with converged := true, message := some .converged }
  else
    let step := if config.useLineSearch then box.projectedLineSearch f s.x grad s.functionEvals
      else (config.learningRate, s.functionEvals)
    let xNew := box.projectOntoBox (s.x - step.1 • grad)
    if ¬ ∀ i, isFinite huge (xNew i) then
      .exit { s with functionEvals := step.2, message := some .notFinite }
    else .next { s with x := xNew, functionEvals := step.2, iterations := iter }

/-- The variables after the loop. -/
def descend (x0 : Fin n → K) : ProjectedDescent K n :=
  (run (box.round f gradF config huge) config.maxIterations.toNat 1
    { x := box.projectOntoBox x0 }).state

/-- `projected_gradient_minimize`. The message of an exit without convergence is replaced. -/
def projectedGradientMinimize (x0 : Fin n → K) : ConstrainedResult K n :=
  let s := box.descend f gradF config huge x0
  { xmin := s.x
    finalValue := f s.x
    gradientNormSq := sumSquares (gradF s.x)
    constraintViolation := 0
    iterations := s.iterations
    functionEvals := s.functionEvals + 2
    converged := s.converged
    message := if s.converged then s.message else some .maxIterations }

end Minimize

/-! ### Points of the box -/

omit [Field K] in
theorem contains_projectOntoBox (x : Fin n → K) : box.Contains (box.projectOntoBox x) := fun i =>
  ⟨le_clip _ _ _, clip_le (box.lower_lt_upper i).le _⟩

variable {box} {f : (Fin n → K) → K} {gradF : (Fin n → K) → Fin n → K}
  {config : ConstrainedConfig K} {huge : K}

omit [Field K] in
theorem projectOntoBox_of_contains {x : Fin n → K} (h : box.Contains x) :
    box.projectOntoBox x = x :=
  funext fun i => (congrArg _ (min_eq_right (h i).2)).trans (max_eq_right (h i).1)

theorem contains_of_next {iter : ℕ} {s u : ProjectedDescent K n}
    (h : box.round f gradF config huge iter s = .next u) :
    box.Contains u.x ∧ u.converged = s.converged := by
  rw [round] at h
  dsimp only at h
  split_ifs at h
  all_goals
    cases h
    exact ⟨box.contains_projectOntoBox _, rfl⟩

/-- A round that ends the loop leaves the point, and has converged only if the test was passed. -/
theorem tested_of_exit {iter : ℕ} {s u : ProjectedDescent K n}
    (h : box.round f gradF config huge iter s = .exit u) :
    u.x = s.x ∧ (u.converged = s.converged ∨
      norm2Lt (box.projectGradient s.x (gradF s.x)) config.tolerance) := by
  rw [round] at h
  dsimp only at h
  split_ifs at h with hnorm
  · cases h
    exact ⟨rfl, .inr hnorm⟩
  all_goals
    cases h
    exact ⟨rfl, .inl rfl⟩

/-- **The loop ends in the box**, and with convergence only where the projected gradient is below
the tolerance. -/
theorem descend_spec (x0 : Fin n → K) :
    box.Contains (box.descend f gradF config huge x0).x ∧
      ((box.descend f gradF config huge x0).converged = true →
        norm2Lt (box.projectGradient (box.descend f gradF config huge x0).x
          (gradF (box.descend f gradF config huge x0).x)) config.tolerance) := by
  refine state_run (I := fun s : ProjectedDescent K n => box.Contains s.x ∧ s.converged = false)
    (P := fun s : ProjectedDescent K n => box.Contains s.x ∧ (s.converged = true →
      norm2Lt (box.projectGradient s.x (gradF s.x)) config.tolerance))
    ⟨box.contains_projectOntoBox x0, rfl⟩ (fun _ s u hs hround => ?_) (fun _ s u hs hround => ?_)
    (fun s hs => ⟨hs.1, fun hconv => ?_⟩) _
  · obtain ⟨hbox, hconv⟩ := contains_of_next hround
    exact ⟨hbox, hconv.trans hs.2⟩
  · obtain ⟨hx, hconv | hnorm⟩ := tested_of_exit hround
    · refine ⟨hx ▸ hs.1, fun hu => ?_⟩
      rw [hconv, hs.2] at hu
      cases hu
    · rw [hx]
      exact ⟨hs.1, fun _ => hnorm⟩
  · rw [hs.2] at hconv
    cases hconv

theorem inBox_projectedGradientMinimize (x0 : Fin n → K) :
    box.Contains (box.projectedGradientMinimize f gradF config huge x0).xmin :=
  (descend_spec x0).1

/-! ### First-order points -/

/-- No component can be moved inside the box such that the objective decreases at a rate of `tol` or
more. -/
def FirstOrder (box : Box K n) (tol : K) (x grad : Fin n → K) : Prop :=
  ∀ i, (¬ box.NearUpper x i → -grad i < tol) ∧ (¬ box.NearLower x i → grad i < tol)

/-- No component at one bound only has a gradient of `tol` or more that leads away from it. -/
def NoInwardSlope (box : Box K n) (tol : K) (x grad : Fin n → K) : Prop :=
  ∀ i, (box.NearLower x i → tol ≤ -grad i → box.NearUpper x i) ∧
    (box.NearUpper x i → tol ≤ grad i → box.NearLower x i)

theorem FirstOrder.noInwardSlope {tol : K} {x grad : Fin n → K}
    (h : box.FirstOrder tol x grad) : box.NoInwardSlope tol x grad := by
  refine fun i => ⟨fun _ htol => ?_, fun _ htol => ?_⟩
  · by_contra hupper
    exact absurd ((h i).1 hupper) htol.not_gt
  · by_contra hlower
    exact absurd ((h i).2 hlower) htol.not_gt

/-- A negative component is kept away from the lower bound. -/
theorem projectGradient_of_neg {x grad : Fin n → K} {i : Fin n} (hlower : ¬ box.NearLower x i)
    (hgrad : grad i < 0) : box.projectGradient x grad i = grad i := by
  rw [projectGradient, if_neg fun h => hgrad.not_gt h.2, if_neg fun h => hlower h.1]

theorem projectGradient_of_pos {x grad : Fin n → K} {i : Fin n} (hupper : ¬ box.NearUpper x i)
    (hgrad : 0 < grad i) : box.projectGradient x grad i = grad i := by
  rw [projectGradient, if_neg fun h => hupper h.1, if_neg fun h => hgrad.not_gt h.2]

theorem descend_of_tested (box : Box K n) (f : (Fin n → K) → K)
    (gradF : (Fin n → K) → Fin n → K) (config : ConstrainedConfig K) (huge : K) {x0 : Fin n → K}
    (hiter : 1 ≤ config.maxIterations) (hx0 : box.Contains x0)
    (h : norm2Lt (box.projectGradient x0 (gradF x0)) config.tolerance) :
    box.descend f gradF config huge x0 =
      { x := x0, converged := true, message := some .converged } := by
  have hround : box.round f gradF config huge 1 { x := x0 } =
      .exit { x := x0, converged := true, message := some .converged } := by
    rw [round]
    dsimp only
    rw [if_pos h]
  rw [descend, projectOntoBox_of_contains hx0, run_of_exit (by omega) hround, Round.state_exit]

section Ordered

variable [IsStrictOrderedRing K]

/-- **A small projected gradient makes a first-order point**, if no slope leads inwards from a
bound. -/
theorem NoInwardSlope.firstOrder {tol : K} {x grad : Fin n → K}
    (h : box.NoInwardSlope tol x grad) (hnorm : norm2Lt (box.projectGradient x grad) tol) :
    box.FirstOrder tol x grad := by
  have htol : 0 < tol := hnorm.1
  refine fun i => ⟨fun hupper => ?_, fun hlower => ?_⟩
  · by_contra hge
    have hle : tol ≤ -grad i := not_lt.1 hge
    have hlower : ¬ box.NearLower x i := fun hl => hupper ((h i).1 hl hle)
    have hkept := projectGradient_of_neg hlower (show grad i < 0 by linarith)
    have hsmall := neg_lt_of_abs_lt (abs_lt_of_norm2Lt hnorm i)
    rw [hkept] at hsmall
    linarith
  · by_contra hge
    have hle : tol ≤ grad i := not_lt.1 hge
    have hupper : ¬ box.NearUpper x i := fun hu => hlower ((h i).2 hu hle)
    have hkept := projectGradient_of_pos hupper (htol.trans_le hle)
    have hsmall := lt_of_abs_lt (abs_lt_of_norm2Lt hnorm i)
    rw [hkept] at hsmall
    linarith

/-- **When converged results are first-order points**, from every start: exactly if no point of the
box with a small projected gradient has a slope that leads inwards from a bound, or there is no
round. All results lie in the box. -/
theorem firstOrder_iff (box : Box K n) (f : (Fin n → K) → K) (gradF : (Fin n → K) → Fin n → K)
    (config : ConstrainedConfig K) (huge : K) :
    (∀ x0, box.Contains (box.projectedGradientMinimize f gradF config huge x0).xmin ∧
      ((box.projectedGradientMinimize f gradF config huge x0).converged = true →
        box.FirstOrder config.tolerance (box.projectedGradientMinimize f gradF config huge x0).xmin
          (gradF (box.projectedGradientMinimize f gradF config huge x0).xmin))) ↔
      (1 ≤ config.maxIterations → ∀ x, box.Contains x →
        norm2Lt (box.projectGradient x (gradF x)) config.tolerance →
          box.NoInwardSlope config.tolerance x (gradF x)) := by
  constructor
  · -- such a point is a start from which the routine converges at once
    intro h hiter x hx hnorm
    have hfirst := (h x).2
    rw [projectedGradientMinimize, descend_of_tested box f gradF config huge hiter hx hnorm]
      at hfirst
    exact (hfirst rfl).noInwardSlope
  · intro h x0
    refine ⟨inBox_projectedGradientMinimize x0, fun hconv => ?_⟩
    have hnorm := (descend_spec x0).2 hconv
    refine (h ?_ _ (inBox_projectedGradientMinimize x0) hnorm).firstOrder hnorm
    by_contra hiter
    rw [projectedGradientMinimize, descend, Int.toNat_of_nonpos (by omega)] at hconv
    cases hconv

end Ordered

/-! ### Two runs -/

/-- The interval from 0 to 1. -/
def unitInterval : Box ℚ 1 where
  lower := ![0]
  upper := ![1]
  lower_lt_upper i := by rw [Subsingleton.elim i 0]; exact one_pos

/-- A run on a parabola that opens downwards, from its top inside the interval. -/
def ridgeRun : ConstrainedResult ℚ 1 :=
  unitInterval.projectedGradientMinimize (fun x => -sumSquares (x - ![1 / 2]))
    (fun x i => 1 - 2 * x i) {} hugeWp ![1 / 2]

/-- A run on `-x`, from the lower bound. -/
def descendingRun : ConstrainedResult ℚ 1 :=
  unitInterval.projectedGradientMinimize (fun x => -∑ i, x i) (fun _ _ => -1) {} hugeWp ![0]

theorem contains_unitInterval {a : ℚ} (h0 : 0 ≤ a) (h1 : a ≤ 1) : unitInterval.Contains ![a] := by
  intro i
  rw [Subsingleton.elim i 0]
  exact ⟨h0, h1⟩

/-- The slopes of this parabola lead outwards at both bounds. -/
theorem firstOrder_ridge :
    ridgeRun.converged = true ∧ unitInterval.Contains ridgeRun.xmin ∧
      unitInterval.FirstOrder (decimal 1 6) ridgeRun.xmin fun i => 1 - 2 * ridgeRun.xmin i := by
  have hconverged : ridgeRun.converged = true := by
    have hrun := descend_of_tested unitInterval (fun x => -sumSquares (x - ![1 / 2]))
      (fun x i => 1 - 2 * x i) {} hugeWp (by decide)
      (contains_unitInterval (a := 1 / 2) (by norm_num) (by norm_num))
      (by norm_num [norm2Lt, sumSquares, projectGradient, decimal])
    rw [ridgeRun, projectedGradientMinimize, hrun]
  have hall := (firstOrder_iff unitInterval (fun x => -sumSquares (x - ![1 / 2]))
    (fun x i => 1 - 2 * x i) {} hugeWp).2 fun _ x _ _ i => ?_
  · exact ⟨hconverged, (hall ![1 / 2]).1, (hall ![1 / 2]).2 hconverged⟩
  · rw [Subsingleton.elim i 0]
    refine ⟨fun hnear hslope => absurd hslope ?_, fun hnear hslope => absurd hslope ?_⟩
    · have hx := (abs_lt.1 hnear).2
      norm_num [unitInterval, activeTol, decimal] at hx ⊢
      linarith
    · have hx := (abs_lt.1 hnear).1
      norm_num [unitInterval, activeTol, decimal] at hx ⊢
      linarith

/-- On `-x` the routine stops where it starts, at the lower bound: **it reports convergence at the
maximum**. -/
theorem converged_at_maximum :
    descendingRun.converged = true ∧ descendingRun.xmin = ![0] ∧
      ¬ unitInterval.FirstOrder (decimal 1 6) descendingRun.xmin fun _ => -1 := by
  have hrun := descend_of_tested unitInterval (fun x => -∑ i, x i) (fun _ _ => -1) {} hugeWp
    (by decide) (contains_unitInterval le_rfl zero_le_one)
    (by norm_num [norm2Lt, sumSquares, projectGradient, NearLower, NearUpper, unitInterval,
      activeTol, decimal])
  have hxmin : descendingRun.xmin = ![0] := by
    rw [descendingRun, projectedGradientMinimize, hrun]
  refine ⟨by rw [descendingRun, projectedGradientMinimize, hrun], hxmin, fun h => ?_⟩
  rw [hxmin] at h
  have hslope := (h 0).1
  norm_num [NearUpper, unitInterval, activeTol, decimal] at hslope

end Box

end DistributedComputing
