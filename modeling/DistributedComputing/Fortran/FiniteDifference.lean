import DistributedComputing.Foundations.ArrayAssignments
import DistributedComputing.Foundations.PeriodicGrid
import DistributedComputing.Fortran.Constants

/-!
# Finite differences along a line

A model of `fd_derivative_1d` with its four stencils and its boundary conditions, over a field. The
interior of a line is computed by a loop; the ends are set by a routine that is called once for each
of them and decides by the index which end it is. That routine has no case for other boundary
conditions than the four, and then leaves the end as it was.

With periodic boundaries, at least two points and second-order stencils, the derivatives are the
differences of the periodic grid (`fdFirstDerivativeO2_periodic`, `fdSecondDerivativeO2_periodic`).
-/

namespace DistributedComputing

open ArrayLoops PeriodicGrid

/-- `BC_PERIODIC` -/
def bcPeriodic : ℤ := 1

/-- `BC_DIRICHLET` -/
def bcDirichlet : ℤ := 2

/-- `BC_NEUMANN` -/
def bcNeumann : ℤ := 3

/-- `BC_EXTRAPOLATE` -/
def bcExtrapolate : ℤ := 4

variable {K : Type} [Field K]

/-- `apply_bc_first_deriv` -/
def applyBcFirstDeriv (u du : Array1 K) (i : ℤ) (invDx : K) (bc : ℤ) : Option (Array1 K) :=
  let n : ℤ := u.size
  if bc = bcPeriodic then
    if i = 1 then do du.set 1 (decimal 5 1 * ((← u.get 2) - (← u.get n)) * invDx)
    else do du.set n (decimal 5 1 * ((← u.get 1) - (← u.get (n - 1))) * invDx)
  else if bc = bcDirichlet then
    if i = 1 then do du.set 1 (((← u.get 2) - (← u.get 1)) * invDx)
    else do du.set n (((← u.get n) - (← u.get (n - 1))) * invDx)
  else if bc = bcNeumann then du.set i 0
  else if bc = bcExtrapolate then
    if i = 1 then do du.set 1 (decimal 2 0 * (← du.get 2) - (← du.get 3))
    else do du.set n (decimal 2 0 * (← du.get (n - 1)) - (← du.get (n - 2)))
  else some du

/-- `apply_bc_second_deriv` -/
def applyBcSecondDeriv (u du : Array1 K) (i : ℤ) (invDx2 : K) (bc : ℤ) : Option (Array1 K) :=
  let n : ℤ := u.size
  if bc = bcPeriodic then
    if i = 1 then do du.set 1 (((← u.get n) - decimal 2 0 * (← u.get 1) + (← u.get 2)) * invDx2)
    else do du.set n (((← u.get (n - 1)) - decimal 2 0 * (← u.get n) + (← u.get 1)) * invDx2)
  else if bc = bcDirichlet then
    if i = 1 then do
      du.set 1 ((decimal 2 0 * (← u.get 1) - decimal 5 0 * (← u.get 2) +
        decimal 4 0 * (← u.get 3) - (← u.get 4)) * invDx2)
    else do
      du.set n ((decimal 2 0 * (← u.get n) - decimal 5 0 * (← u.get (n - 1)) +
        decimal 4 0 * (← u.get (n - 2)) - (← u.get (n - 3))) * invDx2)
  else if bc = bcNeumann then
    if i = 1 then do du.set 1 (((← u.get 1) - decimal 2 0 * (← u.get 2) + (← u.get 3)) * invDx2)
    else do
      du.set n (((← u.get n) - decimal 2 0 * (← u.get (n - 1)) + (← u.get (n - 2))) * invDx2)
  else if bc = bcExtrapolate then
    if i = 1 then do du.set 1 (decimal 2 0 * (← du.get 2) - (← du.get 3))
    else do du.set n (decimal 2 0 * (← du.get (n - 1)) - (← du.get (n - 2)))
  else some du

/-- `fd_first_derivative_o2` -/
def fdFirstDerivativeO2 (u du : Array1 K) (invDx : K) (bc : ℤ) : Option (Array1 K) := do
  let n : ℤ := u.size
  let du ← doLoop 2 (n - 1) (fun i du => do
    du.set i (decimal 5 1 * ((← u.get (i + 1)) - (← u.get (i - 1))) * invDx)) du
  let du ← applyBcFirstDeriv u du 1 invDx bc
  applyBcFirstDeriv u du n invDx bc

/-- The points beside the ends, where the fourth-order stencil for the first derivative does not
fit. -/
def nearBoundaryFirst (u du : Array1 K) (invDx : K) : Option (Array1 K) :=
  let n : ℤ := u.size
  if 4 ≤ n then do
    let du ← du.set 2 (decimal 5 1 * ((← u.get 3) - (← u.get 1)) * invDx)
    du.set (n - 1) (decimal 5 1 * ((← u.get n) - (← u.get (n - 2))) * invDx)
  else some du

/-- `fd_first_derivative_o4` -/
def fdFirstDerivativeO4 (u du : Array1 K) (invDx : K) (bc : ℤ) : Option (Array1 K) := do
  let n : ℤ := u.size
  let du ← doLoop 3 (n - 2) (fun i du => do
    du.set i (((← u.get (i - 2)) - decimal 8 0 * (← u.get (i - 1)) +
      decimal 8 0 * (← u.get (i + 1)) - (← u.get (i + 2))) / decimal 12 0 * invDx)) du
  let du ← nearBoundaryFirst u du invDx
  let du ← applyBcFirstDeriv u du 1 invDx bc
  applyBcFirstDeriv u du n invDx bc

/-- `fd_second_derivative_o2` -/
def fdSecondDerivativeO2 (u du : Array1 K) (invDx2 : K) (bc : ℤ) : Option (Array1 K) := do
  let n : ℤ := u.size
  let du ← doLoop 2 (n - 1) (fun i du => do
    du.set i (((← u.get (i - 1)) - decimal 2 0 * (← u.get i) + (← u.get (i + 1))) * invDx2)) du
  let du ← applyBcSecondDeriv u du 1 invDx2 bc
  applyBcSecondDeriv u du n invDx2 bc

/-- The points beside the ends, where the fourth-order stencil for the second derivative does not
fit. -/
def nearBoundarySecond (u du : Array1 K) (invDx2 : K) : Option (Array1 K) :=
  let n : ℤ := u.size
  if 4 ≤ n then do
    let du ← du.set 2 (((← u.get 1) - decimal 2 0 * (← u.get 2) + (← u.get 3)) * invDx2)
    du.set (n - 1)
      (((← u.get (n - 2)) - decimal 2 0 * (← u.get (n - 1)) + (← u.get n)) * invDx2)
  else some du

/-- `fd_second_derivative_o4` -/
def fdSecondDerivativeO4 (u du : Array1 K) (invDx2 : K) (bc : ℤ) : Option (Array1 K) := do
  let n : ℤ := u.size
  let du ← doLoop 3 (n - 2) (fun i du => do
    du.set i ((-(← u.get (i - 2)) + decimal 16 0 * (← u.get (i - 1)) -
      decimal 30 0 * (← u.get i) + decimal 16 0 * (← u.get (i + 1)) - (← u.get (i + 2))) /
        decimal 12 0 * invDx2)) du
  let du ← nearBoundarySecond u du invDx2
  let du ← applyBcSecondDeriv u du 1 invDx2 bc
  applyBcSecondDeriv u du n invDx2 bc

/-- `fd_derivative_1d` -/
def fdDerivative1d (u du : Array1 K) (dx : K) (order : ℤ) (accuracy bcType : Option ℤ) :
    Option (Array1 K) :=
  let acc := accuracy.getD 2
  let bc := bcType.getD bcPeriodic
  let invDx := 1 / dx
  let invDx2 := 1 / (dx * dx)
  if order = 1 then
    if acc = 2 then fdFirstDerivativeO2 u du invDx bc
    else if acc = 4 then fdFirstDerivativeO4 u du invDx bc
    else some (du.fill 0)
  else if order = 2 then
    if acc = 2 then fdSecondDerivativeO2 u du invDx2 bc
    else if acc = 4 then fdSecondDerivativeO4 u du invDx2 bc
    else some (du.fill 0)
  else some (du.fill 0)

/-! ### Periodic lines -/

section Periodic

variable {u : Array1 K} (hn : 2 ≤ u.size)

include hn

theorem applyBcFirstDeriv_first (du : Array1 K) (invDx : K) :
    applyBcFirstDeriv u du 1 invDx bcPeriodic =
      du.set 1 (decimal 5 1 * centralDifference u.size u.elem 1 * invDx) := by
  rw [applyBcFirstDeriv, if_pos rfl, if_pos rfl, centralDifference, next_of_ne (by omega),
    prev_first]
  simp (disch := omega) only [Array1.get_bind]
  rfl

theorem applyBcFirstDeriv_last (du : Array1 K) (invDx : K) :
    applyBcFirstDeriv u du u.size invDx bcPeriodic =
      du.set u.size (decimal 5 1 * centralDifference u.size u.elem u.size * invDx) := by
  rw [applyBcFirstDeriv, if_pos rfl, if_neg (by omega), centralDifference, next_last,
    prev_of_ne (by omega)]
  simp (disch := omega) only [Array1.get_bind]

omit hn in
theorem stencil_eq_secondDifference (n : ℤ) (f : ℤ → K) (i : ℤ) :
    f (prev n i) - decimal 2 0 * f i + f (next n i) = secondDifference n f i := by
  rw [decimal_whole, secondDifference]
  push_cast
  ring

theorem applyBcSecondDeriv_first (du : Array1 K) (invDx2 : K) :
    applyBcSecondDeriv u du 1 invDx2 bcPeriodic =
      du.set 1 (secondDifference u.size u.elem 1 * invDx2) := by
  rw [applyBcSecondDeriv, if_pos rfl, if_pos rfl, ← stencil_eq_secondDifference,
    next_of_ne (by omega), prev_first]
  simp (disch := omega) only [Array1.get_bind]
  rfl

theorem applyBcSecondDeriv_last (du : Array1 K) (invDx2 : K) :
    applyBcSecondDeriv u du u.size invDx2 bcPeriodic =
      du.set u.size (secondDifference u.size u.elem u.size * invDx2) := by
  rw [applyBcSecondDeriv, if_pos rfl, if_neg (by omega), ← stencil_eq_secondDifference, next_last,
    prev_of_ne (by omega)]
  simp (disch := omega) only [Array1.get_bind]

/-- **The first derivative** on a periodic line. -/
theorem fdFirstDerivativeO2_periodic {du : Array1 K} (hsize : du.size = u.size) (invDx : K) :
    Returns (fdFirstDerivativeO2 u du invDx bcPeriodic) fun du' =>
      du'.Tabulates u.size fun i => decimal 5 1 * centralDifference u.size u.elem i * invDx := by
  rw [fdFirstDerivativeO2]
  simp only [applyBcFirstDeriv_first hn, applyBcFirstDeriv_last hn]
  refine Array1.returns_interior_ends (by omega) hsize (fun i a h2 hi => ?_) rfl rfl
  rw [centralDifference, next_of_ne (by omega), prev_of_ne (by omega)]
  simp (disch := omega) only [Array1.get_bind]

theorem fdSecondDerivativeO2_periodic {du : Array1 K} (hsize : du.size = u.size) (invDx2 : K) :
    Returns (fdSecondDerivativeO2 u du invDx2 bcPeriodic) fun du' =>
      du'.Tabulates u.size fun i => secondDifference u.size u.elem i * invDx2 := by
  rw [fdSecondDerivativeO2]
  simp only [applyBcSecondDeriv_first hn, applyBcSecondDeriv_last hn]
  refine Array1.returns_interior_ends (by omega) hsize (fun i a h2 hi => ?_) rfl rfl
  rw [← stencil_eq_secondDifference, next_of_ne (by omega), prev_of_ne (by omega)]
  simp (disch := omega) only [Array1.get_bind]

end Periodic

end DistributedComputing
