import Mathlib.Analysis.SpecialFunctions.Pow.Real
import DistributedComputing.Foundations.ArrayLoops
import DistributedComputing.Fortran.NumericUtils

/-!
# The adaptive Dormand-Prince method

A model of `dormand_prince.f90`, over an ordered field in place of `real(wp)`. As for the method
with a fixed step, `t_out` and `y_out` are one array of columns, whose indices are checked; the
square root and the fifth root are parameters.

The driver is modelled for an arbitrary step routine (`Dopri.step`), which may return any error norm
at any step; `Dopri.ofFunc` is the driver with the routines of the module.

**The bookkeeping** rests on one invariant, `Dopri.Running`: the step length is positive and the
time is before the end. The scale factor is at least `0.2`, so rejected steps keep it; a step that
would pass the end is shortened to it, so an accepted step passes no further. The accepted times are
kept in a list beside the variables of the loop, and the output is compared with it
(`Dopri.Stored`). `solve_consistent` puts this together.

**The tolerances** are another matter: `dopri_step` has no argument for them, and the error norm
that decides on a step is computed with constants. They are the default values of the configuration,
and `honoursTolerances_iff` says that with any other the test is not the one that is configured. For
the proof, a right-hand side that depends on the time alone gives any error (`exists_update_eq`).
-/

namespace DistributedComputing

open ArrayLoops

variable {K : Type} [Field K]

/-- The status codes that are used. -/
inductive DopriCode
  | success
  | maxSteps
  | invalidArg
  | stepTooSmall
  deriving DecidableEq, Repr

/-- `dopri_config_t` -/
structure DopriConfig (K : Type) [Field K] where
  rtol : K := decimal 1 6
  atol : K := decimal 1 8
  dtInit : K := 0
  dtMax : K := hugeWp
  dtMin : K := 0
  safety : K := decimal 9 1
  maxSteps : ℤ := 100000
  denseOutput : Bool := false

/-- `dopri_status_t` -/
structure DopriStatus (K : Type) [Field K] where
  code : DopriCode := .success
  stepsTaken : ℤ := 0
  stepsAccepted : ℤ := 0
  stepsRejected : ℤ := 0
  funcEvals : ℤ := 0
  finalTime : K := 0
  finalStepSize : K := 0

/-! ### The step -/

namespace Tableau

def a2 : K := decimal 1 0 / decimal 5 0
def a3 : K := decimal 3 0 / decimal 10 0
def a4 : K := decimal 4 0 / decimal 5 0
def a5 : K := decimal 8 0 / decimal 9 0

def b21 : K := decimal 1 0 / decimal 5 0
def b31 : K := decimal 3 0 / decimal 40 0
def b32 : K := decimal 9 0 / decimal 40 0
def b41 : K := decimal 44 0 / decimal 45 0
def b42 : K := -decimal 56 0 / decimal 15 0
def b43 : K := decimal 32 0 / decimal 9 0
def b51 : K := decimal 19372 0 / decimal 6561 0
def b52 : K := -decimal 25360 0 / decimal 2187 0
def b53 : K := decimal 64448 0 / decimal 6561 0
def b54 : K := -decimal 212 0 / decimal 729 0
def b61 : K := decimal 9017 0 / decimal 3168 0
def b62 : K := -decimal 355 0 / decimal 33 0
def b63 : K := decimal 46732 0 / decimal 5247 0
def b64 : K := decimal 49 0 / decimal 176 0
def b65 : K := -decimal 5103 0 / decimal 18656 0

def c1 : K := decimal 35 0 / decimal 384 0
def c3 : K := decimal 500 0 / decimal 1113 0
def c4 : K := decimal 125 0 / decimal 192 0
def c5 : K := -decimal 2187 0 / decimal 6784 0
def c6 : K := decimal 11 0 / decimal 84 0
def c7 : K := decimal 0 0

def d1 : K := decimal 5179 0 / decimal 57600 0
def d3 : K := decimal 7571 0 / decimal 16695 0
def d4 : K := decimal 393 0 / decimal 640 0
def d5 : K := -decimal 92097 0 / decimal 339200 0
def d6 : K := decimal 187 0 / decimal 2100 0
def d7 : K := decimal 1 0 / decimal 40 0

def e1 : K := c1 - d1
def e3 : K := c3 - d3
def e4 : K := c4 - d4
def e5 : K := c5 - d5
def e6 : K := c6 - d6
def e7 : K := c7 - d7

end Tableau

section Step

variable {n : ℕ}

open Tableau in
/-- The first part of `dopri_step`: the solution of order five, and the error estimate. -/
def dopriUpdate (func : K → (Fin n → K) → Fin n → K) (t : K) (y : Fin n → K) (dt : K) :
    (Fin n → K) × (Fin n → K) :=
  let k1 := func t y
  let k2 := func (t + a2 * dt) fun i => y i + dt * b21 * k1 i
  let k3 := func (t + a3 * dt) fun i => y i + dt * (b31 * k1 i + b32 * k2 i)
  let k4 := func (t + a4 * dt) fun i => y i + dt * (b41 * k1 i + b42 * k2 i + b43 * k3 i)
  let k5 := func (t + a5 * dt) fun i =>
    y i + dt * (b51 * k1 i + b52 * k2 i + b53 * k3 i + b54 * k4 i)
  let k6 := func (t + dt) fun i =>
    y i + dt * (b61 * k1 i + b62 * k2 i + b63 * k3 i + b64 * k4 i + b65 * k5 i)
  let yNew := fun i => y i + dt * (c1 * k1 i + c3 * k3 i + c4 * k4 i + c5 * k5 i + c6 * k6 i)
  let k7 := func (t + dt) yNew
  (yNew, fun i =>
    dt * (e1 * k1 i + e3 * k3 i + e4 * k4 i + e5 * k5 i + e6 * k6 i + e7 * k7 i))

variable [LinearOrder K]

/-- The mean over the components of the squares of the errors, relative to the tolerances. -/
def meanSquare (atol rtol : K) (y yNew error : Fin n → K) : K :=
  (∑ i, (error i / (atol + rtol * max |y i| |yNew i|)) ^ 2) / n

/-- `dopri_step`, with the new state and the error norm. -/
def dopriStep (sqrt : K → K) (func : K → (Fin n → K) → Fin n → K) (t : K) (y : Fin n → K) (dt : K) :
    (Fin n → K) × K :=
  let out := dopriUpdate func t y dt
  (out.1, sqrt (meanSquare (decimal 1 8) (decimal 1 6) y out.1 out.2))

/-- `estimate_initial_step`, where `root5` is the power with the exponent `1.0_wp / 5.0_wp`. -/
def estimateInitialStep (sqrt root5 : K → K) (func : K → (Fin n → K) → Fin n → K) (t0 : K)
    (y0 : Fin n → K) (tf rtol atol : K) : K :=
  let f0 := func t0 y0
  let scale := atol + rtol * (List.ofFn fun i => |y0 i|).foldl max 0
  let d0 := sqrt ((∑ i, (y0 i / scale) ^ 2) / n)
  let d1 := sqrt ((∑ i, (f0 i / scale) ^ 2) / n)
  let dt := if d0 < decimal 1 5 ∨ d1 < decimal 1 5 then decimal 1 6 * |tf - t0|
    else decimal 1 2 * d0 / d1
  let f1 := func (t0 + dt) (y0 + dt • f0)
  let d2 := sqrt ((∑ i, ((f1 i - f0 i) / scale) ^ 2) / n) / dt
  let dt := if max d1 d2 ≤ decimal 1 15 then max (decimal 1 6 * |tf - t0|) (dt * decimal 1 3)
    else root5 (decimal 1 2 / max d1 d2)
  min (decimal 100 0 * dt) |tf - t0|

end Step

/-! ### The driver -/

variable {n : ℕ}

/-- The arguments of `dopri_solve`, and what it uses: the estimate of the first step length, the
routine for step `k`, the power with the exponent `0.2_wp`, and what the output arrays of a given
size contain when they are allocated. -/
structure Dopri (K : Type) [Field K] (n : ℕ) where
  t0 : K
  tf : K
  y0 : Fin n → K
  config : DopriConfig K
  estimate : K
  step : ℤ → K → (Fin n → K) → K → (Fin n → K) × K
  root5 : K → K
  undefined : ℤ → ℤ → K × (Fin n → K)

/-- The variables of `dopri_solve`. Nothing reads `accepted`: it lists the accepted steps, by their
number and the time they have led to. -/
structure DopriState (K : Type) [Field K] (n : ℕ) where
  t : K
  dt : K
  y : Fin n → K
  status : DopriStatus K := {}
  outputIdx : ℤ := 1
  maxOutputs : ℤ
  columns : Array1 (K × (Fin n → K))
  accepted : List (ℤ × K) := []

/-- What `dopri_solve` returns, with the accepted steps. -/
structure DopriResult (K : Type) [Field K] (n : ℕ) where
  status : DopriStatus K
  columns : Option (Array1 (K × (Fin n → K)))
  accepted : List (ℤ × K)

namespace Dopri

variable (b : Dopri K n)

/-- The variables after an accepted step, with the output still to be stored. -/
def advance (yNew : Fin n → K) (s : DopriState K n) : DopriState K n :=
  { s with
    t := s.t + s.dt
    y := yNew
    status.stepsAccepted := s.status.stepsAccepted + 1
    accepted := s.accepted ++ [(s.status.stepsTaken, s.t + s.dt)] }

/-- The output arrays with the current time and state behind the columns that are filled. If there
is no space, the arrays get the new size. -/
def append (newSize : ℤ) (s : DopriState K n) : Option (Array1 (K × (Fin n → K))) :=
  if s.outputIdx + 1 > s.maxOutputs then do
    let columns ← s.columns.resize newSize (b.undefined newSize)
    columns.set (s.outputIdx + 1) (s.t, s.y)
  else s.columns.set (s.outputIdx + 1) (s.t, s.y)

/-- Accept a step. -/
def accept (yNew : Fin n → K) (s : DopriState K n) : Option (DopriState K n) :=
  let s := advance yNew s
  if b.config.denseOutput then do
    let columns ← b.append (s.maxOutputs * 2) s
    some
      { s with
        columns
        outputIdx := s.outputIdx + 1
        maxOutputs := if s.outputIdx + 1 > s.maxOutputs then s.maxOutputs * 2 else s.maxOutputs }
  else some s

variable [LinearOrder K]

/-- The step length, without passing the end. -/
def clipped (s : DopriState K n) : K := if s.t + s.dt > b.tf then b.tf - s.t else s.dt

/-- `step_accepted` -/
def StepAccepted (step : ℤ) (s : DopriState K n) : Prop :=
  (b.step step s.t s.y (b.clipped s)).2 ≤ 1

instance (step : ℤ) (s : DopriState K n) : Decidable (b.StepAccepted step s) :=
  inferInstanceAs (Decidable (_ ≤ _))

/-- `dt_min`, which depends on the time span by default. -/
def dtMin : K :=
  if b.config.dtMin ≤ 0 then decimal 1 12 * |b.tf - b.t0| else b.config.dtMin

/-- `scale_factor` -/
def scaleFactor (errorNorm : K) : K :=
  min (decimal 5 0)
    (max (decimal 2 1) (b.config.safety * b.root5 (decimal 1 0 / max errorNorm (decimal 1 10))))

/-- Adjust the step length for the next round, which there is unless it has become too small. -/
def rescale (errorNorm : K) (s : DopriState K n) : Except (DopriState K n) (DopriState K n) :=
  let dt := min (s.dt * b.scaleFactor errorNorm) b.config.dtMax
  if dt < b.dtMin then
    .error
      { s with
        dt
        status.code := .stepTooSmall
        status.finalTime := s.t
        status.finalStepSize := dt }
  else .ok { s with dt }

/-- The variables when the step of a round has been made. -/
def stepped (step : ℤ) (s : DopriState K n) : DopriState K n :=
  { s with
    dt := b.clipped s
    status.stepsTaken := step
    status.funcEvals := s.status.funcEvals + 7 }

/-- A round of the integration loop. -/
def round (step : ℤ) (s : DopriState K n) :
    Option (Except (DopriState K n) (DopriState K n)) :=
  let out := b.step step s.t s.y (b.clipped s)
  if b.StepAccepted step s then do
    let s ← b.accept out.1 (b.stepped step s)
    if |s.t - b.tf| < machineEpsilon then
      some (.error
        { s with
          status.code := .success
          status.finalTime := s.t
          status.finalStepSize := s.dt })
    else some (b.rescale out.2 s)
  else
    let s := b.stepped step s
    some (b.rescale out.2 { s with status.stepsRejected := s.status.stepsRejected + 1 })

/-- The test for the limit of the steps. -/
def checkLimit (s : DopriState K n) : DopriStatus K :=
  if s.status.code = .success ∧ |s.t - b.tf| ≥ machineEpsilon then
    { s.status with code := .maxSteps, finalTime := s.t }
  else s.status

/-- The output arrays with the final point, which may be there already. -/
def finish (s : DopriState K n) : Option (Array1 (K × (Fin n → K))) := do
  let last ← s.columns.get s.outputIdx
  if b.config.denseOutput = false ∨ |last.1 - s.t| > machineEpsilon then do
    let columns ← b.append (s.outputIdx + 1) s
    columns.slice (s.outputIdx + 1)
  else s.columns.slice s.outputIdx

/-- What is done after the loop. -/
def afterLoop (s : DopriState K n) : Option (DopriResult K n) := do
  let columns ← b.finish s
  some { status := b.checkLimit s, columns := some columns, accepted := s.accepted }

/-- The variables before the loop. -/
def start (columns : Array1 (K × (Fin n → K))) : DopriState K n where
  t := b.t0
  dt := min (if b.config.dtInit > 0 then b.config.dtInit else b.estimate) b.config.dtMax
  y := b.y0
  maxOutputs := min 10000 b.config.maxSteps
  columns := columns

/-- `dopri_solve` -/
def solve : Option (DopriResult K n) :=
  if b.tf ≤ b.t0 ∨ n = 0 ∨ b.config.rtol ≤ 0 ∨ b.config.atol < 0 then
    some { status := { code := .invalidArg }, columns := none, accepted := [] }
  else do
    let maxOutputs := min 10000 b.config.maxSteps
    let columns ← (Array1.allocate maxOutputs (b.undefined maxOutputs)).set 1 (b.t0, b.y0)
    let out ← doLoop 1 b.config.maxSteps (leaving b.round) (.ok (b.start columns))
    match out with
    | .ok s => b.afterLoop s
    | .error s => b.afterLoop s

/-- The start and the accepted times, in order. -/
def times (accepted : List (ℤ × K)) : List K := b.t0 :: accepted.map Prod.snd

/-- **Consistent bookkeeping.** That the run ends with an accepted step says that the number of this
step is the number of steps taken. -/
structure Consistent (r : DopriResult K n) : Prop where
  steps_eq : r.status.stepsTaken = r.status.stepsAccepted + r.status.stepsRejected
  accepted_length : (r.accepted.length : ℤ) = r.status.stepsAccepted
  increasing : (b.times r.accepted).Pairwise (· < ·)
  le_end : ∀ t ∈ b.times r.accepted, t ≤ b.tf
  near_of_success : r.status.code = .success →
    ∃ t, (b.times r.accepted).getLast? = some t ∧ |t - b.tf| < machineEpsilon
  ends : ∀ p ∈ r.accepted, |p.2 - b.tf| < machineEpsilon →
    r.status.code = .success ∧ p.1 = r.status.stepsTaken
  output : ∃ columns tOut, r.columns = some columns ∧ columns.toList.map Prod.fst = tOut ∧
    tOut.head? = some b.t0 ∧ tOut.getLast? = (b.times r.accepted).getLast? ∧
    (b.config.denseOutput = true → tOut = b.times r.accepted)

/-! ### The output arrays -/

/-- The columns up to `output_idx` are there. -/
structure Fits (s : DopriState K n) : Prop where
  size_eq : (s.columns.size : ℤ) = s.maxOutputs
  one_le : 1 ≤ s.outputIdx
  le_max : s.outputIdx ≤ s.maxOutputs

/-- **What is stored in the loop**: every accepted time if that is configured, or the start. -/
def Stored (s : DopriState K n) : Prop :=
  (s.columns.take s.outputIdx.toNat).map Prod.fst =
    if b.config.denseOutput then b.times s.accepted else [b.t0]

variable {b} {step newSize : ℤ} {s : DopriState K n} {yNew : Fin n → K}

omit [LinearOrder K] in
/-- A column is appended, whether or not the arrays have to grow for it. -/
theorem Fits.returns_append (h : Fits s) (hroom : s.outputIdx + 1 ≤ newSize) :
    Returns (b.append newSize s) fun columns =>
      (columns.size : ℤ) = (if s.outputIdx + 1 > s.maxOutputs then newSize else s.maxOutputs) ∧
        columns.take (s.outputIdx + 1).toNat =
          s.columns.take s.outputIdx.toNat ++ [(s.t, s.y)] := by
  obtain ⟨hsize, hone, hmax⟩ := h
  obtain ⟨k, hk⟩ := Int.eq_ofNat_of_zero_le (by omega : 0 ≤ s.outputIdx)
  rw [append, hk, Int.toNat_natCast, Int.toNat_natCast_add_one]
  split
  · refine (Array1.returns_resize (by omega) _).bind fun columns hgrown => ?_
    obtain ⟨hsize', hkept⟩ := hgrown
    refine (Array1.returns_set ⟨by omega, by omega⟩).mono fun columns' hset => ⟨?_, ?_⟩
    · rw [hset.size_eq, hsize']
    · rw [Array1.take_of_written hset]
      congr 1
      exact Array1.take_congr fun i hi hle => hkept i ⟨hi, by omega⟩
  · refine (Array1.returns_set ⟨by omega, by omega⟩).mono fun columns hset => ⟨?_, ?_⟩
    · rw [hset.size_eq, hsize]
    · exact Array1.take_of_written hset

/-! ### The accepted steps -/

omit [LinearOrder K] in
theorem times_append (accepted : List (ℤ × K)) (p : ℤ × K) :
    b.times (accepted ++ [p]) = b.times accepted ++ [p.2] := by
  rw [times, List.map_append, ← List.cons_append, ← times]
  rfl

/-- **The books are kept**: what holds at all times. -/
structure Booked (b : Dopri K n) (s : DopriState K n) : Prop where
  accepted_length : (s.accepted.length : ℤ) = s.status.stepsAccepted
  increasing : (b.times s.accepted).Pairwise (· < ·)
  le_now : ∀ t ∈ b.times s.accepted, t ≤ s.t
  last_eq : (b.times s.accepted).getLast? = some s.t
  t_le : s.t ≤ b.tf
  fits : Fits s
  stored : b.Stored s

/-- The step length and the rest of the status do not matter for the books. -/
theorem Booked.withStatus (h : b.Booked s) (dt : K) (status : DopriStatus K)
    (hcount : status.stepsAccepted = s.status.stepsAccepted) : b.Booked { s with dt, status } :=
  ⟨h.accepted_length.trans hcount.symm, h.increasing, h.le_now, h.last_eq, h.t_le,
    ⟨h.fits.size_eq, h.fits.one_le, h.fits.le_max⟩, h.stored⟩

/-- **Before a step.** -/
structure Running (b : Dopri K n) (step : ℤ) (s : DopriState K n) : Prop where
  booked : b.Booked s
  steps_eq : s.status.stepsTaken = s.status.stepsAccepted + s.status.stepsRejected
  taken_eq : s.status.stepsTaken = step - 1
  t_lt : s.t < b.tf
  dt_pos : 0 < s.dt
  far : ∀ p ∈ s.accepted, ¬ |p.2 - b.tf| < machineEpsilon

/-- **After the loop.** -/
structure Ended (b : Dopri K n) (s : DopriState K n) : Prop where
  booked : b.Booked s
  steps_eq : s.status.stepsTaken = s.status.stepsAccepted + s.status.stepsRejected
  ends : ∀ p ∈ s.accepted, |p.2 - b.tf| < machineEpsilon →
    s.status.code = .success ∧ p.1 = s.status.stepsTaken ∧ p.2 = s.t

theorem Running.ended (h : b.Running step s) : b.Ended s :=
  ⟨h.booked, h.steps_eq, fun p hp hnear => absurd hnear (h.far p hp)⟩

/-- The dense output, too, is as it should be when the arrays have been doubled. -/
theorem Booked.stored_append {columns : Array1 (K × (Fin n → K))} (h : b.Booked s)
    (hdense : b.config.denseOutput = true)
    (htake : columns.take (s.outputIdx + 1).toNat =
      s.columns.take s.outputIdx.toNat ++ [(s.t + s.dt, yNew)]) :
    (columns.take (s.outputIdx + 1).toNat).map Prod.fst =
      b.times (advance yNew s).accepted := by
  have hstored := h.stored
  rw [Stored, if_pos hdense] at hstored
  rw [htake, List.map_append, hstored, advance, times_append]
  rfl

section Ordered

variable [IsStrictOrderedRing K]

/-- Whatever becomes of the output arrays, the times are those before and a greater one. -/
theorem Booked.advance (h : b.Booked s) (hdt : 0 < s.dt) (hle : s.t + s.dt ≤ b.tf)
    {columns : Array1 (K × (Fin n → K))} {outputIdx maxOutputs : ℤ}
    (hfits : Fits { Dopri.advance yNew s with columns, outputIdx, maxOutputs })
    (hstored : b.Stored { Dopri.advance yNew s with columns, outputIdx, maxOutputs }) :
    b.Booked { Dopri.advance yNew s with columns, outputIdx, maxOutputs } := by
  have htimes : b.times (Dopri.advance yNew s).accepted = b.times s.accepted ++ [s.t + s.dt] :=
    times_append _ _
  refine ⟨?_, ?_, ?_, ?_, hle, hfits, hstored⟩
  · show ((s.accepted ++ [_]).length : ℤ) = s.status.stepsAccepted + 1
    rw [List.length_append, Nat.cast_add, h.accepted_length]
    rfl
  · show (b.times (Dopri.advance yNew s).accepted).Pairwise _
    rw [htimes, List.pairwise_append]
    refine ⟨h.increasing, List.pairwise_singleton _ _, fun t ht u hu => ?_⟩
    rw [List.mem_singleton.1 hu]
    exact (h.le_now t ht).trans_lt (lt_add_of_pos_right _ hdt)
  · show ∀ t ∈ b.times (Dopri.advance yNew s).accepted, t ≤ s.t + s.dt
    rw [htimes]
    intro t ht
    rcases List.mem_append.1 ht with hold | hnew
    · exact (h.le_now t hold).trans (le_add_of_nonneg_right hdt.le)
    · exact (List.mem_singleton.1 hnew).le
  · show (b.times (Dopri.advance yNew s).accepted).getLast? = some (s.t + s.dt)
    rw [htimes, List.getLast?_concat]

/-- **An accepted step**, of any length that does not pass the end. -/
theorem Booked.returns_accept (h : b.Booked s) (hdt : 0 < s.dt) (hle : s.t + s.dt ≤ b.tf) :
    Returns (b.accept yNew s) fun s' => b.Booked s' ∧
      ∃ columns outputIdx maxOutputs,
        s' = { Dopri.advance yNew s with columns, outputIdx, maxOutputs } := by
  obtain ⟨hsize, hone, hmax⟩ := h.fits
  rw [accept]
  dsimp only
  split
  · next hdense =>
    have happend :
        Returns (b.append ((Dopri.advance yNew s).maxOutputs * 2) (Dopri.advance yNew s)) _ :=
      Fits.returns_append ⟨hsize, hone, hmax⟩ (by show s.outputIdx + 1 ≤ s.maxOutputs * 2; omega)
    refine happend.bind fun columns hcolumns => returns_some ⟨?_, columns, _, _, rfl⟩
    obtain ⟨hsize', htake⟩ := hcolumns
    refine h.advance hdt hle ⟨hsize', ?_, ?_⟩ ?_
    · show 1 ≤ s.outputIdx + 1
      omega
    · show s.outputIdx + 1 ≤
        if s.outputIdx + 1 > s.maxOutputs then s.maxOutputs * 2 else s.maxOutputs
      split <;> omega
    · rw [Stored, if_pos hdense]
      exact h.stored_append hdense htake
  · next hsparse =>
    refine returns_some ⟨h.advance hdt hle ⟨hsize, hone, hmax⟩ ?_, _, _, _, rfl⟩
    have hstored := h.stored
    rw [Stored, if_neg hsparse] at hstored ⊢
    exact hstored

/-! ### A round -/

theorem Running.clipped_pos (h : b.Running step s) : 0 < b.clipped s := by
  rw [clipped]
  split
  · exact sub_pos.2 h.t_lt
  · exact h.dt_pos

omit [IsStrictOrderedRing K] in
theorem add_clipped_le (b : Dopri K n) (s : DopriState K n) : s.t + b.clipped s ≤ b.tf := by
  rw [clipped]
  split
  · exact (add_sub_cancel _ _).le
  · next hle => exact not_lt.1 hle

theorem scaleFactor_pos (b : Dopri K n) (errorNorm : K) : 0 < b.scaleFactor errorNorm :=
  lt_min (decimal_pos (by decide) 0) (lt_max_of_lt_left (decimal_pos (by decide) 1))

/-- The next round has a step length of its own, or there is none. -/
theorem Running.rescale (h : b.Running step s) (hmax : 0 < b.config.dtMax) (errorNorm : K) :
    Outcome b.Ended (b.Running step) (b.rescale errorNorm s) := by
  rw [Dopri.rescale]
  dsimp only
  split
  · exact ⟨h.booked.withStatus _ _ rfl, h.steps_eq, fun p hp hnear => absurd hnear (h.far p hp)⟩
  · exact ⟨h.booked.withStatus _ _ rfl, h.steps_eq, h.taken_eq, h.t_lt,
      lt_min (mul_pos h.dt_pos (b.scaleFactor_pos errorNorm)) hmax, h.far⟩

omit [IsStrictOrderedRing K] in
theorem Running.step_eq (h : b.Running step s) :
    step = s.status.stepsAccepted + s.status.stepsRejected + 1 := by
  have hsteps := h.steps_eq
  have htaken := h.taken_eq
  omega

theorem Running.rejected (h : b.Running step s) : b.Running (step + 1)
    { b.stepped step s with status.stepsRejected := s.status.stepsRejected + 1 } :=
  ⟨h.booked.withStatus _ _ rfl, h.step_eq.trans (add_assoc _ _ _),
    (add_sub_cancel_right step 1).symm, h.t_lt, h.clipped_pos, h.far⟩

theorem Running.accepted (h : b.Running step s) {columns : Array1 (K × (Fin n → K))}
    {outputIdx maxOutputs : ℤ}
    (hbooked : b.Booked
      { Dopri.advance yNew (b.stepped step s) with columns, outputIdx, maxOutputs })
    (hfar : ¬ |(Dopri.advance yNew (b.stepped step s)).t - b.tf| < machineEpsilon) :
    b.Running (step + 1)
      { Dopri.advance yNew (b.stepped step s) with columns, outputIdx, maxOutputs } := by
  refine ⟨hbooked, h.step_eq.trans (add_right_comm _ _ _), (add_sub_cancel_right step 1).symm,
    ?_, h.clipped_pos, fun p hp => ?_⟩
  · refine lt_of_le_of_ne (b.add_clipped_le s) fun hend : s.t + b.clipped s = b.tf => hfar ?_
    show |s.t + b.clipped s - b.tf| < machineEpsilon
    rw [hend, sub_self, abs_zero]
    exact machineEpsilon_pos
  · rcases List.mem_append.1 hp with hold | hnew
    · exact h.far p hold
    · rw [List.mem_singleton.1 hnew]
      exact hfar

/-- **A round** leaves the loop at the end or with too small a step, or is followed by another. -/
theorem Running.returns_round (h : b.Running step s) (hmax : 0 < b.config.dtMax) :
    Returns (b.round step s) (Outcome b.Ended (b.Running (step + 1))) := by
  have hstepped : b.Booked (b.stepped step s) := h.booked.withStatus _ _ rfl
  rw [round]
  dsimp only
  split
  · refine (hstepped.returns_accept h.clipped_pos (b.add_clipped_le s)).bind fun s' => ?_
    rintro ⟨hbooked, columns, outputIdx, maxOutputs, rfl⟩
    dsimp only
    split
    · next hnear =>
      refine returns_some ⟨hbooked.withStatus _ _ rfl, h.step_eq.trans (add_right_comm _ _ _),
        fun p hp hp' => ?_⟩
      -- The earlier steps were not near the end, so it is the last one.
      rcases List.mem_append.1 hp with hold | hnew
      · exact absurd hp' (h.far p hold)
      · rw [List.mem_singleton.1 hnew]
        exact ⟨rfl, rfl, rfl⟩
    · next hfar => exact returns_some ((h.accepted hbooked hfar).rescale hmax _)
  · exact returns_some (h.rejected.rescale hmax _)

/-! ### The run -/

/-- **What is returned as `t_out`.** With dense output the last time is the current one, so that
nothing is stored after the loop. -/
theorem Booked.returns_finish (h : b.Booked s) :
    Returns (b.finish s) fun columns => columns.toList.map Prod.fst =
      if b.config.denseOutput then b.times s.accepted else [b.t0, s.t] := by
  obtain ⟨hsize, hone, hmax⟩ := h.fits
  have hstored := h.stored
  rw [Stored] at hstored
  refine Array1.returns_get ⟨hone, by omega⟩ ?_
  rcases hdense : b.config.denseOutput with - | -
  · rw [if_pos (.inl rfl), if_neg Bool.false_ne_true]
    rw [if_neg (by rw [hdense]; exact Bool.false_ne_true)] at hstored
    refine (h.fits.returns_append le_rfl).bind fun columns => ?_
    rintro ⟨hsize', htake⟩
    have hfits : s.outputIdx + 1 ≤ columns.size := by
      rw [hsize']
      split <;> omega
    refine (Array1.returns_slice (by omega) hfits).mono fun out => ?_
    rintro ⟨hout, helem⟩
    rw [Array1.toList_of_elem_eq hout helem, htake, List.map_append, hstored]
    rfl
  · rw [if_pos hdense] at hstored
    have hlast : (s.columns.elem s.outputIdx).1 = s.t := by
      obtain ⟨k, hk⟩ := Int.eq_ofNat_of_zero_le (by omega : 0 ≤ s.outputIdx - 1)
      have htoNat : s.outputIdx.toNat = k + 1 := by omega
      have hidx : s.outputIdx = (k : ℤ) + 1 := by omega
      have hend := h.last_eq
      rw [← hstored, htoNat, Array1.take_succ, List.map_append, List.map_singleton,
        List.getLast?_concat, ← hidx] at hend
      exact Option.some.inj hend
    have hstay : ¬ (true = false ∨ |(s.columns.elem s.outputIdx).1 - s.t| > machineEpsilon) := by
      rw [hlast, sub_self, abs_zero]
      exact not_or.2 ⟨Bool.false_ne_true ∘ Eq.symm, machineEpsilon_pos.not_gt⟩
    rw [if_neg hstay, if_pos rfl]
    refine (Array1.returns_slice (by omega) (by omega)).mono fun out => ?_
    rintro ⟨hout, helem⟩
    rw [Array1.toList_of_elem_eq hout helem, hstored]

omit [IsStrictOrderedRing K] in
/-- The code says success only near the end, and nothing else is changed but the final time. -/
theorem exists_checkLimit_eq (b : Dopri K n) (s : DopriState K n) :
    ∃ code finalTime, b.checkLimit s = { s.status with code, finalTime } ∧
      (code = .success ↔ s.status.code = .success ∧ |s.t - b.tf| < machineEpsilon) := by
  have hne : DopriCode.maxSteps ≠ .success := by decide
  rw [checkLimit]
  split
  · next hlimit =>
    exact ⟨_, _, rfl, fun heq => absurd heq hne, fun hnear => absurd hnear.2 hlimit.2.not_gt⟩
  · next hlimit =>
    exact ⟨_, _, rfl, fun heq => ⟨heq, not_le.1 fun hfar => hlimit ⟨heq, hfar⟩⟩, And.left⟩

theorem Ended.returns_afterLoop (h : b.Ended s) : Returns (b.afterLoop s) b.Consistent := by
  obtain ⟨code, finalTime, hstatus, hcode⟩ := b.exists_checkLimit_eq s
  refine h.booked.returns_finish.bind fun columns hcolumns => ?_
  rw [hstatus]
  refine returns_some ⟨h.steps_eq, h.booked.accepted_length, h.booked.increasing,
    fun t ht => (h.booked.le_now t ht).trans h.booked.t_le,
    fun hsuccess => ⟨s.t, h.booked.last_eq, (hcode.1 hsuccess).2⟩, fun p hp hnear => ?_,
    columns, _, rfl, hcolumns, ?_, ?_, fun hdense => if_pos hdense⟩
  · obtain ⟨hsuccess, hnumber, htime⟩ := h.ends p hp hnear
    rw [htime] at hnear
    exact ⟨hcode.2 ⟨hsuccess, hnear⟩, hnumber⟩
  · split <;> rfl
  · show _ = (b.times s.accepted).getLast?
    split
    · rfl
    · exact h.booked.last_eq.symm

omit [IsStrictOrderedRing K] in
theorem running_start {columns : Array1 (K × (Fin n → K))} (hspan : b.t0 < b.tf)
    (hinit : 0 < b.config.dtInit) (hmax : 0 < b.config.dtMax) (hsteps : 1 ≤ b.config.maxSteps)
    (hsize : (columns.size : ℤ) = min 10000 b.config.maxSteps)
    (hfirst : columns.elem 1 = (b.t0, b.y0)) : b.Running 1 (b.start columns) := by
  refine ⟨⟨rfl, List.pairwise_singleton _ _, fun t ht => (List.mem_singleton.1 ht).le, rfl,
    hspan.le, ⟨hsize, le_rfl, by show (1 : ℤ) ≤ min 10000 b.config.maxSteps; omega⟩, ?_⟩, rfl, rfl,
    hspan, ?_, fun p hp => absurd hp List.not_mem_nil⟩
  · show [(columns.elem 1).1] = _
    rw [hfirst, times]
    exact (ite_self _).symm
  · show 0 < min (if b.config.dtInit > 0 then _ else _) _
    rw [if_pos hinit]
    exact lt_min hinit hmax

/-- **The bookkeeping of the driver is consistent**, whatever the step routine returns; and the
output arrays are never accessed out of bounds. -/
theorem solve_consistent (b : Dopri K n) (hspan : b.t0 < b.tf) (hn : n ≠ 0)
    (hrtol : 0 < b.config.rtol) (hatol : 0 ≤ b.config.atol) (hinit : 0 < b.config.dtInit)
    (hmax : 0 < b.config.dtMax) (hsteps : 1 ≤ b.config.maxSteps) :
    Returns b.solve b.Consistent := by
  have hvalid : ¬ (b.tf ≤ b.t0 ∨ n = 0 ∨ b.config.rtol ≤ 0 ∨ b.config.atol < 0) := by
    rintro (hle | hzero | hle | hlt)
    · exact hle.not_gt hspan
    · exact hn hzero
    · exact hle.not_gt hrtol
    · exact hlt.not_ge hatol
  rw [solve, if_neg hvalid]
  refine (Array1.returns_set (Array1.inRange_allocate _ le_rfl (by omega))).bind
    fun columns hset => ?_
  have hstart : b.Running 1 (b.start columns) := by
    refine running_start hspan hinit hmax hsteps ?_ hset.at_index
    rw [hset.size_eq]
    exact Int.toNat_of_nonneg (by omega)
  have hloop : Returns (doLoop 1 b.config.maxSteps (leaving b.round) (.ok (b.start columns)))
      (Outcome b.Ended (b.Running (b.config.maxSteps + 1))) :=
    returns_doLoop_leaving b.Ended b.Running (by omega) hstart
      fun step s _ _ hs => hs.returns_round hmax
  refine hloop.bind fun out hout => ?_
  rcases out with s | s
  · exact Ended.returns_afterLoop hout
  · exact (Running.ended hout).returns_afterLoop

/-! ### The tolerances -/

/-- `dopri_solve` with the routines of the module. -/
def ofFunc (sqrt root5 : K → K) (func : K → (Fin n → K) → Fin n → K) (t0 tf : K) (y0 : Fin n → K)
    (config : DopriConfig K) (undefined : ℤ → ℤ → K × (Fin n → K)) : Dopri K n where
  t0 := t0
  tf := tf
  y0 := y0
  config := config
  estimate := estimateInitialStep sqrt root5 func t0 y0 tf config.rtol config.atol
  step := fun _ => dopriStep sqrt func
  root5 := root5
  undefined := undefined

/-- **The configured tolerances decide**: for every right-hand side and in every round, the step is
accepted if and only if the mean of the errors, relative to these tolerances, is at most one. -/
def HonoursTolerances (sqrt root5 : K → K) (n : ℕ) (config : DopriConfig K) : Prop :=
  ∀ (func : K → (Fin n → K) → Fin n → K) (t0 tf : K) (y0 : Fin n → K)
    (undefined : ℤ → ℤ → K × (Fin n → K)) (step : ℤ) (s : DopriState K n),
    let b := ofFunc sqrt root5 func t0 tf y0 config undefined
    let out := dopriUpdate func s.t s.y (b.clipped s)
    b.StepAccepted step s ↔ meanSquare config.atol config.rtol s.y out.1 out.2 ≤ 1

/-- A square root, of the numbers that have one. -/
def IsSqrt (sqrt : K → K) : Prop := ∀ x, 0 ≤ x → 0 ≤ sqrt x ∧ sqrt x * sqrt x = x

variable {sqrt : K → K}

theorem IsSqrt.le_one_iff (h : IsSqrt sqrt) {x : K} (hx : 0 ≤ x) : sqrt x ≤ 1 ↔ x ≤ 1 := by
  obtain ⟨hnonneg, hmul⟩ := h x hx
  rw [← sq_le_one_iff₀ hnonneg, sq, hmul]

theorem meanSquare_nonneg (atol rtol : K) (y yNew error : Fin n → K) :
    0 ≤ meanSquare atol rtol y yNew error :=
  div_nonneg (Finset.sum_nonneg fun _ _ => sq_nonneg _) (Nat.cast_nonneg n)

/-- **The test of the code**, in which the configuration does not occur. -/
theorem stepAccepted_ofFunc_iff (hsqrt : IsSqrt sqrt) (root5 : K → K)
    (func : K → (Fin n → K) → Fin n → K) (t0 tf : K) (y0 : Fin n → K) (config : DopriConfig K)
    (undefined : ℤ → ℤ → K × (Fin n → K)) (step : ℤ) (s : DopriState K n) :
    let b := ofFunc sqrt root5 func t0 tf y0 config undefined
    let out := dopriUpdate func s.t s.y (b.clipped s)
    b.StepAccepted step s ↔ meanSquare (decimal 1 8) (decimal 1 6) s.y out.1 out.2 ≤ 1 :=
  hsqrt.le_one_iff (meanSquare_nonneg _ _ _ _ _)

theorem meanSquare_const_le_one_iff (hn : n ≠ 0) {atol rtol c : K} (e : K)
    (hpos : 0 < atol + rtol * |c|) :
    meanSquare atol rtol (fun _ : Fin n => c) (fun _ => c) (fun _ => e) ≤ 1 ↔
      |e| ≤ atol + rtol * |c| := by
  have hn' : (n : K) ≠ 0 := Nat.cast_ne_zero.2 hn
  rw [meanSquare, Finset.sum_const, Finset.card_univ, Fintype.card_fin, nsmul_eq_mul,
    mul_div_cancel_left₀ _ hn', max_self, sq_le_one_iff_abs_le_one, abs_div, abs_of_pos hpos,
    div_le_one hpos]

open Tableau in
/-- **A right-hand side for every error.** It depends on the time alone: its values at the first and
the third stage cancel in the new state, but not in the error. -/
theorem exists_update_eq (y : Fin n → K) (e : K) :
    ∃ func, dopriUpdate func 0 y 1 = (y, fun _ => e) := by
  have hne : (e1 * c3 - e3 * c1 : K) ≠ 0 := by
    norm_num [e1, e3, c1, c3, d1, d3, decimal]
  refine ⟨fun t _ _ => if t = 0 then c3 * (e / (e1 * c3 - e3 * c1))
    else if t = a3 then -c1 * (e / (e1 * c3 - e3 * c1)) else 0, ?_⟩
  have h3 : (a3 : K) ≠ 0 := by norm_num [a3, decimal]
  have h4 : (a4 : K) ≠ 0 ∧ (a4 : K) ≠ a3 := by norm_num [a4, a3, decimal]
  have h5 : (a5 : K) ≠ 0 ∧ (a5 : K) ≠ a3 := by norm_num [a5, a3, decimal]
  have h6 : (1 : K) ≠ a3 := by norm_num [a3, decimal]
  rw [dopriUpdate]
  simp only [zero_add, mul_one, one_mul, if_true, if_neg h3, if_neg h4.1, if_neg h4.2,
    if_neg h5.1, if_neg h5.2, if_neg h6, if_neg one_ne_zero, mul_zero, add_zero]
  refine Prod.ext (funext fun i => ?_) (funext fun i => ?_)
  · show y i + _ = y i
    ring
  · show e1 * (c3 * (e / (e1 * c3 - e3 * c1))) + e3 * (-c1 * (e / (e1 * c3 - e3 * c1))) = e
    field_simp
    ring

/-- **Two tests for all errors agree** only if their tolerances do. -/
theorem HonoursTolerances.tolerance_eq {root5 : K → K} {config : DopriConfig K}
    (h : HonoursTolerances sqrt root5 n config) (hsqrt : IsSqrt sqrt) (hn : n ≠ 0)
    (hrtol : 0 < config.rtol) (hatol : 0 < config.atol) (c : K) :
    config.atol + config.rtol * |c| = decimal 1 8 + decimal 1 6 * |c| := by
  have hpos : 0 < config.atol + config.rtol * |c| :=
    add_pos_of_pos_of_nonneg hatol (mul_nonneg hrtol.le (abs_nonneg c))
  have hpos' : (0 : K) < decimal 1 8 + decimal 1 6 * |c| :=
    add_pos_of_pos_of_nonneg (decimal_pos (by decide) 8)
      (mul_nonneg (decimal_pos (by decide) 6).le (abs_nonneg c))
  have hiff : ∀ e : K, |e| ≤ decimal 1 8 + decimal 1 6 * |c| ↔
      |e| ≤ config.atol + config.rtol * |c| := by
    intro e
    obtain ⟨func, hfunc⟩ := exists_update_eq (fun _ : Fin n => c) e
    -- A round at the time 0, with a step of length 1 that ends at the end.
    let b := ofFunc sqrt root5 func 0 1 (fun _ => c) config fun _ _ => (0, fun _ => c)
    let s : DopriState K n :=
      { t := 0, dt := 1, y := fun _ => c, maxOutputs := 1,
        columns := ⟨1, fun _ => (0, fun _ => c)⟩ }
    have hclipped : b.clipped s = 1 := if_neg (zero_add (1 : K)).le.not_gt
    have hconfigured : b.StepAccepted 1 s ↔ meanSquare config.atol config.rtol (fun _ => c)
        (dopriUpdate func 0 (fun _ => c) (b.clipped s)).1
        (dopriUpdate func 0 (fun _ => c) (b.clipped s)).2 ≤ 1 := h func 0 1 _ _ 1 s
    have hcode : b.StepAccepted 1 s ↔ meanSquare (decimal 1 8) (decimal 1 6) (fun _ => c)
        (dopriUpdate func 0 (fun _ => c) (b.clipped s)).1
        (dopriUpdate func 0 (fun _ => c) (b.clipped s)).2 ≤ 1 :=
      stepAccepted_ofFunc_iff hsqrt root5 func 0 1 _ config _ 1 s
    rw [hclipped, hfunc, meanSquare_const_le_one_iff hn e hpos] at hconfigured
    rw [hclipped, hfunc, meanSquare_const_le_one_iff hn e hpos'] at hcode
    exact hcode.symm.trans hconfigured
  refine le_antisymm ?_ ?_
  · have hle := (hiff (config.atol + config.rtol * |c|)).2 (abs_of_pos hpos).le
    rwa [abs_of_pos hpos] at hle
  · have hle := (hiff (decimal 1 8 + decimal 1 6 * |c|)).1 (abs_of_pos hpos').le
    rwa [abs_of_pos hpos'] at hle

/-- **The configured tolerances decide only if they are the default ones.** -/
theorem honoursTolerances_iff (hsqrt : IsSqrt sqrt) (root5 : K → K) (hn : n ≠ 0)
    {config : DopriConfig K} (hrtol : 0 < config.rtol) (hatol : 0 < config.atol) :
    HonoursTolerances sqrt root5 n config ↔
      config.atol = decimal 1 8 ∧ config.rtol = decimal 1 6 := by
  constructor
  · intro h
    have hzero := h.tolerance_eq hsqrt hn hrtol hatol 0
    have hone := h.tolerance_eq hsqrt hn hrtol hatol 1
    rw [abs_zero, mul_zero, mul_zero, add_zero, add_zero] at hzero
    rw [abs_one, mul_one, mul_one, hzero] at hone
    exact ⟨hzero, add_left_cancel hone⟩
  · rintro ⟨ha, hr⟩ func t0 tf y0 undefined step s
    rw [ha, hr]
    exact stepAccepted_ofFunc_iff hsqrt root5 func t0 tf y0 config undefined step s

open Tableau in
/-- A step of length 1 for the equation `y' = y`. -/
theorem update_exponential : dopriUpdate (fun _ y => y) 0 (fun _ : Fin 1 => (1 : K)) 1 =
    (fun _ => decimal 1631 0 / decimal 600 0, fun _ => -decimal 525 6) := by
  -- the stages one after the other, each from the values of those before it
  have hk2 : (1 : K) + 1 * b21 * 1 = 6 / 5 := by norm_num [b21, decimal]
  have hk3 : (1 : K) + 1 * (b31 * 1 + b32 * (6 / 5)) = 269 / 200 := by
    norm_num [b31, b32, decimal]
  have hk4 : (1 : K) + 1 * (b41 * 1 + b42 * (6 / 5) + b43 * (269 / 200)) = 57 / 25 := by
    norm_num [b41, b42, b43, decimal]
  have hk5 : (1 : K) + 1 * (b51 * 1 + b52 * (6 / 5) + b53 * (269 / 200) + b54 * (57 / 25)) =
      47137 / 18225 := by
    norm_num [b51, b52, b53, b54, decimal]
  have hk6 : (1 : K) + 1 * (b61 * 1 + b62 * (6 / 5) + b63 * (269 / 200) + b64 * (57 / 25) +
      b65 * (47137 / 18225)) = 782 / 275 := by
    norm_num [b61, b62, b63, b64, b65, decimal]
  have hnew : (1 : K) + 1 * (c1 * 1 + c3 * (269 / 200) + c4 * (57 / 25) + c5 * (47137 / 18225) +
      c6 * (782 / 275)) = decimal 1631 0 / decimal 600 0 := by
    norm_num [c1, c3, c4, c5, c6, decimal]
  have herror : (1 : K) * (e1 * 1 + e3 * (269 / 200) + e4 * (57 / 25) + e5 * (47137 / 18225) +
      e6 * (782 / 275) + e7 * (decimal 1631 0 / decimal 600 0)) = -decimal 525 6 := by
    norm_num [e1, e3, e4, e5, e6, e7, c1, c3, c4, c5, c6, c7, d1, d3, d4, d5, d6, d7, decimal]
  simp only [dopriUpdate, hk2, hk3, hk4, hk5, hk6, hnew, herror]

end Ordered

/-- Three accepted steps, for which the output arrays have to grow. -/
def rapid : Dopri ℚ 1 where
  t0 := 0
  tf := 1
  y0 := fun _ => 1
  config := { dtInit := decimal 1 1, maxSteps := 3, denseOutput := true }
  estimate := 0
  step := fun _ _ y _ => (y, 0)
  root5 := id
  undefined := fun _ _ => (0, fun _ => 0)

theorem solve_consistent_rapid : Returns rapid.solve rapid.Consistent :=
  solve_consistent rapid (by decide) (by decide) (by with_unfolding_all decide)
    (by with_unfolding_all decide) (by with_unfolding_all decide) (by decide +kernel) (by decide)

example : (rapid.solve.map fun r =>
    (r.status.code, r.columns.map fun columns => columns.toList.map Prod.fst)) =
      some (.success, some [0, decimal 1 1, decimal 6 1, 1]) := by
  decide +kernel

/-- The power with the exponent `0.2_wp`. -/
noncomputable def fifthRoot (x : ℝ) : ℝ := x ^ (decimal 2 1 : ℝ)

theorem isSqrt_real : IsSqrt Real.sqrt :=
  fun x hx => ⟨Real.sqrt_nonneg x, Real.mul_self_sqrt hx⟩

theorem honoursTolerances_iff_default : HonoursTolerances Real.sqrt fifthRoot 1 {} :=
  (honoursTolerances_iff isSqrt_real fifthRoot one_ne_zero (decimal_pos (by decide) 6)
    (decimal_pos (by decide) 8)).2 ⟨rfl, rfl⟩

/-- The equation `y' = y` from 0 to 1 in one step, with a relative tolerance of `1.0e-3_wp`. -/
noncomputable def loose : Dopri ℝ 1 :=
  ofFunc Real.sqrt fifthRoot (fun _ y => y) 0 1 (fun _ => 1)
    { rtol := decimal 1 3, atol := decimal 1 6, dtInit := 1, dtMax := 1 } fun _ _ => (0, fun _ => 0)

/-- The variables before the first round. -/
noncomputable def looseStart : DopriState ℝ 1 := loose.start ⟨1, fun _ => (0, fun _ => 1)⟩

theorem clipped_looseStart : loose.clipped looseStart = 1 := by
  have hdt : looseStart.dt = 1 := by
    show min (if (1 : ℝ) > 0 then 1 else loose.estimate) 1 = 1
    rw [if_pos one_pos, min_self]
  have hend : ¬ looseStart.t + looseStart.dt > loose.tf := by
    rw [hdt]
    exact (zero_add (1 : ℝ)).le.not_gt
  rw [clipped, if_neg hend, hdt]

/-- The first step has an error of `5.25e-4_wp`. That is within the tolerance, and is rejected. -/
theorem loose_rejects_tolerable_step :
    meanSquare loose.config.atol loose.config.rtol looseStart.y
        (dopriUpdate (fun _ y => y) looseStart.t looseStart.y (loose.clipped looseStart)).1
        (dopriUpdate (fun _ y => y) looseStart.t looseStart.y (loose.clipped looseStart)).2 ≤ 1 ∧
      ¬ loose.StepAccepted 1 looseStart := by
  have hupdate : dopriUpdate (fun _ y => y) looseStart.t looseStart.y (loose.clipped looseStart) =
      (fun _ => decimal 1631 0 / decimal 600 0, fun _ => -decimal 525 6) := by
    rw [clipped_looseStart]
    exact update_exponential
  have hcode : loose.StepAccepted 1 looseStart ↔ meanSquare (decimal 1 8) (decimal 1 6) looseStart.y
      (dopriUpdate (fun _ y => y) looseStart.t looseStart.y (loose.clipped looseStart)).1
      (dopriUpdate (fun _ y => y) looseStart.t looseStart.y (loose.clipped looseStart)).2 ≤ 1 :=
    stepAccepted_ofFunc_iff isSqrt_real fifthRoot _ 0 1 _ _ _ 1 looseStart
  rw [hcode, hupdate]
  constructor
  · show meanSquare (decimal 1 6) (decimal 1 3) (fun _ => (1 : ℝ)) _ _ ≤ 1
    norm_num [meanSquare, decimal, abs_of_pos]
  · show ¬ meanSquare (decimal 1 8) (decimal 1 6) (fun _ => (1 : ℝ)) _ _ ≤ 1
    norm_num [meanSquare, decimal, abs_of_pos]

end Dopri

end DistributedComputing
