import Mathlib.LinearAlgebra.Matrix.Notation
import DistributedComputing.Foundations.ArrayLoops
import DistributedComputing.Fortran.NumericUtils

/-!
# The classical Runge-Kutta method

A model of `rk4.f90`, over an ordered field in place of `real(wp)`. `t_out` and `y_out` are one
array of columns, as they are allocated, written and trimmed together; its indices are checked.

Only the last step can be shortened, so before step `k` the time is `t0 + (k - 1) * dt`
(`Rk4.Before`). Two things follow.

* **The output fits** (`Rk4.Before.fits`), so the guard `output_idx <= max_outputs` never drops a
  point.
* **Whether the end is reached** is a matter of `max_steps * dt` alone.

But the code says success from the start, and the test after the loop asks whether it does not. So a
run that the step limit has stopped reports success, with the final time `0`. `solve_truthful_iff`
says for exactly which inputs the report is right all the same.
-/

namespace DistributedComputing

open ArrayLoops

variable {K : Type} [Field K] [LinearOrder K] {n : ℕ}

/-- The status codes that are used. -/
inductive Rk4Code
  | success
  | maxSteps
  | invalidArg
  deriving DecidableEq, Repr

/-- `rk4_config_t` -/
structure Rk4Config (K : Type) [Field K] where
  dt : K := decimal 1 2
  maxSteps : ℤ := 100000
  outputEvery : ℤ := 1
  denseOutput : Bool := false

/-- The arguments of `rk4_solve`. -/
structure Rk4 (K : Type) [Field K] (n : ℕ) where
  func : K → (Fin n → K) → Fin n → K
  t0 : K
  tf : K
  y0 : Fin n → K
  config : Rk4Config K

/-- The variables of `rk4_solve`. Nothing reads `stored`: it is the last time and state that were to
be stored, with or without space for them. -/
structure Rk4State (K : Type) (n : ℕ) where
  t : K
  dt : K
  y : Fin n → K
  code : Rk4Code := .success
  stepsTaken : ℤ := 0
  funcEvals : ℤ := 0
  finalTime : K
  outputIdx : ℤ := 1
  columns : Array1 (K × (Fin n → K))
  stored : K × (Fin n → K)

/-- What `rk4_solve` returns, with the last time and state that it has reached, and those that it
has stored. -/
structure Rk4Result (K : Type) (n : ℕ) where
  code : Rk4Code
  stepsTaken : ℤ := 0
  funcEvals : ℤ := 0
  finalTime : K
  columns : Option (Array1 (K × (Fin n → K)))
  last : K × (Fin n → K)
  stored : K × (Fin n → K)

/-- `rk4_step`. The driver passes one array as `y` and as `y_new`; that is written last. -/
def rk4Step (func : K → (Fin n → K) → Fin n → K) (t : K) (y : Fin n → K) (dt : K) : Fin n → K :=
  let k1 := func t y
  let k2 := func (t + decimal 5 1 * dt) (y + (decimal 5 1 * dt) • k1)
  let k3 := func (t + decimal 5 1 * dt) (y + (decimal 5 1 * dt) • k2)
  let k4 := func (t + dt) (y + dt • k3)
  y + (dt / decimal 6 0) • (k1 + (decimal 2 0 : K) • k2 + (decimal 2 0 : K) • k3 + k4)

/-- Store the current time and state, if there is space. -/
def Rk4State.store (maxOutputs : ℤ) (s : Rk4State K n) : Option (Rk4State K n) :=
  let s := { s with outputIdx := s.outputIdx + 1, stored := (s.t, s.y) }
  if s.outputIdx ≤ maxOutputs then do
    let columns ← s.columns.set s.outputIdx (s.t, s.y)
    some { s with columns }
  else some s

/-- The output arrays without the columns that have not been filled. -/
def Rk4State.trimmed (maxOutputs : ℤ) (s : Rk4State K n) : Option (Array1 (K × (Fin n → K))) :=
  if s.outputIdx < maxOutputs then s.columns.slice s.outputIdx else some s.columns

namespace Rk4

variable (b : Rk4 K n)

/-- The variables after the Runge-Kutta step of a round. -/
def advance (step : ℤ) (s : Rk4State K n) : Rk4State K n :=
  let dt := if s.t + s.dt > b.tf then b.tf - s.t else s.dt
  { s with
    t := s.t + dt
    dt
    y := rk4Step b.func s.t s.y dt
    stepsTaken := step
    funcEvals := s.funcEvals + 4 }

/-- Whether a step is stored. -/
def Stores (step : ℤ) (t : K) : Prop :=
  b.config.denseOutput = true ∨ step.tmod b.config.outputEvery = 0 ∨ |t - b.tf| < machineEpsilon

instance (step : ℤ) (t : K) : Decidable (b.Stores step t) := inferInstanceAs (Decidable (_ ∨ _))

/-- Store the output if needed. -/
def storeIfNeeded (maxOutputs step : ℤ) (s : Rk4State K n) : Option (Rk4State K n) :=
  if b.Stores step s.t then s.store maxOutputs else some s

/-- A round of the integration loop. -/
def round (maxOutputs step : ℤ) (s : Rk4State K n) :
    Option (Except (Rk4State K n) (Rk4State K n)) := do
  let s ← b.storeIfNeeded maxOutputs step (b.advance step s)
  if |s.t - b.tf| < machineEpsilon then some (.error { s with code := .success, finalTime := s.t })
  else some (.ok s)

/-- What is done after the loop. -/
def afterLoop (maxOutputs : ℤ) (s : Rk4State K n) : Option (Rk4Result K n) := do
  let columns ← s.trimmed maxOutputs
  some
    { code := if s.code ≠ .success then .maxSteps else s.code
      stepsTaken := s.stepsTaken
      funcEvals := s.funcEvals
      finalTime := if s.code ≠ .success then s.t else s.finalTime
      columns := some columns
      last := (s.t, s.y)
      stored := s.stored }

/-- The size of the output arrays. -/
def maxOutputs [FloorRing K] : ℤ :=
  if b.config.denseOutput then ⌈(b.tf - b.t0) / b.config.dt⌉ + 1
  else ⌈(b.tf - b.t0) / (b.config.dt * b.config.outputEvery)⌉ + 1

/-- The variables before the loop, with the initial condition still to be written. -/
def start (columns : Array1 (K × (Fin n → K))) : Rk4State K n where
  t := b.t0
  dt := b.config.dt
  y := b.y0
  finalTime := 0
  columns := columns
  stored := (b.t0, b.y0)

/-- `rk4_solve`, with what the output arrays contain when they are allocated. -/
def solve [FloorRing K] (undefined : ℤ → K × (Fin n → K)) : Option (Rk4Result K n) :=
  if b.config.dt ≤ 0 ∨ b.tf ≤ b.t0 ∨ n = 0 then
    some
      { code := .invalidArg
        finalTime := 0
        columns := none
        last := (b.t0, b.y0)
        stored := (b.t0, b.y0) }
  else do
    let columns ← (Array1.allocate b.maxOutputs undefined).set 1 (b.t0, b.y0)
    let out ← doLoop 1 b.config.maxSteps (leaving (b.round b.maxOutputs)) (.ok (b.start columns))
    match out with
    | .ok s => afterLoop b.maxOutputs s
    | .error s => afterLoop b.maxOutputs s

/-- **A truthful report**: the code says whether the end is reached, the final time is the last one,
and the last column is what was last to be stored, which is the end if it is reached. -/
structure Truthful (r : Rk4Result K n) : Prop where
  code_eq : r.code = if |r.last.1 - b.tf| < machineEpsilon then .success else .maxSteps
  finalTime_eq : r.finalTime = r.last.1
  column_eq : ∃ columns, r.columns = some columns ∧ 0 < columns.size ∧
    columns.elem columns.size = r.stored
  end_stored : |r.last.1 - b.tf| < machineEpsilon → r.stored = r.last

/-! ### The output -/

/-- The columns up to `output_idx` are filled, and the last of them is the last to be stored. -/
structure Filled (maxOutputs : ℤ) (s : Rk4State K n) : Prop where
  size_eq : (s.columns.size : ℤ) = maxOutputs
  one_le : 1 ≤ s.outputIdx
  le_max : s.outputIdx ≤ maxOutputs
  elem_eq : s.columns.elem s.outputIdx = s.stored

variable {b} {maxOutputs step : ℤ} {s : Rk4State K n}

omit [Field K] [LinearOrder K] in
theorem Filled.returns_store (h : Filled maxOutputs s) (hfits : s.outputIdx + 1 ≤ maxOutputs) :
    Returns (s.store maxOutputs) fun s' => Filled maxOutputs s' ∧
      ∃ columns, s' =
        { s with outputIdx := s.outputIdx + 1, stored := (s.t, s.y), columns } := by
  have hone := h.one_le
  have hsize := h.size_eq
  rw [Rk4State.store]
  dsimp only
  rw [if_pos hfits]
  refine (Array1.returns_set ⟨by omega, by omega⟩).bind fun columns hset => returns_some ?_
  refine ⟨⟨by rw [← hsize, ← hset.size_eq], ?_, hfits, hset.at_index⟩, columns, rfl⟩
  show 1 ≤ s.outputIdx + 1
  omega

/-- **What is returned after a loop that ends in the state `s`.** -/
structure Returned (s : Rk4State K n) (r : Rk4Result K n) : Prop where
  code_eq : r.code = .success
  finalTime_eq : r.finalTime = s.finalTime
  last_eq : r.last = (s.t, s.y)
  stored_eq : r.stored = s.stored
  column_eq : ∃ columns, r.columns = some columns ∧ 0 < columns.size ∧
    columns.elem columns.size = r.stored

omit [Field K] [LinearOrder K] in
/-- The arrays end with the last column that is filled. The test of the code never fires. -/
theorem Filled.returns_afterLoop (h : Filled maxOutputs s) (hcode : s.code = .success) :
    Returns (afterLoop maxOutputs s) (Returned s) := by
  obtain ⟨hsize, hone, hmax, helem⟩ := h
  have htrim : Returns (s.trimmed maxOutputs) fun columns =>
      (columns.size : ℤ) = s.outputIdx ∧ columns.elem = s.columns.elem := by
    rw [Rk4State.trimmed]
    split
    · exact Array1.returns_slice (by omega) (by omega)
    · exact returns_some ⟨by omega, rfl⟩
  refine htrim.bind fun columns hcolumns => ?_
  obtain ⟨hlast, hsame⟩ := hcolumns
  refine returns_some ⟨?_, ?_, rfl, rfl, columns, rfl, by omega, ?_⟩
  · show (if s.code ≠ .success then _ else s.code) = .success
    rw [if_neg (not_not.2 hcode), hcode]
  · show (if s.code ≠ .success then _ else s.finalTime) = s.finalTime
    rw [if_neg (not_not.2 hcode)]
  · rw [hlast, hsame]
    exact helem

/-! ### The time -/

/-- Every how many steps a column is stored. -/
def stride (b : Rk4 K n) : ℤ := if b.config.denseOutput then 1 else b.config.outputEvery

/-- **Before a step.** -/
structure Before (b : Rk4 K n) (maxOutputs step : ℤ) (s : Rk4State K n) : Prop where
  filled : Filled maxOutputs s
  dt_eq : s.dt = b.config.dt
  t_eq : s.t = b.t0 + (step - 1 : ℤ) * b.config.dt
  t_lt : s.t < b.tf
  far : 1 < step → machineEpsilon ≤ b.tf - s.t
  first : step = 1 → s.stored = (s.t, s.y)
  code_eq : s.code = .success
  finalTime_eq : s.finalTime = 0
  idx_mul_le : (s.outputIdx - 1) * b.stride ≤ step - 1

/-- **At the end.** -/
structure Finished (b : Rk4 K n) (maxOutputs : ℤ) (s : Rk4State K n) : Prop where
  filled : Filled maxOutputs s
  reached : |s.t - b.tf| < machineEpsilon
  code_eq : s.code = .success
  finalTime_eq : s.finalTime = s.t
  stored_eq : s.stored = (s.t, s.y)
  maxSteps_pos : 0 < b.config.maxSteps
  maxSteps_enough : b.tf - b.t0 < b.config.maxSteps * b.config.dt + machineEpsilon

section Ordered

variable [IsStrictOrderedRing K]

/-- **The output fits**: the stored columns, at their stride, lie before the end. -/
theorem Before.fits [FloorRing K] (hdt : 0 < b.config.dt) (hevery : 1 ≤ b.config.outputEvery)
    (h : b.Before b.maxOutputs step s) : s.outputIdx + 1 ≤ b.maxOutputs := by
  have hstride : 0 < b.stride := by
    rw [stride]
    split <;> omega
  have hmax : b.maxOutputs = ⌈(b.tf - b.t0) / (b.config.dt * b.stride)⌉ + 1 := by
    rw [Rk4.maxOutputs, stride]
    split
    · rw [Int.cast_one, mul_one]
    · rfl
  have hpos : (0 : K) < b.config.dt * b.stride := mul_pos hdt (Int.cast_pos.2 hstride)
  have hbefore : ((step - 1 : ℤ) : K) * b.config.dt < b.tf - b.t0 := by
    have ht := h.t_lt
    rw [h.t_eq] at ht
    linarith
  have hlt : s.outputIdx - 1 < ⌈(b.tf - b.t0) / (b.config.dt * b.stride)⌉ := by
    rw [Int.lt_ceil, lt_div_iff₀ hpos]
    calc ((s.outputIdx - 1 : ℤ) : K) * (b.config.dt * b.stride)
        = (((s.outputIdx - 1) * b.stride : ℤ) : K) * b.config.dt := by
          rw [Int.cast_mul]
          ring
      _ ≤ ((step - 1 : ℤ) : K) * b.config.dt :=
          mul_le_mul_of_nonneg_right (Int.cast_le.2 h.idx_mul_le) hdt.le
      _ < b.tf - b.t0 := hbefore
  omega

omit [IsStrictOrderedRing K] in
theorem Before.idx_mul_le_step (hevery : 1 ≤ b.config.outputEvery) (h : b.Before maxOutputs step s)
    (hstore : b.config.denseOutput = true ∨ step.tmod b.config.outputEvery = 0) :
    s.outputIdx * b.stride ≤ step := by
  have hle := h.idx_mul_le
  rw [stride] at hle ⊢
  split at hle
  · next hdense =>
    rw [if_pos hdense]
    omega
  · next hsparse =>
    rw [if_neg hsparse]
    obtain ⟨c, hc⟩ := Int.dvd_of_tmod_eq_zero (hstore.resolve_left hsparse)
    have hlt : s.outputIdx - 1 < c := by
      refine lt_of_mul_lt_mul_right (a := b.config.outputEvery) ?_ (by omega)
      rw [mul_comm c, ← hc]
      omega
    calc s.outputIdx * b.config.outputEvery
        ≤ c * b.config.outputEvery := Int.mul_le_mul_of_nonneg_right (by omega) (by omega)
      _ = step := by rw [hc, mul_comm]

/-- **The time after a step**: the end, or one step length more. -/
theorem Before.time (h : b.Before maxOutputs step s) :
    |(b.advance step s).t - b.tf| < machineEpsilon ∧
        b.tf - b.t0 < step * b.config.dt + machineEpsilon ∨
      machineEpsilon ≤ b.tf - (b.advance step s).t ∧ (b.advance step s).dt = b.config.dt ∧
        (b.advance step s).t = b.t0 + step * b.config.dt := by
  have heps : (0 : K) < machineEpsilon := machineEpsilon_pos
  have ht : s.t + b.config.dt = b.t0 + step * b.config.dt := by
    rw [h.t_eq, Int.cast_sub, Int.cast_one]
    ring
  rw [advance, h.dt_eq]
  dsimp only
  split
  · next hclip =>
    refine .inl ⟨?_, by linarith⟩
    rw [add_sub_cancel, sub_self, abs_zero]
    exact heps
  · next hwhole =>
    have hle : s.t + b.config.dt - b.tf ≤ 0 := by linarith
    rw [abs_of_nonpos hle]
    rcases lt_or_ge (-(s.t + b.config.dt - b.tf)) machineEpsilon with hnear | hfar
    · exact .inl ⟨hnear, by linarith⟩
    · exact .inr ⟨by linarith, rfl, ht⟩

theorem Before.returns_storeIfNeeded [FloorRing K] (hdt : 0 < b.config.dt)
    (hevery : 1 ≤ b.config.outputEvery) (h : b.Before b.maxOutputs step s) :
    Returns (b.storeIfNeeded b.maxOutputs step (b.advance step s)) fun s' =>
      Filled b.maxOutputs s' ∧
        ∃ columns outputIdx stored, s' = { b.advance step s with columns, outputIdx, stored } ∧
          (b.Stores step (b.advance step s).t ∧ outputIdx = s.outputIdx + 1 ∧
              stored = ((b.advance step s).t, (b.advance step s).y) ∨
            ¬ b.Stores step (b.advance step s).t ∧ outputIdx = s.outputIdx) := by
  have hfilled : Filled b.maxOutputs (b.advance step s) :=
    ⟨h.filled.size_eq, h.filled.one_le, h.filled.le_max, h.filled.elem_eq⟩
  have hfits : (b.advance step s).outputIdx + 1 ≤ b.maxOutputs := by
    show s.outputIdx + 1 ≤ b.maxOutputs
    exact h.fits hdt hevery
  rw [storeIfNeeded]
  split
  · next hstores =>
    refine (hfilled.returns_store hfits).mono fun s' => ?_
    rintro ⟨hs', columns, rfl⟩
    exact ⟨hs', columns, _, _, rfl, .inl ⟨hstores, rfl, rfl⟩⟩
  · next hstores =>
    exact returns_some ⟨hfilled, _, _, _, rfl, .inr ⟨hstores, rfl⟩⟩

/-- **A round** ends at the end, or is followed by another one. -/
theorem Before.returns_round [FloorRing K] (hdt : 0 < b.config.dt)
    (hevery : 1 ≤ b.config.outputEvery) (hstep : 1 ≤ step) (hle : step ≤ b.config.maxSteps)
    (h : b.Before b.maxOutputs step s) :
    Returns (b.round b.maxOutputs step s)
      (Outcome (b.Finished b.maxOutputs) (b.Before b.maxOutputs (step + 1))) := by
  have heps : (0 : K) < machineEpsilon := machineEpsilon_pos
  refine (h.returns_storeIfNeeded hdt hevery).bind fun s' => ?_
  rintro ⟨hfilled, columns, outputIdx, stored, rfl, hstored⟩
  dsimp only
  rcases h.time with ⟨hnear, henough⟩ | ⟨hfar, hdt', ht⟩
  · rw [if_pos hnear]
    have hstores : b.Stores step (b.advance step s).t := .inr (.inr hnear)
    obtain ⟨-, -, rfl⟩ := hstored.resolve_right fun hnot => hnot.1 hstores
    refine returns_some ⟨⟨hfilled.1, hfilled.2, hfilled.3, hfilled.4⟩, hnear, rfl, rfl, rfl,
      by omega, henough.trans_le ?_⟩
    gcongr
  · have hnot : ¬ |(b.advance step s).t - b.tf| < machineEpsilon := by
      rw [not_lt, abs_sub_comm]
      exact hfar.trans (le_abs_self _)
    rw [if_neg hnot]
    refine returns_some ⟨hfilled, hdt', ?_, ?_, fun _ => hfar, fun _ => by omega, h.code_eq,
      h.finalTime_eq, ?_⟩
    · rw [add_sub_cancel_right]
      exact ht
    · show (b.advance step s).t < b.tf
      linarith
    · show (outputIdx - 1) * b.stride ≤ step + 1 - 1
      rcases hstored with ⟨hstores, rfl, -⟩ | ⟨-, rfl⟩
      · have hkeeps := h.idx_mul_le_step hevery
          (hstores.imp_right fun hlast => hlast.resolve_right hnot)
        rw [add_sub_cancel_right, add_sub_cancel_right]
        exact hkeeps
      · have hkeeps := h.idx_mul_le
        omega

omit [IsStrictOrderedRing K] in
theorem Finished.truthful {r : Rk4Result K n} (h : b.Finished maxOutputs s) (hend : Returned s r) :
    b.Truthful r := by
  refine ⟨?_, ?_, hend.column_eq, fun _ => ?_⟩
  · rw [hend.code_eq, hend.last_eq, if_pos h.reached]
  · rw [hend.finalTime_eq, h.finalTime_eq, hend.last_eq]
  · rw [hend.stored_eq, h.stored_eq, hend.last_eq]

/-- **A run that the limit has stopped** says success and the time `0`. With a step made that is not
true. -/
theorem Before.truthful_iff {r : Rk4Result K n} (hspan : b.t0 < b.tf) (hmax : 0 ≤ b.config.maxSteps)
    (h : b.Before maxOutputs (b.config.maxSteps + 1) s) (hend : Returned s r) :
    b.Truthful r ↔ b.config.maxSteps = 0 ∧ b.t0 = 0 ∧ b.tf < machineEpsilon := by
  have ht := h.t_eq
  rw [add_sub_cancel_right] at ht
  constructor
  · intro htruthful
    have hnear : |s.t - b.tf| < machineEpsilon := by
      by_contra hnot
      have hcode := htruthful.code_eq
      rw [hend.code_eq, hend.last_eq, if_neg hnot] at hcode
      cases hcode
    have hzero : b.config.maxSteps = 0 := by
      by_contra hne
      have hfar := h.far (by omega)
      rw [abs_sub_comm] at hnear
      exact absurd hnear (hfar.trans (le_abs_self _)).not_gt
    have hstart : s.t = b.t0 := by rw [ht, hzero, Int.cast_zero, zero_mul, add_zero]
    have hfinal : b.t0 = 0 := by
      have htime := htruthful.finalTime_eq
      rw [hend.finalTime_eq, h.finalTime_eq, hend.last_eq] at htime
      exact hstart.symm.trans htime.symm
    rw [hstart, hfinal, zero_sub, abs_neg] at hnear
    exact ⟨hzero, hfinal, (le_abs_self _).trans_lt hnear⟩
  · rintro ⟨hzero, hfinal, hnear⟩
    have hstart : s.t = 0 := by rw [ht, hzero, Int.cast_zero, zero_mul, add_zero, hfinal]
    have hreached : |s.t - b.tf| < machineEpsilon := by
      rw [hstart, zero_sub, abs_neg, abs_of_pos (hfinal ▸ hspan)]
      exact hnear
    refine ⟨?_, ?_, hend.column_eq, fun _ => ?_⟩
    · rw [hend.code_eq, hend.last_eq, if_pos hreached]
    · rw [hend.finalTime_eq, h.finalTime_eq, hend.last_eq, hstart]
    · rw [hend.stored_eq, hend.last_eq]
      exact h.first (by omega)

section Solve

variable [FloorRing K] (hspan : b.t0 < b.tf) (hdt : 0 < b.config.dt)
include hspan hdt

theorem returns_start (undefined : ℤ → K × (Fin n → K)) (hevery : 1 ≤ b.config.outputEvery) :
    Returns ((Array1.allocate b.maxOutputs undefined).set 1 (b.t0, b.y0)) fun columns =>
      b.Before b.maxOutputs 1 (b.start columns) := by
  have hmax : 1 ≤ b.maxOutputs := by
    have hsize : ∀ width : K, 0 < width → 0 < ⌈(b.tf - b.t0) / width⌉ := fun width hwidth =>
      Int.ceil_pos.2 (div_pos (sub_pos.2 hspan) hwidth)
    have hevery' : (0 : K) < b.config.outputEvery := Int.cast_pos.2 (by omega)
    have hdense := hsize b.config.dt hdt
    have hsparse := hsize (b.config.dt * b.config.outputEvery) (mul_pos hdt hevery')
    rw [Rk4.maxOutputs]
    split <;> omega
  refine (Array1.returns_set (Array1.inRange_allocate _ le_rfl hmax)).mono fun columns hset => ?_
  have hsize : (columns.size : ℤ) = b.maxOutputs := by
    rw [hset.size_eq]
    exact Int.toNat_of_nonneg (by omega)
  refine ⟨⟨hsize, le_rfl, hmax, hset.at_index⟩, rfl, ?_, hspan, fun h => absurd h (lt_irrefl _),
    fun _ => rfl, rfl, rfl, ?_⟩
  · show b.t0 = b.t0 + ((1 - 1 : ℤ) : K) * b.config.dt
    rw [sub_self, Int.cast_zero, zero_mul, add_zero]
  · show (1 - 1) * b.stride ≤ 1 - 1
    rw [sub_self, zero_mul]

/-- **How the integration ends**: at the end, or after all steps that are allowed. -/
theorem returns_solve (hevery : 1 ≤ b.config.outputEvery) (hmax : 0 ≤ b.config.maxSteps)
    (hn : n ≠ 0) (undefined : ℤ → K × (Fin n → K)) :
    Returns (b.solve undefined) fun r => ∃ s,
      (b.Finished b.maxOutputs s ∨ b.Before b.maxOutputs (b.config.maxSteps + 1) s) ∧
        Returned s r := by
  have hvalid : ¬ (b.config.dt ≤ 0 ∨ b.tf ≤ b.t0 ∨ n = 0) := by
    rintro (h | h | h)
    · exact absurd hdt h.not_gt
    · exact absurd hspan h.not_gt
    · exact hn h
  rw [solve, if_neg hvalid]
  refine (returns_start hspan hdt undefined hevery).bind fun columns hstart => ?_
  refine (returns_doLoop_leaving (b.Finished b.maxOutputs) (b.Before b.maxOutputs) (by omega) hstart
    fun step s hstep hle h => h.returns_round hdt hevery hstep hle).bind fun out hout => ?_
  rcases out with s | s
  · have hs : b.Finished b.maxOutputs s := hout
    exact (hs.filled.returns_afterLoop hs.code_eq).mono fun r hr => ⟨s, .inl hs, hr⟩
  · have hs : b.Before b.maxOutputs (b.config.maxSteps + 1) s := hout
    exact (hs.filled.returns_afterLoop hs.code_eq).mono fun r hr => ⟨s, .inr hs, hr⟩

/-- **When the report is truthful.** There has to be something to integrate. Then the steps allowed
have to reach the end; or no step is allowed, the end is near, and the start is the time `0`. -/
theorem solve_truthful_iff (hevery : 1 ≤ b.config.outputEvery) (hmax : 0 ≤ b.config.maxSteps)
    (undefined : ℤ → K × (Fin n → K)) :
    Returns (b.solve undefined) b.Truthful ↔
      n ≠ 0 ∧ (0 < b.config.maxSteps ∧
          b.tf - b.t0 < b.config.maxSteps * b.config.dt + machineEpsilon ∨
        b.config.maxSteps = 0 ∧ b.t0 = 0 ∧ b.tf < machineEpsilon) := by
  by_cases hn : n = 0
  · have hsolve : b.solve undefined =
        some ⟨.invalidArg, 0, 0, 0, none, (b.t0, b.y0), (b.t0, b.y0)⟩ :=
      if_pos (.inr (.inr hn))
    refine ⟨fun h => ?_, fun h => absurd hn h.1⟩
    have hcode := (h.elim hsolve).code_eq
    split at hcode <;> cases hcode
  obtain ⟨r, hr, s, hs, hend⟩ := returns_solve hspan hdt hevery hmax hn undefined
  have htruthful : Returns (b.solve undefined) b.Truthful ↔ b.Truthful r :=
    ⟨fun h => h.elim hr, fun h => ⟨r, hr, h⟩⟩
  rw [htruthful, and_iff_right hn]
  rcases hs with hs | hs
  · exact ⟨fun _ => .inl ⟨hs.maxSteps_pos, hs.maxSteps_enough⟩, fun _ => hs.truthful hend⟩
  · rw [hs.truthful_iff hspan hmax hend, or_iff_right]
    rintro ⟨hpos, henough⟩
    have hfar := hs.far (by omega)
    rw [hs.t_eq, add_sub_cancel_right] at hfar
    linarith

end Solve

end Ordered

/-- `y' = y` from `0` to `1`, with the step `1 / 4`. -/
def growth (maxSteps : ℤ) : Rk4 ℚ 1 where
  func _ y := y
  t0 := 0
  tf := 1
  y0 := ![1]
  config := { dt := 1 / 4, maxSteps, outputEvery := 3 }

/-- Four steps are enough. -/
theorem solve_truthful_iff_growth : Returns ((growth 4).solve fun _ => 0) (growth 4).Truthful :=
  (solve_truthful_iff (by decide) (by with_unfolding_all decide) (by decide) (by decide)
    fun _ => 0).2 ⟨by decide, .inl ⟨by decide, by with_unfolding_all decide⟩⟩

/-- After one step the limit stops the run, which reports success and the time `0`. -/
theorem solve_reports_success_after_one_step :
    ∃ r, (growth 1).solve (fun _ => 0) = some r ∧ r.code = .success ∧ r.finalTime = 0 ∧
      r.last.1 = 1 / 4 ∧ ¬ (growth 1).Truthful r := by
  have hrun : ((growth 1).solve fun _ => 0).map (fun r => (r.code, r.finalTime, r.last.1)) =
      some (.success, 0, 1 / 4) := by
    with_unfolding_all decide
  obtain ⟨r, hr, hreport⟩ := Option.map_eq_some_iff.1 hrun
  obtain ⟨hcode, htime, hlast⟩ : r.code = .success ∧ r.finalTime = 0 ∧ r.last.1 = 1 / 4 := by
    simpa only [Prod.mk.injEq] using hreport
  refine ⟨r, hr, hcode, htime, hlast, fun htruthful => ?_⟩
  have hfinal := htruthful.finalTime_eq
  rw [htime, hlast] at hfinal
  exact absurd hfinal (by with_unfolding_all decide)

end Rk4

end DistributedComputing
