import Mathlib.Algebra.Order.Group.Abs
import Mathlib.Algebra.Order.Group.Int
import DistributedComputing.Worker.Loop

/-!
# Executing a task, and for how long

`executor_execute_task` runs the Fortran kernel on a task, and `execute_task_standalone` simulates
it. Both read a clock before and after, and store the difference in microseconds. The two formulas
differ in the suffixes of their literals only: in the executor, the difference of the nanoseconds is
converted to `unsigned long` before it is divided.

`elapsedNs` is the difference itself. `toNat_executorTime` says what the executor stores: the
elapsed microseconds, if the nanoseconds do not go back; otherwise the difference of the nanoseconds
is taken modulo `2 ^ 64`, and about `2 ^ 64 / 1000` microseconds are added. `exec_time_right_iff` is
the exact condition, about both functions.

Signed arithmetic that overflows is `none`. Null pointers to the task and the result are left out.
-/

namespace DistributedComputing

/-! ### Clock readings -/

/-- `struct timespec`, as `clock_gettime` fills it in. -/
structure Timespec where
  tvSec : Int64
  tvNsec : ℕ
  tvNsec_lt : tvNsec < 1000000000
  deriving DecidableEq, Repr

/-- The reading in nanoseconds. -/
def Timespec.ns (t : Timespec) : ℤ := t.tvSec.toInt * 1000000000 + t.tvNsec

/-- The nanoseconds from one reading to another. -/
def elapsedNs (start stop : Timespec) : ℤ := stop.ns - start.ns

/-- The value of an expression of type `long`, if it has one. -/
def longValue (v : ℤ) : Option ℤ := if -(2 ^ 63) ≤ v ∧ v < 2 ^ 63 then some v else none

/-- `exec_time_us` in `executor_execute_task`: the differences are signed, and everything behind
them is unsigned. -/
def executorTime (start stop : Timespec) : Option UInt64 := do
  let secs ← longValue (stop.tvSec.toInt - start.tvSec.toInt)
  let nsecs ← longValue (stop.tvNsec - start.tvNsec)
  return UInt64.ofInt secs * 1000000 + UInt64.ofInt nsecs / 1000

/-- `exec_time_us` in `execute_task_standalone`: everything is signed, and the sum is converted. -/
def standaloneTime (start stop : Timespec) : Option UInt64 := do
  let secs ← longValue (stop.tvSec.toInt - start.tvSec.toInt)
  let us ← longValue (secs * 1000000)
  let nsecs ← longValue (stop.tvNsec - start.tvNsec)
  let total ← longValue (us + nsecs.tdiv 1000)
  return UInt64.ofInt total

/-! ### The two functions -/

/-- `task_result_t`. -/
structure TaskReport where
  taskId : UInt64
  status : Int32 := 0
  output : UInt64 := 0
  outputBytesWritten : UInt64 := 0
  execTimeUs : UInt64 := 0
  queueTimeUs : UInt64 := 0
  workerId : UInt32 := 0
  diagMsg : String := ""
  deriving DecidableEq, Repr

/-- `ERR_INVALID_ARGUMENT`. -/
def errInvalidArgument : Int32 := 1

/-- The report on a task that the kernel was run on. -/
def finishedReport (rc : Int32) (task : Task) (us : UInt64) : TaskReport where
  taskId := task.taskId
  execTimeUs := us
  status := rc
  output := task.output
  outputBytesWritten := task.outputSize
  diagMsg := if rc = 0 then "" else "Fortran kernel returned error code " ++ toString rc.toInt

/-- `executor_execute_task`, with the readings of the clock and what the kernel returns. -/
def executorExecuteTask (start stop : Timespec) (rc : Int32) (task : Task) :
    Option (ℤ × TaskReport) :=
  if task.input = 0 ∨ task.inputSize = 0 then
    some (-2, { taskId := task.taskId, status := errInvalidArgument })
  else if task.output = 0 ∨ task.outputSize = 0 then
    some (-3, { taskId := task.taskId, status := errInvalidArgument })
  else (executorTime start stop).map fun us => (0, finishedReport rc task us)

/-- `execute_task_standalone`. -/
def executeTaskStandalone (start stop : Timespec) (task : Task) : Option (ℤ × TaskReport) :=
  (standaloneTime start stop).map fun us =>
    (0, { taskId := task.taskId, workerId := 0, status := 0, execTimeUs := us })

/-- The checks of the executor. -/
def Task.HasBuffers (task : Task) : Prop :=
  ¬ (task.input = 0 ∨ task.inputSize = 0) ∧ ¬ (task.output = 0 ∨ task.outputSize = 0)

instance (task : Task) : Decidable task.HasBuffers := inferInstanceAs (Decidable (_ ∧ _))

theorem executorExecuteTask_of_hasBuffers {task : Task} (h : task.HasBuffers)
    (start stop : Timespec) (rc : Int32) :
    executorExecuteTask start stop rc task =
      (executorTime start stop).map fun us => (0, finishedReport rc task us) :=
  (if_neg h.1).trans (if_neg h.2)

/-- What the worker's loop takes a task for, is what `execute_task_standalone` reports. -/
theorem executeTaskStandalone_report {start stop : Timespec} {task : Task} {rc : ℤ}
    {report : TaskReport} (h : executeTaskStandalone start stop task = some (rc, report)) :
    rc = 0 ∧ (⟨report.taskId, report.status.toInt⟩ : TaskResult) = executeTask task := by
  obtain ⟨us, -, hreport⟩ := Option.map_eq_some_iff.1 h
  obtain ⟨rfl, rfl⟩ := Prod.mk.inj hreport
  exact ⟨rfl, rfl⟩

/-! ### The time -/

theorem longValue_of_lt {v : ℤ} (hlo : -(2 ^ 63) ≤ v) (hhi : v < 2 ^ 63) : longValue v = some v :=
  if_pos ⟨hlo, hhi⟩

theorem toNat_ofInt (v : ℤ) : ((UInt64.ofInt v).toNat : ℤ) = v % 2 ^ 64 := by
  rw [UInt64.ofInt, UInt64.toNat_ofNat_of_lt' (by rw [UInt64.size]; omega)]
  omega

theorem toNat_unsigned_sum {secs nsecs : ℤ} (h0 : 0 ≤ secs) (hlo : -1000000000 < nsecs)
    (hlt : secs * 1000000000 + nsecs < 2 ^ 63 * 1000) :
    ((UInt64.ofInt secs * 1000000 + UInt64.ofInt nsecs / 1000).toNat : ℤ) =
      secs * 1000000 + nsecs % 2 ^ 64 / 1000 := by
  have hsecs := toNat_ofInt secs
  have hnsecs := toNat_ofInt nsecs
  have hmillion : (1000000 : UInt64).toNat = 1000000 := rfl
  have hthousand : (1000 : UInt64).toNat = 1000 := rfl
  rw [UInt64.toNat_add, UInt64.toNat_mul, UInt64.toNat_div, hmillion, hthousand]
  omega

variable {start stop : Timespec}

theorem differences (hle : start.ns ≤ stop.ns) (hlt : elapsedNs start stop < 2 ^ 63 * 1000) :
    0 ≤ stop.tvSec.toInt - start.tvSec.toInt ∧
      -1000000000 < (stop.tvNsec - start.tvNsec : ℤ) ∧
      (stop.tvNsec - start.tvNsec : ℤ) < 1000000000 ∧
      elapsedNs start stop = (stop.tvSec.toInt - start.tvSec.toInt) * 1000000000 +
        (stop.tvNsec - start.tvNsec : ℤ) := by
  have hstart := start.tvNsec_lt
  have hstop := stop.tvNsec_lt
  rw [elapsedNs] at hlt ⊢
  rw [Timespec.ns, Timespec.ns] at hle hlt ⊢
  omega

/-- **What the executor stores**: the microseconds of the seconds, and those of the nanoseconds
modulo `2 ^ 64`. -/
theorem toNat_executorTime (hle : start.ns ≤ stop.ns)
    (hlt : elapsedNs start stop < 2 ^ 63 * 1000) :
    ∃ us, executorTime start stop = some us ∧
      (us.toNat : ℤ) = (stop.tvSec.toInt - start.tvSec.toInt) * 1000000 +
        (stop.tvNsec - start.tvNsec : ℤ) % 2 ^ 64 / 1000 := by
  obtain ⟨h0, hlo, hhi, helapsed⟩ := differences hle hlt
  rw [helapsed] at hlt
  refine ⟨_, ?_, toNat_unsigned_sum h0 hlo hlt⟩
  rw [executorTime, longValue_of_lt (by omega) (by omega), longValue_of_lt (by omega) (by omega)]
  rfl

/-- **What a standalone worker stores**, if the nanoseconds do not go back. -/
theorem toNat_standaloneTime (hle : start.ns ≤ stop.ns)
    (hlt : elapsedNs start stop < 2 ^ 63 * 1000) (hns : start.tvNsec ≤ stop.tvNsec) :
    ∃ us, standaloneTime start stop = some us ∧
      (us.toNat : ℤ) = (stop.tvSec.toInt - start.tvSec.toInt) * 1000000 +
        (stop.tvNsec - start.tvNsec : ℤ) / 1000 := by
  obtain ⟨h0, hlo, hhi, helapsed⟩ := differences hle hlt
  rw [helapsed] at hlt
  have hsecs : longValue (stop.tvSec.toInt - start.tvSec.toInt) = some _ :=
    longValue_of_lt (by omega) (by omega)
  have hus : longValue ((stop.tvSec.toInt - start.tvSec.toInt) * 1000000) = some _ :=
    longValue_of_lt (by omega) (by omega)
  have hnsecs : longValue (stop.tvNsec - start.tvNsec) = some _ :=
    longValue_of_lt (by omega) (by omega)
  have htotal : longValue ((stop.tvSec.toInt - start.tvSec.toInt) * 1000000 +
      (stop.tvNsec - start.tvNsec : ℤ).tdiv 1000) =
        some ((stop.tvSec.toInt - start.tvSec.toInt) * 1000000 +
          (stop.tvNsec - start.tvNsec : ℤ) / 1000) := by
    rw [Int.tdiv_eq_ediv_of_nonneg (by omega)]
    exact longValue_of_lt (by omega) (by omega)
  have htime : standaloneTime start stop = some (UInt64.ofInt
      ((stop.tvSec.toInt - start.tvSec.toInt) * 1000000 +
        (stop.tvNsec - start.tvNsec : ℤ) / 1000)) := by
    simp only [standaloneTime, hsecs, hus, hnsecs, htotal, Option.bind_eq_bind, Option.bind_some]
    rfl
  refine ⟨_, htime, (toNat_ofInt _).trans (Int.emod_eq_of_lt ?_ ?_)⟩
  · omega
  · omega

/-- **The execution time.** From one reading to a later one, less than `2 ^ 63` microseconds after
it, the time that the executor reports is off by less than a microsecond and the same as that of a
standalone worker exactly if the nanoseconds do not go back. -/
theorem exec_time_right_iff (hle : start.ns ≤ stop.ns)
    (hlt : elapsedNs start stop < 2 ^ 63 * 1000) (rc : Int32) {task : Task}
    (htask : task.HasBuffers) :
    (∃ report report', executorExecuteTask start stop rc task = some (0, report) ∧
      executeTaskStandalone start stop task = some (0, report') ∧
      |(report.execTimeUs.toNat : ℤ) * 1000 - elapsedNs start stop| < 1000 ∧
      report.execTimeUs = report'.execTimeUs) ↔ start.tvNsec ≤ stop.tvNsec := by
  obtain ⟨us, hus, hval⟩ := toNat_executorTime hle hlt
  obtain ⟨h0, hlo, hhi, helapsed⟩ := differences hle hlt
  rw [executorExecuteTask_of_hasBuffers htask, hus, Option.map_some]
  constructor
  · rintro ⟨report, report', hreport, -, hnear, -⟩
    obtain rfl := (Prod.mk.inj (Option.some.inj hreport)).2
    have hbound := (abs_lt.1 hnear).2
    rw [show (finishedReport rc task us).execTimeUs = us from rfl, hval, helapsed] at hbound
    -- a negative difference would be more than `2 ^ 63` modulo `2 ^ 64`
    omega
  · intro hns
    obtain ⟨us', hus', hval'⟩ := toNat_standaloneTime hle hlt hns
    obtain rfl : us = us' := UInt64.toNat_inj.1 (by omega)
    have halone : executeTaskStandalone start stop task =
        some (0, { taskId := task.taskId, execTimeUs := us }) := by
      rw [executeTaskStandalone, hus', Option.map_some]
    refine ⟨_, _, rfl, halone, abs_lt.2 ?_, rfl⟩
    rw [show (finishedReport rc task us).execTimeUs = us from rfl, hval, helapsed]
    omega

/-- A task with two buffers. -/
def bufferTask : Task := { taskId := 1, input := 8, inputSize := 8, output := 16, outputSize := 8 }

/-- Half a second. -/
theorem exec_time_right_iff_half :
    ∃ report report',
      executorExecuteTask ⟨0, 0, by decide⟩ ⟨0, 500000000, by decide⟩ 0 bufferTask =
        some (0, report) ∧
      executeTaskStandalone ⟨0, 0, by decide⟩ ⟨0, 500000000, by decide⟩ bufferTask =
        some (0, report') ∧
      |(report.execTimeUs.toNat : ℤ) * 1000 -
        elapsedNs ⟨0, 0, by decide⟩ ⟨0, 500000000, by decide⟩| < 1000 ∧
      report.execTimeUs = report'.execTimeUs :=
  (exec_time_right_iff (by decide) (by decide) 0 (by decide)).2 (by decide)

/-- From the last nanosecond of a second to the first of the next, the executor sees more than five
hundred years pass, and the standalone worker a microsecond. -/
theorem exec_time_wrong_across_second :
    elapsedNs ⟨0, 999999999, by decide⟩ ⟨1, 0, by decide⟩ = 1 ∧
      executorExecuteTask ⟨0, 999999999, by decide⟩ ⟨1, 0, by decide⟩ 0 bufferTask =
        some (0, finishedReport 0 bufferTask 18446744073709551) ∧
      executeTaskStandalone ⟨0, 999999999, by decide⟩ ⟨1, 0, by decide⟩ bufferTask =
        some (0, { taskId := 1, execTimeUs := 1 }) := by
  decide

end DistributedComputing
