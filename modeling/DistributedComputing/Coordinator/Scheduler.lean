import Mathlib.Algebra.Group.Nat.Defs
import Mathlib.Data.Int.Basic
import DistributedComputing.Foundations.KeyedTable

/-!
# The scheduler's tables

A model of `scheduler.c`: the worker table, the tracking table of dispatched tasks, and the
statistics kept beside them. Each public function of the source is one definition here, taking the
readings of `time(NULL)` it makes as arguments and returning its C return code (if it has one)
together with the scheduler after the call. Every function runs under `sched->mutex`, so a call is
one atomic step.

Three points of the representation:

* the arrays `workers` and `tasks` are the lists of their first `worker_count` and `task_count`
  entries, so these counts are lengths; `tasks_running`, `tasks_completed` and `tasks_failed` of a
  worker are 32-bit and wrap;
* the five `size_t` counters of `scheduler_stats_t` are `Counter`s, which wrap at `2 ^ 64` and
  remember, for the statements only, whether a decrement ever went below zero. No function of the
  source reads that bit, and none here does;
* a search loop that stops at its first hit is a `KeyedTable.lookup`, and one that also modifies the
  hit is `Scheduler.onWorker`, with the change to the entry and the change to the statistics as its
  two arguments.
-/

namespace DistributedComputing

/-- A reading of `time(NULL)`, in seconds. -/
abbrev Time := ℤ

/-- `worker_state_t`. -/
inductive WorkerState
  | unknown
  | idle
  | busy
  | dead
  deriving DecidableEq, Repr

/-- `worker_info_t`, less the three performance fields, which nothing reads or writes. -/
structure WorkerInfo where
  workerId : UInt32
  state : WorkerState := .unknown
  lastHeartbeat : Time := 0
  registered : Time := 0
  numLocalRanks : UInt32 := 0
  maxBatchSize : UInt32 := 0
  capabilities : UInt32 := 0
  tasksRunning : UInt32 := 0
  tasksCompleted : UInt32 := 0
  tasksFailed : UInt32 := 0
  deriving DecidableEq, Repr

/-- `task_info_t`. -/
structure TaskInfo where
  taskId : UInt64
  workerId : UInt32
  submitted : Time
  started : Time
  status : ℤ
  deriving DecidableEq, Repr

/-! ### Counters and statistics -/

/-- A `size_t` counter. `wrapped` records whether a decrement ever found it at zero. -/
structure Counter where
  val : ℕ := 0
  wrapped : Bool := false
  deriving DecidableEq, Repr

namespace Counter

/-- `c++`. -/
def inc (c : Counter) : Counter :=
  { c with val := if c.val + 1 = 2 ^ 64 then 0 else c.val + 1 }

/-- `c--`. -/
def dec (c : Counter) : Counter :=
  if c.val = 0 then { val := 2 ^ 64 - 1, wrapped := true } else { c with val := c.val - 1 }

theorem inc_val {c : Counter} (h : c.val + 1 < 2 ^ 64) : c.inc.val = c.val + 1 :=
  if_neg (Nat.ne_of_lt h)

theorem dec_val {c : Counter} (h : 0 < c.val) : c.dec.val + 1 = c.val := by
  rw [dec, if_neg (Nat.ne_of_gt h)]
  exact Nat.succ_pred_eq_of_pos h

theorem dec_wrapped {c : Counter} (h : 0 < c.val) : c.dec.wrapped = c.wrapped := by
  rw [dec, if_neg (Nat.ne_of_gt h)]

end Counter

/-- `scheduler_stats_t`. -/
structure SchedulerStats where
  totalWorkers : Counter := {}
  activeWorkers : Counter := {}
  idleWorkers : Counter := {}
  busyWorkers : Counter := {}
  deadWorkers : Counter := {}
  tasksScheduled : UInt64 := 0
  tasksCompleted : UInt64 := 0
  tasksFailed : UInt64 := 0
  deriving DecidableEq, Repr

/-- `scheduler_config_t`, less the policy, which is stored and never read. -/
structure SchedulerConfig where
  maxWorkers : UInt64
  heartbeatTimeoutSecs : ℤ
  deriving DecidableEq, Repr

/-- `MAX_TRACKED_TASKS`. -/
def maxTrackedTasks : ℕ := 100000

/-- `struct scheduler`. -/
structure Scheduler where
  heartbeatTimeoutSecs : ℤ
  maxWorkers : UInt64
  workers : List WorkerInfo := []
  tasks : List TaskInfo := []
  maxTasks : ℕ
  stats : SchedulerStats := {}
  deriving DecidableEq, Repr

namespace Scheduler

/-- `scheduler_create`, its allocations succeeding. -/
def create (config : SchedulerConfig) : Scheduler where
  heartbeatTimeoutSecs := config.heartbeatTimeoutSecs
  maxWorkers := config.maxWorkers
  maxTasks := maxTrackedTasks

/-- The first entry of the worker table with the given id. -/
def worker? (s : Scheduler) (workerId : UInt32) : Option WorkerInfo :=
  KeyedTable.lookup WorkerInfo.workerId workerId s.workers

/-- The first entry of the tracking table with the given task id. -/
def task? (s : Scheduler) (taskId : UInt64) : Option TaskInfo :=
  KeyedTable.lookup TaskInfo.taskId taskId s.tasks

/-- The search loop shared by the functions that update one worker: at the first entry with the
given id, `entry` is applied to it and `stats` to the statistics; without a hit nothing changes. -/
def onWorker (s : Scheduler) (workerId : UInt32) (entry : WorkerInfo → WorkerInfo)
    (stats : WorkerInfo → SchedulerStats → SchedulerStats) : Scheduler :=
  match s.worker? workerId with
  | none => s
  | some w =>
    { s with
      workers := KeyedTable.update WorkerInfo.workerId workerId entry s.workers
      stats := stats w s.stats }

/-! ### The worker table -/

/-- `scheduler_register_worker`. The room check comes first, so a full table refuses known workers
too. A known worker's entry is overwritten, statistics untouched. -/
def registerWorker (s : Scheduler) (info : WorkerInfo) (now registeredAt : Time) : ℤ × Scheduler :=
  if s.maxWorkers.toNat ≤ s.workers.length then (-2, s)
  else
    match s.worker? info.workerId with
    | some _ =>
      -- idle from now on, but still counted under the state it had
      (0, s.onWorker info.workerId
        (fun _ => { info with state := .idle, lastHeartbeat := now }) fun _ st => st)
    | none =>
      (0, { s with
        workers := s.workers ++
          [{ info with state := .idle, lastHeartbeat := now, registered := registeredAt }]
        stats := { s.stats with
          totalWorkers := s.stats.totalWorkers.inc
          activeWorkers := s.stats.activeWorkers.inc
          idleWorkers := s.stats.idleWorkers.inc } })

/-- The counters of a worker that stops being active: `active_workers--`, and the counter of the
state it was in. Both `scheduler_unregister_worker` and `scheduler_check_timeouts` contain it. -/
def leaveActive (state : WorkerState) (st : SchedulerStats) : SchedulerStats :=
  match state with
  | .idle =>
    { st with activeWorkers := st.activeWorkers.dec, idleWorkers := st.idleWorkers.dec }
  | .busy =>
    { st with activeWorkers := st.activeWorkers.dec, busyWorkers := st.busyWorkers.dec }
  | _ => { st with activeWorkers := st.activeWorkers.dec }

/-- `scheduler_unregister_worker`. A dead worker leaves the statistics untouched. -/
def unregisterWorker (s : Scheduler) (workerId : UInt32) : ℤ × Scheduler :=
  match s.worker? workerId with
  | none => (-2, s)
  | some w =>
    (0, { s with
      workers := KeyedTable.swapRemove WorkerInfo.workerId workerId s.workers
      stats := if w.state ≠ .dead then leaveActive w.state s.stats else s.stats })

/-- `scheduler_update_heartbeat`, which also revives a dead worker. -/
def updateHeartbeat (s : Scheduler) (workerId : UInt32) (now : Time) : Scheduler :=
  s.onWorker workerId
    (fun w =>
      -- `tasks_running` stays what it was at the worker's death
      if w.state = .dead then { w with lastHeartbeat := now, state := .idle }
      else { w with lastHeartbeat := now })
    fun w st =>
      if w.state = .dead then
        { st with
          deadWorkers := st.deadWorkers.dec
          activeWorkers := st.activeWorkers.inc
          idleWorkers := st.idleWorkers.inc }
      else st

/-- `scheduler_mark_worker_busy`. The `size_t` count is added to a 32-bit field. -/
def markWorkerBusy (s : Scheduler) (workerId : UInt32) (taskCount : ℕ) : Scheduler :=
  s.onWorker workerId
    (fun w =>
      { w with
        state := if w.state = .idle then .busy else w.state
        tasksRunning := w.tasksRunning + UInt32.ofNat taskCount })
    fun w st =>
      if w.state = .idle then
        { st with idleWorkers := st.idleWorkers.dec, busyWorkers := st.busyWorkers.inc }
      else st

/-- The counters of a busy worker becoming idle. -/
def becomeIdle (st : SchedulerStats) : SchedulerStats :=
  { st with busyWorkers := st.busyWorkers.dec, idleWorkers := st.idleWorkers.inc }

/-- `scheduler_mark_worker_idle`. -/
def markWorkerIdle (s : Scheduler) (workerId : UInt32) : Scheduler :=
  s.onWorker workerId
    (fun w =>
      { w with
        state := if w.state = .busy then .idle else w.state
        tasksRunning := 0 })
    fun w st => if w.state = .busy then becomeIdle st else st

/-- `scheduler_get_idle_workers`: copies of at most `maxWorkers` idle entries, in table order. -/
def getIdleWorkers (s : Scheduler) (maxWorkers : ℕ) : List WorkerInfo :=
  (s.workers.filter fun w => w.state = .idle).take maxWorkers

/-! ### The tracking table -/

/-- `scheduler_track_task`. Entries are only ever appended, up to `max_tasks`. -/
def trackTask (s : Scheduler) (taskId : UInt64) (workerId : UInt32) (submitted started : Time) :
    ℤ × Scheduler :=
  if s.maxTasks ≤ s.tasks.length then (-2, s)
  else
    (0, { s with
      tasks := s.tasks ++ [{ taskId, workerId, submitted, started, status := -1 }]
      stats := { s.stats with tasksScheduled := s.stats.tasksScheduled + 1 } })

/-- `tasks_running` after a completion: decremented unless it is already zero. -/
def runningAfter (w : WorkerInfo) : UInt32 :=
  if 0 < w.tasksRunning then w.tasksRunning - 1 else w.tasksRunning

/-- What a completion does to the entry of the worker the task was tracked for. -/
def completeEntry (status : ℤ) (w : WorkerInfo) : WorkerInfo :=
  { w with
    tasksRunning := runningAfter w
    tasksCompleted := if status = 0 then w.tasksCompleted + 1 else w.tasksCompleted
    tasksFailed := if status = 0 then w.tasksFailed else w.tasksFailed + 1
    state := if runningAfter w = 0 ∧ w.state = .busy then .idle else w.state }

/-- The global outcome counters of a completion. -/
def countOutcome (status : ℤ) (st : SchedulerStats) : SchedulerStats :=
  if status = 0 then { st with tasksCompleted := st.tasksCompleted + 1 }
  else { st with tasksFailed := st.tasksFailed + 1 }

/-- What a completion does to the statistics: the outcome is counted, and a busy worker without
running tasks becomes idle. -/
def completeStats (status : ℤ) (w : WorkerInfo) (st : SchedulerStats) : SchedulerStats :=
  if runningAfter w = 0 ∧ w.state = .busy then becomeIdle (countOutcome status st)
  else countOutcome status st

/-- `status` written into the first tracking entry with the given id. -/
def withStatus (s : Scheduler) (taskId : UInt64) (status : ℤ) : Scheduler :=
  { s with tasks := KeyedTable.update TaskInfo.taskId taskId (fun t => { t with status }) s.tasks }

/-- `scheduler_mark_task_complete`. The first entry with the id is hit, whatever its status; the
statistics change only if the worker of that entry is still in the table. -/
def markTaskComplete (s : Scheduler) (taskId : UInt64) (status : ℤ) : ℤ × Scheduler :=
  match s.task? taskId with
  | none => (-2, s)
  | some task =>
    (0, (s.withStatus taskId status).onWorker task.workerId (completeEntry status)
      (completeStats status))

/-! ### Timeouts -/

/-- One round of the loop of `scheduler_check_timeouts`: the entry and the statistics after it, and
whether the worker was declared dead in it. -/
def checkTimeout (timeout : ℤ) (now : Time) (w : WorkerInfo) (st : SchedulerStats) :
    WorkerInfo × SchedulerStats × Bool :=
  if w.state ≠ .dead ∧ timeout < now - w.lastHeartbeat then
    -- the tasks of the worker are not looked at
    let st := leaveActive w.state st
    ({ w with state := .dead }, { st with deadWorkers := st.deadWorkers.inc }, true)
  else (w, st, false)

/-- The loop of `scheduler_check_timeouts` over the rest of the table, with the number of workers
it declares dead. -/
def checkTimeoutsLoop (timeout : ℤ) (now : Time) :
    List WorkerInfo → SchedulerStats → List WorkerInfo × SchedulerStats × ℕ
  | [], st => ([], st, 0)
  | w :: ws, st =>
    let (w', st', died) := checkTimeout timeout now w st
    let (ws', st'', n) := checkTimeoutsLoop timeout now ws st'
    (w' :: ws', st'', if died then n + 1 else n)

/-- `scheduler_check_timeouts`. -/
def checkTimeouts (s : Scheduler) (now : Time) : ℕ × Scheduler :=
  let (workers, stats, n) := checkTimeoutsLoop s.heartbeatTimeoutSecs now s.workers s.stats
  (n, { s with workers, stats })

/-! ### One lemma per call -/

theorem onWorker_of_none {s : Scheduler} {i : UInt32} {f : WorkerInfo → WorkerInfo}
    {g : WorkerInfo → SchedulerStats → SchedulerStats} (h : s.worker? i = none) :
    s.onWorker i f g = s := by
  rw [onWorker, h]

theorem onWorker_of_some {s : Scheduler} {i : UInt32} {f : WorkerInfo → WorkerInfo}
    {g : WorkerInfo → SchedulerStats → SchedulerStats} {w : WorkerInfo} (h : s.worker? i = some w) :
    s.onWorker i f g =
      { s with
        workers := KeyedTable.update WorkerInfo.workerId i f s.workers
        stats := g w s.stats } := by
  rw [onWorker, h]

@[simp] theorem onWorker_maxWorkers (s : Scheduler) (i : UInt32) (f : WorkerInfo → WorkerInfo)
    (g : WorkerInfo → SchedulerStats → SchedulerStats) :
    (s.onWorker i f g).maxWorkers = s.maxWorkers := by
  rcases h : s.worker? i with - | w
  · rw [onWorker_of_none h]
  · rw [onWorker_of_some h]

@[simp] theorem onWorker_tasks (s : Scheduler) (i : UInt32) (f : WorkerInfo → WorkerInfo)
    (g : WorkerInfo → SchedulerStats → SchedulerStats) : (s.onWorker i f g).tasks = s.tasks := by
  rcases h : s.worker? i with - | w
  · rw [onWorker_of_none h]
  · rw [onWorker_of_some h]

@[simp] theorem onWorker_maxTasks (s : Scheduler) (i : UInt32) (f : WorkerInfo → WorkerInfo)
    (g : WorkerInfo → SchedulerStats → SchedulerStats) :
    (s.onWorker i f g).maxTasks = s.maxTasks := by
  rcases h : s.worker? i with - | w
  · rw [onWorker_of_none h]
  · rw [onWorker_of_some h]

/-- Updating a worker never changes the table except at the first entry with its id. -/
theorem onWorker_workers (s : Scheduler) (i : UInt32) (f : WorkerInfo → WorkerInfo)
    (g : WorkerInfo → SchedulerStats → SchedulerStats) :
    (s.onWorker i f g).workers = KeyedTable.update WorkerInfo.workerId i f s.workers := by
  rcases h : s.worker? i with - | w
  · rw [onWorker_of_none h, KeyedTable.update_of_lookup_eq_none h]
  · rw [onWorker_of_some h]

theorem registerWorker_of_full {s : Scheduler} {info : WorkerInfo} {now registeredAt : Time}
    (hfull : s.maxWorkers.toNat ≤ s.workers.length) :
    s.registerWorker info now registeredAt = (-2, s) := by
  rw [registerWorker, if_pos hfull]

theorem registerWorker_of_known {s : Scheduler} {info w : WorkerInfo} {now registeredAt : Time}
    (hroom : s.workers.length < s.maxWorkers.toNat) (h : s.worker? info.workerId = some w) :
    s.registerWorker info now registeredAt =
      (0, s.onWorker info.workerId
        (fun _ => { info with state := .idle, lastHeartbeat := now }) fun _ st => st) := by
  rw [registerWorker, if_neg (Nat.not_le.2 hroom), h]

theorem registerWorker_of_new {s : Scheduler} {info : WorkerInfo} {now registeredAt : Time}
    (hroom : s.workers.length < s.maxWorkers.toNat) (h : s.worker? info.workerId = none) :
    s.registerWorker info now registeredAt =
      (0, { s with
        workers := s.workers ++
          [{ info with state := .idle, lastHeartbeat := now, registered := registeredAt }]
        stats := { s.stats with
          totalWorkers := s.stats.totalWorkers.inc
          activeWorkers := s.stats.activeWorkers.inc
          idleWorkers := s.stats.idleWorkers.inc } }) := by
  rw [registerWorker, if_neg (Nat.not_le.2 hroom), h]

theorem unregisterWorker_of_some {s : Scheduler} {i : UInt32} {w : WorkerInfo}
    (h : s.worker? i = some w) :
    s.unregisterWorker i =
      (0, { s with
        workers := KeyedTable.swapRemove WorkerInfo.workerId i s.workers
        stats := if w.state ≠ .dead then leaveActive w.state s.stats else s.stats }) := by
  rw [unregisterWorker, h]

theorem unregisterWorker_of_none {s : Scheduler} {i : UInt32} (h : s.worker? i = none) :
    s.unregisterWorker i = (-2, s) := by
  rw [unregisterWorker, h]

theorem trackTask_of_full {s : Scheduler} {taskId : UInt64} {i : UInt32} {submitted started : Time}
    (hfull : s.maxTasks ≤ s.tasks.length) :
    s.trackTask taskId i submitted started = (-2, s) := by
  rw [trackTask, if_pos hfull]

theorem trackTask_of_room {s : Scheduler} {taskId : UInt64} {i : UInt32} {submitted started : Time}
    (hroom : s.tasks.length < s.maxTasks) :
    s.trackTask taskId i submitted started =
      (0, { s with
        tasks := s.tasks ++ [{ taskId, workerId := i, submitted, started, status := -1 }]
        stats := { s.stats with tasksScheduled := s.stats.tasksScheduled + 1 } }) := by
  rw [trackTask, if_neg (Nat.not_le.2 hroom)]

theorem markTaskComplete_of_none {s : Scheduler} {taskId : UInt64} {status : ℤ}
    (h : s.task? taskId = none) : s.markTaskComplete taskId status = (-2, s) := by
  rw [markTaskComplete, h]

theorem markTaskComplete_of_some {s : Scheduler} {taskId : UInt64} {status : ℤ} {task : TaskInfo}
    (h : s.task? taskId = some task) :
    s.markTaskComplete taskId status =
      (0, (s.withStatus taskId status).onWorker task.workerId (completeEntry status)
        (completeStats status)) := by
  rw [markTaskComplete, h]

/-! ### Calls in sequence -/

/-- A call of one of the functions that change the scheduler, with the clock readings it makes. -/
inductive Call
  | registerWorker (info : WorkerInfo) (now registeredAt : Time)
  | unregisterWorker (workerId : UInt32)
  | updateHeartbeat (workerId : UInt32) (now : Time)
  | markWorkerBusy (workerId : UInt32) (taskCount : ℕ)
  | markWorkerIdle (workerId : UInt32)
  | trackTask (taskId : UInt64) (workerId : UInt32) (submitted started : Time)
  | markTaskComplete (taskId : UInt64) (status : ℤ)
  | checkTimeouts (now : Time)
  deriving DecidableEq, Repr

/-- The scheduler after a call. -/
def call (s : Scheduler) : Call → Scheduler
  | .registerWorker info now registeredAt => (s.registerWorker info now registeredAt).2
  | .unregisterWorker workerId => (s.unregisterWorker workerId).2
  | .updateHeartbeat workerId now => s.updateHeartbeat workerId now
  | .markWorkerBusy workerId taskCount => s.markWorkerBusy workerId taskCount
  | .markWorkerIdle workerId => s.markWorkerIdle workerId
  | .trackTask taskId workerId submitted started =>
    (s.trackTask taskId workerId submitted started).2
  | .markTaskComplete taskId status => (s.markTaskComplete taskId status).2
  | .checkTimeouts now => (s.checkTimeouts now).2

/-- The scheduler as a machine whose labels are calls; every call is enabled in every state. -/
def step (s : Scheduler) (c : Call) : Option Scheduler := some (s.call c)

end Scheduler

end DistributedComputing
