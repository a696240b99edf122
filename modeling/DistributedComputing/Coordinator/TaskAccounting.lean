import DistributedComputing.Coordinator.SchedulerTable

/-!
# Task completion accounting

`stats.tasks_completed` and `stats.tasks_failed` are meant to count the tracked tasks by outcome.
What has been marked complete cannot be read off the tracking table afterwards (a result may carry
the pending status `-1`, and a second result overwrites the first), so the history is kept beside
it: a `Ledger` is a scheduler together with one `Mark` per tracking entry, written by the very
search that `scheduler_mark_task_complete` makes. Its scheduler is that of the same calls
(`Ledger.call_sched`).

`scheduler_mark_task_complete` counts an outcome when the worker of the entry is still in the table,
and does so at every result. The entry, in contrast, is marked at every result, whether or not the
worker is there. So accounting stays exact through a result exactly in two cases, `CountsOnce`: an
entry that was not marked before and whose worker is there, or an entry already marked with the same
kind of outcome whose worker is gone, where nothing at all is counted. `accountingExact_along_iff`
states this for whole histories.
-/

namespace DistributedComputing

open StepRun KeyedTable

/-- What is known about one tracking entry: the status it was last marked complete with. -/
structure Mark where
  taskId : UInt64
  outcome : Option ℤ := none
  deriving DecidableEq, Repr

/-- A scheduler with the completion history of its tracking table. -/
structure Ledger where
  sched : Scheduler
  marks : List Mark := []
  deriving DecidableEq, Repr

namespace Ledger

/-- The ledger of a fresh scheduler. -/
def create (config : SchedulerConfig) : Ledger where
  sched := Scheduler.create config

/-- The history after a call: an accepted `scheduler_track_task` opens a mark, and
`scheduler_mark_task_complete` writes the status into the mark of the entry it finds. -/
def marksAfter (g : Ledger) : Scheduler.Call → List Mark
  | .trackTask taskId _ _ _ =>
    if g.sched.tasks.length < g.sched.maxTasks then g.marks ++ [{ taskId }] else g.marks
  | .markTaskComplete taskId status =>
    update Mark.taskId taskId (fun m => { m with outcome := some status }) g.marks
  | _ => g.marks

/-- A call, observed. -/
def call (g : Ledger) (c : Scheduler.Call) : Ledger where
  sched := g.sched.call c
  marks := g.marksAfter c

/-- The ledger as a machine whose labels are calls. -/
def step (g : Ledger) (c : Scheduler.Call) : Option Ledger := some (g.call c)

@[simp] theorem call_sched (g : Ledger) (c : Scheduler.Call) :
    (g.call c).sched = g.sched.call c := rfl

/-- An entry marked complete with status 0. -/
def isCompleted (m : Mark) : Bool := m.outcome = some 0

/-- An entry marked complete with a non-zero status. -/
def isFailed (m : Mark) : Bool := m.outcome ≠ none ∧ m.outcome ≠ some 0

/-- The global counters are the numbers of tracked entries marked complete by outcome, and together
they do not exceed the number of tasks scheduled. -/
structure AccountingExact (g : Ledger) : Prop where
  completed : g.sched.stats.tasksCompleted.toNat = g.marks.countP isCompleted
  failed : g.sched.stats.tasksFailed.toNat = g.marks.countP isFailed
  le_scheduled : g.sched.stats.tasksCompleted.toNat + g.sched.stats.tasksFailed.toNat ≤
    g.sched.stats.tasksScheduled.toNat

/-- The worker is in the table. -/
def Present (s : Scheduler) (workerId : UInt32) : Prop := (s.worker? workerId).isSome

instance (s : Scheduler) (workerId : UInt32) : Decidable (Present s workerId) :=
  inferInstanceAs (Decidable ((s.worker? workerId).isSome = true))

/-- The results that are counted once: the entry found was not marked before and its worker is in
the table, or it was marked with the same kind of outcome and its worker is gone. -/
def CountsOnce (g : Ledger) : Scheduler.Call → Prop
  | .markTaskComplete taskId status =>
    ∀ task m, g.sched.task? taskId = some task → lookup Mark.taskId taskId g.marks = some m →
      (m.outcome = none ∧ Present g.sched task.workerId) ∨
        (∃ st, m.outcome = some st ∧ (st = 0 ↔ status = 0)) ∧ ¬ Present g.sched task.workerId
  | _ => True

/-! ### The ledger follows the tracking table -/

/-- The marks are one per tracking entry, in order, and `tasks_scheduled` is their number. -/
structure Follows (g : Ledger) : Prop where
  wellFormed : g.sched.WellFormed
  maxTasks : g.sched.maxTasks = maxTrackedTasks
  ids : g.marks.map Mark.taskId = g.sched.tasks.map TaskInfo.taskId
  scheduled : g.sched.stats.tasksScheduled.toNat = g.sched.tasks.length

theorem follows_create (config : SchedulerConfig) : (create config).Follows :=
  ⟨Scheduler.wellFormed_create config, rfl, rfl, rfl⟩

variable {g : Ledger}

theorem Follows.length_marks (h : g.Follows) : g.marks.length = g.sched.tasks.length := by
  have := congrArg List.length h.ids
  rwa [List.length_map, List.length_map] at this

theorem Follows.tasks_le (h : g.Follows) : g.sched.tasks.length ≤ maxTrackedTasks :=
  h.maxTasks ▸ h.wellFormed.tasks_le

/-- The search for an id hits a mark exactly when it hits a tracking entry. -/
theorem Follows.lookup_eq_none_iff (h : g.Follows) (taskId : UInt64) :
    lookup Mark.taskId taskId g.marks = none ↔ g.sched.task? taskId = none := by
  rw [lookup_eq_none_iff_not_mem, h.ids, Scheduler.task?, lookup_eq_none_iff_not_mem]

/-- The tracking table and everything counted about it are the same. -/
structure SameTasks (s s' : Scheduler) : Prop where
  tasks : s'.tasks = s.tasks
  maxTasks : s'.maxTasks = s.maxTasks
  scheduled : s'.stats.tasksScheduled = s.stats.tasksScheduled
  completed : s'.stats.tasksCompleted = s.stats.tasksCompleted
  failed : s'.stats.tasksFailed = s.stats.tasksFailed

/-- The worker functions do not touch the task counters. -/
def KeepsTaskCounters (f : SchedulerStats → SchedulerStats) : Prop :=
  ∀ st, (f st).tasksScheduled = st.tasksScheduled ∧ (f st).tasksCompleted = st.tasksCompleted ∧
    (f st).tasksFailed = st.tasksFailed

theorem sameTasks_refl (s : Scheduler) : SameTasks s s := ⟨rfl, rfl, rfl, rfl, rfl⟩

theorem sameTasks_onWorker {s : Scheduler} {i : UInt32} {f : WorkerInfo → WorkerInfo}
    {st : WorkerInfo → SchedulerStats → SchedulerStats} (hst : ∀ w, KeepsTaskCounters (st w)) :
    SameTasks s (s.onWorker i f st) := by
  rcases hw : s.worker? i with - | w
  · rw [Scheduler.onWorker_of_none hw]
    exact sameTasks_refl s
  · rw [Scheduler.onWorker_of_some hw]
    obtain ⟨h1, h2, h3⟩ := hst w s.stats
    exact ⟨rfl, rfl, h1, h2, h3⟩

theorem keepsTaskCounters_leaveActive (q : WorkerState) :
    KeepsTaskCounters (Scheduler.leaveActive q) := by
  intro st
  cases q <;> simp [Scheduler.leaveActive]

theorem keepsTaskCounters_checkTimeoutsLoop (timeout : ℤ) (now : Time) (l : List WorkerInfo) :
    KeepsTaskCounters fun st => (Scheduler.checkTimeoutsLoop timeout now l st).2.1 := by
  induction l with
  | nil => exact fun st => ⟨rfl, rfl, rfl⟩
  | cons w l ih =>
    intro st
    obtain ⟨h1, h2, h3⟩ := ih (Scheduler.checkTimeout timeout now w st).2.1
    have hw : (Scheduler.checkTimeout timeout now w st).2.1.tasksScheduled = st.tasksScheduled ∧
        (Scheduler.checkTimeout timeout now w st).2.1.tasksCompleted = st.tasksCompleted ∧
        (Scheduler.checkTimeout timeout now w st).2.1.tasksFailed = st.tasksFailed := by
      rw [Scheduler.checkTimeout]
      split
      · exact keepsTaskCounters_leaveActive w.state st
      · exact ⟨rfl, rfl, rfl⟩
    exact ⟨h1.trans hw.1, h2.trans hw.2.1, h3.trans hw.2.2⟩

/-- The two calls that are about tasks. -/
def isTaskCall : Scheduler.Call → Bool
  | .trackTask .. => true
  | .markTaskComplete .. => true
  | _ => false

/-- The other calls leave the tracking table and its counters alone. -/
theorem sameTasks_call (s : Scheduler) {c : Scheduler.Call} (hc : isTaskCall c = false) :
    SameTasks s (s.call c) := by
  cases c with
  | registerWorker info now registeredAt =>
    rw [Scheduler.call, Scheduler.registerWorker]
    split
    · exact sameTasks_refl s
    · split
      · exact sameTasks_onWorker fun _ _ => ⟨rfl, rfl, rfl⟩
      · exact ⟨rfl, rfl, rfl, rfl, rfl⟩
  | unregisterWorker i =>
    rw [Scheduler.call, Scheduler.unregisterWorker]
    split
    · exact sameTasks_refl s
    · next w _ =>
      obtain ⟨h1, h2, h3⟩ := keepsTaskCounters_leaveActive w.state s.stats
      refine ⟨rfl, rfl, ?_, ?_, ?_⟩ <;> dsimp only <;> split <;> trivial
  | updateHeartbeat i now =>
    rw [Scheduler.call, Scheduler.updateHeartbeat]
    refine sameTasks_onWorker fun w st => ?_
    split <;> exact ⟨rfl, rfl, rfl⟩
  | markWorkerBusy i n =>
    rw [Scheduler.call, Scheduler.markWorkerBusy]
    refine sameTasks_onWorker fun w st => ?_
    split <;> exact ⟨rfl, rfl, rfl⟩
  | markWorkerIdle i =>
    rw [Scheduler.call, Scheduler.markWorkerIdle]
    refine sameTasks_onWorker fun w st => ?_
    split <;> exact ⟨rfl, rfl, rfl⟩
  | trackTask => exact absurd hc Bool.noConfusion
  | markTaskComplete => exact absurd hc Bool.noConfusion
  | checkTimeouts now =>
    obtain ⟨h1, h2, h3⟩ :=
      keepsTaskCounters_checkTimeoutsLoop s.heartbeatTimeoutSecs now s.workers s.stats
    exact ⟨rfl, rfl, h1, h2, h3⟩

/-! ### Every call keeps the ledger in step -/

theorem toNat_add_one {c : UInt64} (h : c.toNat + 1 < 2 ^ 64) : (c + 1).toNat = c.toNat + 1 := by
  rw [UInt64.toNat_add]
  exact Nat.mod_eq_of_lt h

theorem Follows.of_sameTasks (h : g.Follows) {c : Scheduler.Call}
    (hs : SameTasks g.sched (g.sched.call c)) (hm : g.marksAfter c = g.marks) :
    (g.call c).Follows where
  wellFormed := h.wellFormed.call c
  maxTasks := hs.maxTasks.trans h.maxTasks
  ids := by rw [call_sched, hs.tasks, ← h.ids, ← hm]; rfl
  scheduled := by rw [call_sched, hs.scheduled, hs.tasks, h.scheduled]

theorem Follows.trackTask (h : g.Follows) (taskId : UInt64) (i : UInt32)
    (submitted started : Time) :
    (g.call (.trackTask taskId i submitted started)).Follows := by
  -- The mark is appended under the same condition as the tracking entry.
  by_cases hroom : g.sched.tasks.length < g.sched.maxTasks
  · have hle := h.tasks_le
    have hlt : g.sched.stats.tasksScheduled.toNat + 1 < 2 ^ 64 := by
      rw [h.scheduled]
      exact lt_of_le_of_lt (Nat.succ_le_succ hle) (by decide)
    refine ⟨h.wellFormed.call (.trackTask taskId i submitted started), ?_, ?_, ?_⟩
    · simp only [call, Scheduler.call, Scheduler.trackTask_of_room hroom, h.maxTasks]
    · simp only [call, Scheduler.call, Scheduler.trackTask_of_room hroom, marksAfter, if_pos hroom,
        List.map_append, h.ids, List.map_cons, List.map_nil]
    · simp only [call, Scheduler.call, Scheduler.trackTask_of_room hroom, List.length_append,
        List.length_singleton, ← h.scheduled]
      exact toNat_add_one hlt
  · refine h.of_sameTasks ?_ (if_neg hroom)
    rw [Scheduler.call, Scheduler.trackTask_of_full (Nat.le_of_not_lt hroom)]
    exact sameTasks_refl _

theorem markTaskComplete_counters {s : Scheduler} {taskId : UInt64} (status : ℤ) {task : TaskInfo}
    (ht : s.task? taskId = some task) :
    (s.markTaskComplete taskId status).2.stats.tasksScheduled = s.stats.tasksScheduled ∧
    (s.markTaskComplete taskId status).2.stats.tasksCompleted =
      (if Present s task.workerId ∧ status = 0 then s.stats.tasksCompleted + 1
        else s.stats.tasksCompleted) ∧
    (s.markTaskComplete taskId status).2.stats.tasksFailed =
      (if Present s task.workerId ∧ status ≠ 0 then s.stats.tasksFailed + 1
        else s.stats.tasksFailed) := by
  rw [Scheduler.markTaskComplete_of_some ht]
  rcases hw : s.worker? task.workerId with - | w
  · have habs : ¬ Present s task.workerId := by simp [Present, hw]
    rw [Scheduler.onWorker_of_none (s := s.withStatus taskId status) hw]
    simp [habs, Scheduler.withStatus]
  · have hpres : Present s task.workerId := by simp [Present, hw]
    rw [Scheduler.onWorker_of_some (s := s.withStatus taskId status) hw]
    by_cases hst : status = 0
    · by_cases hidle : Scheduler.runningAfter w = 0 ∧ w.state = .busy <;>
        simp [hpres, hst, hidle, Scheduler.completeStats, Scheduler.countOutcome,
          Scheduler.becomeIdle, Scheduler.withStatus]
    · by_cases hidle : Scheduler.runningAfter w = 0 ∧ w.state = .busy <;>
        simp [hpres, hst, hidle, Scheduler.completeStats, Scheduler.countOutcome,
          Scheduler.becomeIdle, Scheduler.withStatus]

theorem markTaskComplete_tasks (s : Scheduler) (taskId : UInt64) (status : ℤ) :
    (s.markTaskComplete taskId status).2.tasks.map TaskInfo.taskId =
      s.tasks.map TaskInfo.taskId := by
  rcases ht : s.task? taskId with - | task
  · rw [Scheduler.markTaskComplete_of_none ht]
  · rw [Scheduler.markTaskComplete_of_some ht, Scheduler.onWorker_tasks]
    refine map_key_update ?_
    exact fun _ h => h

theorem markTaskComplete_maxTasks (s : Scheduler) (taskId : UInt64) (status : ℤ) :
    (s.markTaskComplete taskId status).2.maxTasks = s.maxTasks := by
  rcases ht : s.task? taskId with - | task
  · rw [Scheduler.markTaskComplete_of_none ht]
  · rw [Scheduler.markTaskComplete_of_some ht, Scheduler.onWorker_maxTasks]
    rfl

theorem markTaskComplete_scheduled (s : Scheduler) (taskId : UInt64) (status : ℤ) :
    (s.markTaskComplete taskId status).2.stats.tasksScheduled = s.stats.tasksScheduled := by
  rcases ht : s.task? taskId with - | task
  · rw [Scheduler.markTaskComplete_of_none ht]
  · exact (markTaskComplete_counters status ht).1

theorem Follows.markTaskComplete (h : g.Follows) (taskId : UInt64) (status : ℤ) :
    (g.call (.markTaskComplete taskId status)).Follows where
  wellFormed := h.wellFormed.call (.markTaskComplete taskId status)
  maxTasks := (markTaskComplete_maxTasks g.sched taskId status).trans h.maxTasks
  ids := by
    calc (g.call (.markTaskComplete taskId status)).marks.map Mark.taskId
        = g.marks.map Mark.taskId := by
          refine map_key_update ?_
          exact fun _ hm => hm
      _ = g.sched.tasks.map TaskInfo.taskId := h.ids
      _ = _ := (markTaskComplete_tasks g.sched taskId status).symm
  scheduled := by
    have hlen := congrArg List.length (markTaskComplete_tasks g.sched taskId status)
    rw [List.length_map, List.length_map] at hlen
    rw [call_sched, Scheduler.call, markTaskComplete_scheduled, h.scheduled, hlen]

/-- **The ledger stays in step** through every call. -/
theorem Follows.call (h : g.Follows) (c : Scheduler.Call) : (g.call c).Follows := by
  cases c with
  | trackTask taskId i submitted started => exact h.trackTask taskId i submitted started
  | markTaskComplete taskId status => exact h.markTaskComplete taskId status
  | _ => exact h.of_sameTasks (sameTasks_call g.sched rfl) rfl

/-! ### When a call keeps the accounting exact -/

theorem countP_isCompleted_add_isFailed_le (l : List Mark) :
    l.countP isCompleted + l.countP isFailed ≤ l.length := by
  induction l with
  | nil => exact Nat.le_refl 0
  | cons m l ih =>
    have hone : (if isCompleted m then 1 else 0) + (if isFailed m then 1 else 0) ≤ 1 := by
      by_cases hm : m.outcome = some 0 <;> simp [isCompleted, isFailed, hm]
      split <;> omega
    simp only [List.countP_cons, List.length_cons]
    omega

/-- The bound by `tasks_scheduled` follows from the two equations. -/
theorem Follows.accountingExact_iff (h : g.Follows) :
    g.AccountingExact ↔
      g.sched.stats.tasksCompleted.toNat = g.marks.countP isCompleted ∧
        g.sched.stats.tasksFailed.toNat = g.marks.countP isFailed := by
  refine ⟨fun ha => ⟨ha.completed, ha.failed⟩, fun ⟨hc, hf⟩ => ⟨hc, hf, ?_⟩⟩
  calc g.sched.stats.tasksCompleted.toNat + g.sched.stats.tasksFailed.toNat
      = g.marks.countP isCompleted + g.marks.countP isFailed := by rw [hc, hf]
    _ ≤ g.marks.length := countP_isCompleted_add_isFailed_le g.marks
    _ = g.sched.stats.tasksScheduled.toNat := h.length_marks.trans h.scheduled.symm

theorem AccountingExact.of_eq (h : g.AccountingExact) {c : Scheduler.Call} (hf : g.Follows)
    (hc : (g.sched.call c).stats.tasksCompleted = g.sched.stats.tasksCompleted)
    (hd : (g.sched.call c).stats.tasksFailed = g.sched.stats.tasksFailed)
    (hcount : ∀ q : Mark → Bool, (∀ taskId, q { taskId } = false) →
      (g.marksAfter c).countP q = g.marks.countP q) :
    (g.call c).AccountingExact := by
  refine (hf.call c).accountingExact_iff.2 ⟨?_, ?_⟩
  · rw [call_sched, hc, h.completed]
    exact (hcount isCompleted fun _ => rfl).symm
  · rw [call_sched, hd, h.failed]
    exact (hcount isFailed fun _ => rfl).symm

theorem AccountingExact.of_sameTasks (h : g.AccountingExact) {c : Scheduler.Call} (hf : g.Follows)
    (hs : SameTasks g.sched (g.sched.call c)) (hm : g.marksAfter c = g.marks) :
    (g.call c).AccountingExact :=
  h.of_eq hf hs.completed hs.failed fun _ _ => by rw [hm]

theorem AccountingExact.trackTask (h : g.AccountingExact) (hf : g.Follows) (taskId : UInt64)
    (i : UInt32) (submitted started : Time) :
    (g.call (.trackTask taskId i submitted started)).AccountingExact := by
  by_cases hroom : g.sched.tasks.length < g.sched.maxTasks
  · refine h.of_eq hf ?_ ?_ fun q hnew => ?_
    · rw [Scheduler.call, Scheduler.trackTask_of_room hroom]
    · rw [Scheduler.call, Scheduler.trackTask_of_room hroom]
    · simp [marksAfter, if_pos hroom, List.countP_append, hnew]
  · refine h.of_eq hf ?_ ?_ fun q _ => ?_
    · rw [Scheduler.call, Scheduler.trackTask_of_full (Nat.le_of_not_lt hroom)]
    · rw [Scheduler.call, Scheduler.trackTask_of_full (Nat.le_of_not_lt hroom)]
    · rw [marksAfter, if_neg hroom]

theorem Follows.countP_lt (h : g.Follows) (q : Mark → Bool) : g.marks.countP q + 1 < 2 ^ 64 := by
  have hle : g.marks.countP q ≤ maxTrackedTasks :=
    Nat.le_trans List.countP_le_length (h.length_marks ▸ h.tasks_le)
  exact lt_of_le_of_lt (Nat.succ_le_succ hle) (by decide)

theorem AccountingExact.toNat_markTaskComplete (h : g.AccountingExact) (hf : g.Follows)
    {taskId : UInt64} (status : ℤ) {task : TaskInfo} (ht : g.sched.task? taskId = some task) :
    (g.sched.markTaskComplete taskId status).2.stats.tasksCompleted.toNat =
      g.marks.countP isCompleted + (if Present g.sched task.workerId ∧ status = 0 then 1 else 0) ∧
    (g.sched.markTaskComplete taskId status).2.stats.tasksFailed.toNat =
      g.marks.countP isFailed + (if Present g.sched task.workerId ∧ status ≠ 0 then 1 else 0) := by
  obtain ⟨-, hc, hd⟩ := markTaskComplete_counters status ht
  rw [hc, hd, ← h.completed, ← h.failed]
  constructor <;> split
  · exact toNat_add_one (h.completed ▸ hf.countP_lt isCompleted)
  · rfl
  · exact toNat_add_one (h.failed ▸ hf.countP_lt isFailed)
  · rfl

/-- **A result found in the tracking table.** -/
theorem AccountingExact.markTaskComplete_iff (h : g.AccountingExact) (hf : g.Follows)
    {taskId : UInt64} {status : ℤ} {task : TaskInfo} {m : Mark}
    (ht : g.sched.task? taskId = some task) (hm : lookup Mark.taskId taskId g.marks = some m) :
    (g.call (.markTaskComplete taskId status)).AccountingExact ↔
      (m.outcome = none ∧ Present g.sched task.workerId) ∨
        (∃ st, m.outcome = some st ∧ (st = 0 ↔ status = 0)) ∧
          ¬ Present g.sched task.workerId := by
  have hC := countP_update (f := fun m : Mark => { m with outcome := some status })
    (q := isCompleted) hm
  have hF := countP_update (f := fun m : Mark => { m with outcome := some status })
    (q := isFailed) hm
  obtain ⟨hc, hd⟩ := h.toNat_markTaskComplete hf status ht
  rw [(hf.call _).accountingExact_iff, call_sched, Scheduler.call, hc, hd, call, marksAfter]
  -- Both sides only depend on the outcome so far, the new status and the presence of the worker.
  rcases hout : m.outcome with - | st
  · by_cases hst : status = 0 <;> by_cases hp : Present g.sched task.workerId <;>
      simp [isCompleted, isFailed, hout, hst, hp] at hC hF ⊢ <;> omega
  · by_cases hst : status = 0 <;> by_cases hp : Present g.sched task.workerId <;>
      by_cases hold : st = 0 <;>
      simp [isCompleted, isFailed, hout, hst, hp, hold] at hC hF ⊢ <;> omega

/-- **One call.** From an exact state, a call leads to an exact state exactly when it counts its
result once. -/
theorem AccountingExact.call_iff (h : g.AccountingExact) (hf : g.Follows) (c : Scheduler.Call) :
    (g.call c).AccountingExact ↔ g.CountsOnce c := by
  cases c with
  | trackTask taskId i submitted started =>
    exact iff_of_true (h.trackTask hf taskId i submitted started) trivial
  | markTaskComplete taskId status =>
    rcases ht : g.sched.task? taskId with - | task
    · -- An unknown id: nothing is found, nothing is counted, nothing is marked.
      have hm := (hf.lookup_eq_none_iff taskId).2 ht
      refine iff_of_true (h.of_eq hf ?_ ?_ fun q _ => ?_) fun task m htask => ?_
      · rw [Scheduler.call, Scheduler.markTaskComplete_of_none ht]
      · rw [Scheduler.call, Scheduler.markTaskComplete_of_none ht]
      · rw [marksAfter, update_of_lookup_eq_none hm]
      · cases ht.symm.trans htask
    · rcases hm : lookup Mark.taskId taskId g.marks with - | m
      · cases ht.symm.trans ((hf.lookup_eq_none_iff taskId).1 hm)
      · rw [h.markTaskComplete_iff hf ht hm]
        constructor
        · intro hok task' m' ht' hm'
          obtain rfl := Option.some.inj (ht.symm.trans ht')
          obtain rfl := Option.some.inj (hm.symm.trans hm')
          exact hok
        · intro hok
          exact hok task m ht hm
  | _ =>
    exact iff_of_true (h.of_sameTasks hf (sameTasks_call g.sched rfl) rfl) trivial

/-- **Exactness of the accounting.** From a fresh scheduler, along any history of calls, the outcome
counters equal the numbers of tracked entries marked complete by outcome in every state reached,
exactly when every result of the history counts once. -/
theorem accountingExact_along_iff (config : SchedulerConfig) (calls : List Scheduler.Call) :
    Along step AccountingExact (create config) calls ↔
      Meets step CountsOnce (create config) calls := by
  refine along_iff_meets (I := Follows) ?_ ?_ (follows_create config) ⟨rfl, rfl, Nat.le_refl 0⟩
  · intro g c g' hf hs
    exact Option.some.inj hs ▸ hf.call c
  · intro g c g' hf h hs
    exact Option.some.inj hs ▸ h.call_iff hf c

/-- A second result for the same task is counted again: two completions of one scheduled task. -/
theorem accountingExact_fails_on_repeated_result :
    ¬ Along step AccountingExact (create ⟨256, 30⟩)
      [.registerWorker { workerId := 7 } 0 0, .trackTask 1 7 0 0, .markTaskComplete 1 0,
        .markTaskComplete 1 0] :=
  fun h => absurd h.2.2.2.2.completed (by decide)

end Ledger

end DistributedComputing
