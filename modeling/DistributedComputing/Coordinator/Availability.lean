import DistributedComputing.Coordinator.LoopInvariant

/-!
# A worker becomes available again

A worker is busy while tasks sent to it have no processed result, and idle afterwards: that is what
`tasks_running` and the state are for. The scheduler learns about a result through its tracking
table only, though: it looks the task id up, and charges the worker named in the **first** entry
with that id. The table never shrinks and stops accepting entries at `MAX_TRACKED_TASKS`, and the
return code of `scheduler_track_task` is ignored, so a task sent after that is sent, but its result
is not found.

`Outstanding` is kept beside the loop: the tasks sent, with the worker they went to, less those
whose result was processed. `available_along_iff` says that state and `tasks_running` follow them
exactly as long as each result finds its sender in the tracking table, and
`available_fails_after_max_tracked` is the run with one task more than the table has room for.
-/

namespace DistributedComputing

open KeyedTable StepRun

/-- The tasks sent without a processed result: the worker they went to, and their id. -/
abbrev Outstanding := List (UInt32 × UInt64)

/-- How an event changes what is outstanding. -/
def outstandingAfter (o : Outstanding) : Event → Outstanding
  | .sent workerId batch => o ++ batch.map fun t => (workerId, t.taskId)
  | .resulted src result _ => o.erase (src, result.taskId)
  | _ => o

/-- The number of outstanding tasks of a worker. -/
def loadOf (o : Outstanding) (workerId : UInt32) : ℕ := o.countP (·.1 = workerId)

section Load

variable {o : Outstanding} {i j : UInt32}

theorem loadOf_sent_self (o : Outstanding) (i : UInt32) (batch : List Task) :
    loadOf (o ++ batch.map fun t => (i, t.taskId)) i = loadOf o i + batch.length := by
  rw [loadOf, List.countP_append, List.countP_map]
  show loadOf o i + batch.countP (fun _ => decide (i = i)) = _
  simp

theorem loadOf_sent_of_ne (o : Outstanding) (hij : j ≠ i) (batch : List Task) :
    loadOf (o ++ batch.map fun t => (i, t.taskId)) j = loadOf o j := by
  rw [loadOf, List.countP_append, List.countP_map]
  show loadOf o j + batch.countP (fun _ => decide (i = j)) = _
  simp [Ne.symm hij]

theorem loadOf_erase_self {taskId : UInt64} (hmem : (i, taskId) ∈ o) :
    loadOf (o.erase (i, taskId)) i + 1 = loadOf o i := by
  rw [loadOf, loadOf, (List.perm_cons_erase hmem).countP_eq, List.countP_cons]
  simp

theorem loadOf_erase_of_ne {taskId : UInt64} (hij : j ≠ i) (hmem : (i, taskId) ∈ o) :
    loadOf (o.erase (i, taskId)) j = loadOf o j := by
  rw [loadOf, loadOf, (List.perm_cons_erase hmem).countP_eq, List.countP_cons]
  simp [Ne.symm hij]

theorem loadOf_eq_zero (h : i ∉ o.map Prod.fst) : loadOf o i = 0 := by
  refine List.countP_eq_zero.2 fun p hp heq => h ?_
  exact of_decide_eq_true heq ▸ List.mem_map_of_mem hp

end Load

/-- The entry of a worker with `n` outstanding tasks. -/
structure WorkerInfo.Carries (w : WorkerInfo) (n : ℕ) : Prop where
  busy_iff : w.state = .busy ↔ 0 < n
  running : w.tasksRunning.toNat = n

namespace Scheduler

/-- State and `tasks_running` of every registered worker follow the outstanding tasks. -/
def FollowsOutstanding (s : Scheduler) (o : Outstanding) : Prop :=
  ∀ i w, s.worker? i = some w → w.Carries (loadOf o i)

/-- Nobody is dead, and only registered workers have tasks. -/
structure AllAlive (s : Scheduler) (o : Outstanding) : Prop where
  alive : ∀ w ∈ s.workers, w.state = .idle ∨ w.state = .busy
  registered : ∀ i ∈ o.map Prod.fst, i ∈ s.workers.map WorkerInfo.workerId

variable {s : Scheduler} {o o' : Outstanding} {i : UInt32} {f : WorkerInfo → WorkerInfo}
  {g : WorkerInfo → SchedulerStats → SchedulerStats}

theorem AllAlive.exists_worker (h : s.AllAlive o) (hi : i ∈ o.map Prod.fst) :
    ∃ w, s.worker? i = some w := by
  rcases hw : s.worker? i with - | w
  · exact absurd (h.registered i hi) (lookup_eq_none_iff_not_mem.1 hw)
  · exact ⟨w, rfl⟩

/-- An update of one worker, where the tasks of the others stay as they are. -/
theorem FollowsOutstanding.onWorker (h : s.FollowsOutstanding o)
    (hf : ∀ w, (f w).workerId = w.workerId)
    (hself : ∀ w, s.worker? i = some w → (f w).Carries (loadOf o' i))
    (hother : ∀ j, j ≠ i → loadOf o' j = loadOf o j) :
    (s.onWorker i f g).FollowsOutstanding o' := by
  intro j v hv
  rcases eq_or_ne j i with rfl | hij
  · rw [worker?_onWorker_self hf, Option.map_eq_some_iff] at hv
    obtain ⟨w, hw, rfl⟩ := hv
    exact hself w hw
  · rw [worker?_onWorker_of_ne hf hij] at hv
    rw [hother j hij]
    exact h j v hv

theorem AllAlive.onWorker (h : s.AllAlive o) (hf : ∀ w, (f w).workerId = w.workerId)
    (halive : ∀ w : WorkerInfo, w.state = .idle ∨ w.state = .busy →
      (f w).state = .idle ∨ (f w).state = .busy)
    (hreg : ∀ j ∈ o'.map Prod.fst, j ∈ o.map Prod.fst ∨ j ∈ s.workers.map WorkerInfo.workerId) :
    (s.onWorker i f g).AllAlive o' := by
  constructor
  · rw [onWorker_workers]
    exact forall_mem_update h.alive fun w hw => halive w (h.alive w (mem_of_lookup hw))
  · intro j hj
    rw [onWorker_workers, map_key_update fun w hw => (hf w).trans hw]
    exact (hreg j hj).elim (h.registered j) id

/-! ### The calls the loop makes -/

theorem worker?_registerWorker_of_new {info : WorkerInfo} (hnew : s.worker? info.workerId = none)
    {now registeredAt : Time} {j : UInt32} {w : WorkerInfo}
    (hw : (s.registerWorker info now registeredAt).2.worker? j = some w) :
    s.worker? j = some w ∨
      j = info.workerId ∧ w.state = .idle ∧ w.tasksRunning = info.tasksRunning := by
  rcases Nat.lt_or_ge s.workers.length s.maxWorkers.toNat with hroom | hfull
  · rw [registerWorker_of_new hroom hnew, worker?, lookup_append, Option.or_eq_some_iff,
      lookup_cons] at hw
    rcases hw with hold | ⟨-, hentry⟩
    · exact .inl hold
    · split at hentry
      · next hid =>
        obtain rfl := Option.some.inj hentry
        exact .inr ⟨hid.symm, rfl, rfl⟩
      · cases hentry
  · rw [registerWorker_of_full hfull] at hw
    exact .inl hw

theorem FollowsOutstanding.registerWorker (h : s.FollowsOutstanding o) (ha : s.AllAlive o)
    (info : WorkerInfo) (hload : info.tasksRunning = 0) (hnew : s.worker? info.workerId = none)
    (now registeredAt : Time) :
    (s.registerWorker info now registeredAt).2.FollowsOutstanding o := by
  intro j w hw
  rcases worker?_registerWorker_of_new hnew hw with hold | ⟨rfl, hidle, hrun⟩
  · exact h j w hold
  · have hzero : loadOf o info.workerId = 0 := loadOf_eq_zero fun hi => by
      obtain ⟨v, hv⟩ := ha.exists_worker hi
      exact absurd (hnew.symm.trans hv) nofun
    rw [hzero]
    exact ⟨by rw [hidle]; simp, by rw [hrun, hload]; rfl⟩

theorem AllAlive.registerWorker (h : s.AllAlive o) (info : WorkerInfo)
    (hnew : s.worker? info.workerId = none) (now registeredAt : Time) :
    (s.registerWorker info now registeredAt).2.AllAlive o := by
  rcases Nat.lt_or_ge s.workers.length s.maxWorkers.toNat with hroom | hfull
  · rw [registerWorker_of_new hroom hnew]
    constructor
    · intro w hw
      rcases List.mem_append.1 hw with hw | hw
      · exact h.alive w hw
      · rw [List.mem_singleton.1 hw]
        exact .inl rfl
    · intro i hi
      rw [List.map_append]
      exact List.mem_append_left _ (h.registered i hi)
  · rw [registerWorker_of_full hfull]
    exact h

/-- Where nobody is dead, a heartbeat revives nobody. -/
theorem FollowsOutstanding.updateHeartbeat (h : s.FollowsOutstanding o) (ha : s.AllAlive o)
    (now : Time) : (s.updateHeartbeat i now).FollowsOutstanding o := by
  refine h.onWorker (fun w => by split <;> rfl) (fun w hw => ?_) fun _ _ => rfl
  split
  · next hdead =>
    rcases ha.alive w (mem_of_lookup hw) with hq | hq <;> exact absurd (hdead.symm.trans hq) nofun
  · exact ⟨(h i w hw).busy_iff, (h i w hw).running⟩

theorem AllAlive.updateHeartbeat (h : s.AllAlive o) (now : Time) :
    (s.updateHeartbeat i now).AllAlive o := by
  refine h.onWorker (fun w => by split <;> rfl) (fun w hw => ?_) fun _ hj => .inl hj
  split
  · exact .inl rfl
  · exact hw

/-- A batch for a worker that is idle, and so has nothing outstanding. -/
theorem FollowsOutstanding.markWorkerBusy (h : s.FollowsOutstanding o) {batch : List Task}
    (hne : batch ≠ []) (hlt : batch.length < 2 ^ 32)
    (hidle : ∀ w, s.worker? i = some w → w.state = .idle) :
    (s.markWorkerBusy i batch.length).FollowsOutstanding
      (o ++ batch.map fun t => (i, t.taskId)) := by
  refine h.onWorker (fun _ => rfl) (fun w hw => ?_) fun j hij => loadOf_sent_of_ne o hij batch
  have hload : loadOf o i = 0 := by
    by_contra hpos
    have hbusy := (h i w hw).busy_iff.2 (Nat.pos_of_ne_zero hpos)
    exact absurd (hbusy.symm.trans (hidle w hw)) nofun
  have hrun : w.tasksRunning = 0 := UInt32.toNat_inj.1 ((h i w hw).running.trans hload)
  rw [loadOf_sent_self, hload, Nat.zero_add, if_pos (hidle w hw), hrun, UInt32.zero_add]
  exact ⟨iff_of_true rfl (List.length_pos_iff.2 hne), UInt32.toNat_ofNat_of_lt' hlt⟩

theorem AllAlive.markWorkerBusy (h : s.AllAlive o) {w : WorkerInfo} (hw : s.worker? i = some w)
    (batch : List Task) :
    (s.markWorkerBusy i batch.length).AllAlive (o ++ batch.map fun t => (i, t.taskId)) := by
  refine h.onWorker (fun _ => rfl) (fun v hv => ?_) fun j hj => ?_
  · show (if v.state = .idle then _ else v.state) = _ ∨ _
    split
    · exact .inr rfl
    · exact hv
  · rw [List.map_append, List.map_map, List.mem_append] at hj
    refine hj.imp_right fun hj => ?_
    obtain ⟨t, -, rfl⟩ := List.mem_map.1 hj
    exact List.mem_map.2 ⟨w, mem_of_lookup hw, key_of_lookup hw⟩

/-- A completion for a busy worker with `n + 1` tasks outstanding. -/
theorem carries_completeEntry {w : WorkerInfo} {n : ℕ} (h : w.Carries (n + 1)) (status : ℤ) :
    (completeEntry status w).Carries n := by
  have hpos : 0 < w.tasksRunning := by
    rw [UInt32.lt_iff_toNat_lt, h.running]
    exact Nat.succ_pos n
  have hrun : (runningAfter w).toNat = n := by
    rw [runningAfter, if_pos hpos, UInt32.toNat_sub_of_le _ _ (UInt32.le_iff_toNat_le.2 ?_),
      h.running]
    · rfl
    · rw [h.running]
      exact Nat.succ_pos n
  refine ⟨?_, hrun⟩
  show (if runningAfter w = 0 ∧ w.state = .busy then WorkerState.idle else w.state) = .busy ↔ 0 < n
  split
  · next hlast =>
    rw [hlast.1] at hrun
    exact iff_of_false nofun (by rw [← hrun]; exact Nat.lt_irrefl 0)
  · next hlast =>
    have hbusy := h.busy_iff.2 (Nat.succ_pos n)
    refine iff_of_true hbusy (Nat.pos_of_ne_zero fun hn => hlast ⟨?_, hbusy⟩)
    exact UInt32.toNat_inj.1 (hrun.trans hn)

theorem completeEntry_state (status : ℤ) (w : WorkerInfo) :
    (completeEntry status w).state = .idle ∨ (completeEntry status w).state = w.state := by
  rw [completeEntry]
  split
  · exact .inl rfl
  · exact .inr rfl

/-- A worker whose entry does not notice a result is one task off. -/
theorem FollowsOutstanding.not_of_unnoticed {s' : Scheduler} {taskId : UInt64}
    (h : s.FollowsOutstanding o) (hmem : (i, taskId) ∈ o) {w : WorkerInfo}
    (hw : s.worker? i = some w) (hw' : s'.worker? i = some w) :
    ¬ s'.FollowsOutstanding (o.erase (i, taskId)) := by
  intro h'
  have hone := loadOf_erase_self hmem
  have hrun := (h i w hw).running
  have hrun' := (h' i w hw').running
  omega

/-- **A result** for an outstanding task is accounted for exactly if the tracking table leads from
its id to its sender. -/
theorem FollowsOutstanding.markTaskComplete_iff (h : s.FollowsOutstanding o) (ha : s.AllAlive o)
    {taskId : UInt64} (hmem : (i, taskId) ∈ o) (status : ℤ) :
    (s.markTaskComplete taskId status).2.FollowsOutstanding (o.erase (i, taskId)) ↔
      (s.task? taskId).map TaskInfo.workerId = some i := by
  obtain ⟨w, hw⟩ := ha.exists_worker (List.mem_map.2 ⟨_, hmem, rfl⟩)
  rcases ht : s.task? taskId with - | task
  · rw [markTaskComplete_of_none ht]
    exact iff_of_false (h.not_of_unnoticed hmem hw hw) nofun
  · rw [markTaskComplete_of_some ht, Option.map_some, Option.some_inj]
    have h' : (s.withStatus taskId status).FollowsOutstanding o := h
    rcases eq_or_ne task.workerId i with rfl | hij
    · refine iff_of_true (h'.onWorker (fun _ => rfl) (fun v hv => ?_) fun j hij => ?_) rfl
      · have hv' := h' _ v hv
        rw [← loadOf_erase_self hmem] at hv'
        exact carries_completeEntry hv' status
      · exact loadOf_erase_of_ne hij hmem
    · refine iff_of_false (h.not_of_unnoticed hmem hw (Eq.trans ?_ hw)) hij
      exact worker?_onWorker_of_ne (s := s.withStatus taskId status) (f := completeEntry status)
        (fun _ => rfl) hij.symm

theorem AllAlive.markTaskComplete (h : s.AllAlive o) (taskId : UInt64) (status : ℤ)
    (p : UInt32 × UInt64) : (s.markTaskComplete taskId status).2.AllAlive (o.erase p) := by
  have hsub : ∀ j ∈ (o.erase p).map Prod.fst, j ∈ o.map Prod.fst := fun j hj =>
    (List.erase_sublist.map Prod.fst).subset hj
  rcases ht : s.task? taskId with - | task
  · rw [markTaskComplete_of_none ht]
    exact ⟨h.alive, fun j hj => h.registered j (hsub j hj)⟩
  · rw [markTaskComplete_of_some ht]
    have h' : (s.withStatus taskId status).AllAlive o := ⟨h.alive, h.registered⟩
    refine h'.onWorker (fun _ => rfl) (fun w hw => ?_) fun j hj => .inl (hsub j hj)
    rcases completeEntry_state status w with hidle | hsame
    · exact .inl hidle
    · rwa [hsame]

theorem checkTimeoutsLoop_of_zero {timeout : ℤ} {now : Time} {l : List WorkerInfo}
    {st : SchedulerStats} (h : (checkTimeoutsLoop timeout now l st).2.2 = 0) :
    (checkTimeoutsLoop timeout now l st).1 = l := by
  induction l generalizing st with
  | nil => rfl
  | cons w l ih =>
    simp only [checkTimeoutsLoop, checkTimeout] at h ⊢
    split at h
    · exact absurd h (Nat.succ_ne_zero _)
    · next hw =>
      rw [if_neg hw]
      exact congrArg (w :: ·) (ih h)

theorem checkTimeouts_workers_of_zero {now : Time} (h : (s.checkTimeouts now).1 = 0) :
    (s.checkTimeouts now).2.workers = s.workers :=
  checkTimeoutsLoop_of_zero h

/-! ### Frames -/

theorem FollowsOutstanding.of_workers_eq {s' : Scheduler} (h : s.FollowsOutstanding o)
    (hw : s'.workers = s.workers) : s'.FollowsOutstanding o := fun i w hi =>
  h i w (by rw [worker?, ← hw]; exact hi)

theorem AllAlive.of_workers_eq {s' : Scheduler} (h : s.AllAlive o) (hw : s'.workers = s.workers) :
    s'.AllAlive o := ⟨hw ▸ h.alive, hw ▸ h.registered⟩

end Scheduler

/-! ### The loop with its outstanding tasks -/

namespace Coordinator

/-- The loop beside what is outstanding. -/
def accounted : Coordinator × Outstanding → Label → Option (Coordinator × Outstanding) :=
  observed step (List.foldl outstandingAfter)

/-- Each worker registers once, nobody times out, and a result is for an outstanding task of its
sender. -/
def Orderly (s : Coordinator × Outstanding) : Label → Prop
  | .recv (some (src, .register _)) _ _ => s.1.sched.worker? src = none
  | .recv (some (src, .result (some r))) _ _ => (src, r.taskId) ∈ s.2
  | .timeouts now => (s.1.sched.checkTimeouts now).1 = 0
  | _ => True

/-- The results whose task id leads to their sender in the tracking table. -/
def ResultsRouted (s : Coordinator × Outstanding) : Label → Prop
  | .recv (some (src, .result (some r))) _ _ =>
    (s.1.sched.task? r.taskId).map TaskInfo.workerId = some src
  | _ => True

/-- What orderly runs keep. -/
structure OrderlyInv (s : Coordinator × Outstanding) : Prop where
  loop : s.1.LoopInv
  alive : s.1.sched.AllAlive s.2

variable {c c' : Coordinator} {l : Label} {es : List Event} {o : Outstanding}

theorem allAlive_handle {src : UInt32} {now registeredAt : Time} {m : Incoming}
    (h : c.sched.AllAlive o) (henv : Orderly (c, o) (.recv (some (src, m)) now registeredAt)) :
    (c.sched.handle src now registeredAt m).1.AllAlive
      ((c.sched.handle src now registeredAt m).2.foldl outstandingAfter o) := by
  rcases m with caps | - | (- | r) | -
  · exact h.registerWorker (Scheduler.registerInfo src caps now) henv now registeredAt
  · exact h.updateHeartbeat now
  · exact h
  · exact h.markTaskComplete r.taskId r.status _
  · exact h

theorem follows_handle_iff {src : UInt32} {now registeredAt : Time} {m : Incoming}
    (h : c.sched.FollowsOutstanding o) (ha : c.sched.AllAlive o)
    (henv : Orderly (c, o) (.recv (some (src, m)) now registeredAt)) :
    (c.sched.handle src now registeredAt m).1.FollowsOutstanding
        ((c.sched.handle src now registeredAt m).2.foldl outstandingAfter o) ↔
      ResultsRouted (c, o) (.recv (some (src, m)) now registeredAt) := by
  rcases m with caps | - | (- | r) | -
  · have hreg := h.registerWorker ha (Scheduler.registerInfo src caps now) rfl henv now registeredAt
    exact iff_of_true hreg trivial
  · exact iff_of_true (h.updateHeartbeat ha now) trivial
  · exact iff_of_true h trivial
  · exact h.markTaskComplete_iff ha henv r.status
  · exact iff_of_true h trivial

/-- **One orderly step keeps the invariant.** -/
theorem OrderlyInv.step (h : OrderlyInv (c, o)) (henv : Orderly (c, o) l)
    (hs : Transition c l c' es) : OrderlyInv (c', es.foldl outstandingAfter o) := by
  refine ⟨h.loop.step hs, ?_⟩
  cases hs with
  | recvMsg => exact allAlive_handle h.alive henv
  | sendOk hpc =>
    obtain ⟨⟨v, hv, -⟩, -, -⟩ := h.loop.send hpc
    exact (h.alive.markWorkerBusy hv _).of_workers_eq (Scheduler.trackBatch_workers _ _ _ _ _)
  | timeouts => exact h.alive.of_workers_eq (Scheduler.checkTimeouts_workers_of_zero henv)
  | _ => exact h.alive

/-- **One orderly step** follows the outstanding tasks exactly if it routes its result. -/
theorem OrderlyInv.follows_iff (hi : OrderlyInv (c, o)) (h : c.sched.FollowsOutstanding o)
    (henv : Orderly (c, o) l) (hs : Transition c l c' es) :
    c'.sched.FollowsOutstanding (es.foldl outstandingAfter o) ↔ ResultsRouted (c, o) l := by
  cases hs with
  | recvMsg => exact follows_handle_iff h hi.alive henv
  | sendOk hpc =>
    obtain ⟨⟨v, hv, hq⟩, hne, hlt⟩ := hi.loop.send hpc
    refine iff_of_true ?_ trivial
    refine (h.markWorkerBusy hne hlt fun u hu => ?_).of_workers_eq
      (Scheduler.trackBatch_workers _ _ _ _ _)
    exact Option.some.inj (hv.symm.trans hu) ▸ hq
  | timeouts =>
    exact iff_of_true (h.of_workers_eq (Scheduler.checkTimeouts_workers_of_zero henv)) trivial
  | _ => exact iff_of_true h trivial

theorem orderlyInv_init : OrderlyInv (init, []) :=
  ⟨loopInv_init, List.forall_mem_nil _, List.forall_mem_nil _⟩

/-- **Availability.** In every run of the loop in which each worker registers once, nobody times out
and every result is for an outstanding task of its sender: in every state, a registered worker is
busy exactly when it has outstanding tasks and `tasks_running` is their number, exactly if each
result of the run finds its sender in the tracking table. -/
theorem available_along_iff {labels : List Label}
    (horderly : Meets accounted Orderly (init, []) labels) :
    Along accounted (fun s => s.1.sched.FollowsOutstanding s.2) (init, []) labels ↔
      Meets accounted ResultsRouted (init, []) labels := by
  refine along_iff_meets_of_meets (I := OrderlyInv) ?_ ?_ horderly orderlyInv_init nofun
  · rintro ⟨c, o⟩ l ⟨c', o'⟩ hi henv hs
    obtain ⟨es, hstep, rfl⟩ := observed_eq_some_iff.1 hs
    exact hi.step henv (transition_of_step hstep)
  · rintro ⟨c, o⟩ l ⟨c', o'⟩ hi h henv hs
    obtain ⟨es, hstep, rfl⟩ := observed_eq_some_iff.1 hs
    exact hi.follows_iff h henv (transition_of_step hstep)

/-! ### One task more than the tracking table holds -/

/-- The entry of the only worker. -/
def lone (state : WorkerState) (running completed : UInt32) : WorkerInfo :=
  { workerId := 7, state, numLocalRanks := 1, maxBatchSize := 10, tasksRunning := running,
    tasksCompleted := completed }

/-- The scheduler of `init` with one worker and a tracking table. -/
def loneSched (w : WorkerInfo) (tasks : List TaskInfo) (stats : SchedulerStats) : Scheduler :=
  { heartbeatTimeoutSecs := 30, maxWorkers := 256, workers := [w], tasks,
    maxTasks := maxTrackedTasks, stats }

/-- A task is enqueued, sent alone, and the iteration ends. -/
def sendOne (taskId : UInt64) : List Label :=
  [.enqueue { taskId }, .recv none 0 0, .internal, .internal, .internal, .internal,
    .send true fun _ => (0, 0), .internal, .timeouts 0]

/-- The result of the task arrives, and the iteration ends. -/
def resultOne (taskId : UInt64) : List Label :=
  [.recv (some (7, .result (some ⟨taskId, 0⟩))) 0 0, .internal, .internal, .timeouts 0]

/-- The tracking table after a task was sent. -/
def trackedAfter (tasks : List TaskInfo) (taskId : UInt64) : List TaskInfo :=
  if maxTrackedTasks ≤ tasks.length then tasks else tasks ++ [⟨taskId, 7, 0, 0, -1⟩]

variable {q : ValidQueue} {completed : UInt32} {tasks : List TaskInfo} {stats : SchedulerStats}
  {taskId : UInt64}

theorem internalStep_dispatch_of_nil {s : Scheduler} {rest : List WorkerInfo} (hq : q.tasks = []) :
    internalStep ⟨q, s, .dispatch rest⟩ = some (⟨q, s, .timeouts⟩, []) := by
  cases rest with
  | nil => rfl
  | cons w rest =>
    show some (Coordinator.mk q s (if q.isEmpty then .timeouts else .collect w rest []), _) = _
    rw [if_pos (ValidQueue.isEmpty_iff.2 hq)]

theorem internalStep_dispatch_of_cons {s : Scheduler} {w : WorkerInfo} {rest : List WorkerInfo}
    (hq : q.tasks ≠ []) :
    internalStep ⟨q, s, .dispatch (w :: rest)⟩ = some (⟨q, s, .collect w rest []⟩, []) := by
  show some (Coordinator.mk q s (if q.isEmpty then .timeouts else .collect w rest []), _) = _
  rw [if_neg fun h => hq (ValidQueue.isEmpty_iff.1 h)]

theorem internalStep_collect_of_cons {s : Scheduler} {w : WorkerInfo} {rest : List WorkerInfo}
    {t : Task} {ts : List Task} (hq : q.tasks = t :: ts) (hmax : 0 < maxBatch w) :
    internalStep ⟨q, s, .collect w rest []⟩ = some (⟨q.dequeue.2, s, .collect w rest [t]⟩, []) := by
  have hdeq : q.dequeue = (some t, q.dequeue.2) :=
    Prod.ext (ValidQueue.dequeue_of_cons hq).1 rfl
  show some (collectStep _ w rest [], _) = _
  rw [collectStep, if_pos (show [].length < maxBatch w from hmax)]
  dsimp only
  rw [hdeq]
  rfl

theorem internalStep_collect_of_nil {s : Scheduler} {w : WorkerInfo} {rest : List WorkerInfo}
    {batch : List Task} (hq : q.tasks = []) (hne : batch ≠ []) :
    internalStep ⟨q, s, .collect w rest batch⟩ = some (⟨q, s, .send w rest batch⟩, []) := by
  have hfin : finishBatch ⟨q, s, .collect w rest batch⟩ w rest batch =
      ⟨q, s, .send w rest batch⟩ := by
    rw [finishBatch, if_neg hne]
  show some (collectStep _ w rest batch, _) = _
  rw [collectStep, ValidQueue.dequeue_of_nil (by exact hq)]
  dsimp only
  rw [hfin, ite_self]

theorem accounted_internal {o : Outstanding} (h : c.internalStep = some (c', [])) :
    accounted (c, o) .internal = some (c', o) :=
  observed_eq_some_iff.2 ⟨[], h, rfl⟩

/-- The check for dead workers at the end of an iteration, nobody being late. -/
theorem timeouts_run {s : Scheduler} {o : Outstanding} (hs : s.checkTimeouts 0 = (0, s)) :
    GuardedRun accounted Orderly (⟨q, s, .timeouts⟩, o) [.timeouts 0] (⟨q, s, .recv⟩, o) := by
  have hstep : accounted (⟨q, s, .timeouts⟩, o) (.timeouts 0) = some (⟨q, s, .recv⟩, o) := by
    show some (Coordinator.mk q (s.checkTimeouts 0).2 .recv, o) = _
    rw [hs]
  exact .cons hstep (congrArg Prod.fst hs) (.nil _)

theorem endIteration_run {s : Scheduler} {o : Outstanding} (hq : q.tasks = [])
    (hs : s.checkTimeouts 0 = (0, s)) :
    GuardedRun accounted Orderly (⟨q, s, .schedule⟩, o)
      [.internal, .internal, .timeouts 0] (⟨q, s, .recv⟩, o) :=
  .cons rfl trivial (.cons (accounted_internal (internalStep_dispatch_of_nil hq)) trivial
    (timeouts_run hs))

theorem loneSched_checkTimeouts {state : WorkerState} {running : UInt32} :
    (loneSched (lone state running completed) tasks stats).checkTimeouts 0 =
      (0, loneSched (lone state running completed) tasks stats) := by
  cases state <;> rfl

theorem loneSched_sendOne (completed : UInt32) (tasks : List TaskInfo) (stats : SchedulerStats)
    (taskId : UInt64) :
    ∃ stats', ((loneSched (lone .idle 0 completed) tasks stats).markWorkerBusy 7 1).trackBatch 7
        (fun _ => (0, 0)) 0 [{ taskId }] =
      loneSched (lone .busy 1 completed) (trackedAfter tasks taskId) stats' := by
  rw [Scheduler.trackBatch, Scheduler.trackBatch, Scheduler.trackTask, trackedAfter]
  show ∃ stats', (if maxTrackedTasks ≤ tasks.length then _ else _ : ℤ × Scheduler).2 = _
  split
  · exact ⟨_, rfl⟩
  · exact ⟨_, rfl⟩

theorem sendOne_run (hq : q.tasks = []) (completed : UInt32) (tasks : List TaskInfo)
    (stats : SchedulerStats) (taskId : UInt64) :
    ∃ q' stats', q'.tasks = [] ∧
      GuardedRun accounted Orderly (⟨q, loneSched (lone .idle 0 completed) tasks stats, .recv⟩, [])
        (sendOne taskId)
        (⟨q', loneSched (lone .busy 1 completed) (trackedAfter tasks taskId) stats', .recv⟩,
          [(7, taskId)]) := by
  obtain ⟨hrc, hq₁, -⟩ := ValidQueue.enqueue_of_accepts (q.accepts_of_nil hq { taskId })
  rw [hq, ValidQueue.insertTask_nil] at hq₁
  obtain ⟨-, hq₂, -⟩ := ValidQueue.dequeue_of_cons hq₁
  obtain ⟨stats', hsched⟩ := loneSched_sendOne completed tasks stats taskId
  have henq : accounted (⟨q, loneSched (lone .idle 0 completed) tasks stats, .recv⟩, [])
      (.enqueue { taskId }) = some (⟨(q.enqueue { taskId }).2,
        loneSched (lone .idle 0 completed) tasks stats, .recv⟩, []) := by
    refine observed_eq_some_iff.2 ⟨[.accepted { taskId }], ?_, rfl⟩
    rw [step, if_pos hrc]
  generalize (q.enqueue { taskId }).2 = q₁ at hq₁ hq₂ henq
  have hne : q₁.tasks ≠ [] := by
    rw [hq₁]
    exact List.cons_ne_nil _ _
  have hsend : accounted (⟨q₁.dequeue.2, loneSched (lone .idle 0 completed) tasks stats,
      .send (lone .idle 0 completed) [] [{ taskId }]⟩, []) (.send true fun _ => (0, 0)) =
        some (⟨q₁.dequeue.2, loneSched (lone .busy 1 completed) (trackedAfter tasks taskId) stats',
          .dispatch []⟩, [(7, taskId)]) := by
    rw [← hsched]
    rfl
  refine ⟨q₁.dequeue.2, stats', hq₂, .cons henq trivial (.cons rfl trivial (.cons rfl trivial ?_))⟩
  -- the worker is served: one task is collected, the queue is empty, the batch is sent
  refine .cons (accounted_internal (internalStep_dispatch_of_cons hne)) trivial ?_
  refine .cons (accounted_internal (internalStep_collect_of_cons hq₁ (Nat.succ_pos 9))) trivial ?_
  refine .cons (accounted_internal (internalStep_collect_of_nil hq₂ (List.cons_ne_nil _ _)))
    trivial ?_
  exact .cons hsend trivial (.cons rfl trivial (timeouts_run loneSched_checkTimeouts))

theorem resultOne_run {s s' : Scheduler} {rc : ℤ} (hq : q.tasks = [])
    (hmark : s.markTaskComplete taskId 0 = (rc, s')) (hs' : s'.checkTimeouts 0 = (0, s')) :
    GuardedRun accounted Orderly (⟨q, s, .recv⟩, [(7, taskId)]) (resultOne taskId)
      (⟨q, s', .recv⟩, []) := by
  have hrecv : accounted (⟨q, s, .recv⟩, [(7, taskId)])
      (.recv (some (7, .result (some ⟨taskId, 0⟩))) 0 0) = some (⟨q, s', .schedule⟩, []) := by
    refine observed_eq_some_iff.2 ⟨[.resulted 7 ⟨taskId, 0⟩ rc], ?_, by simp [outstandingAfter]⟩
    show some (Coordinator.mk q (s.markTaskComplete taskId 0).2 .schedule,
      [Event.resulted 7 ⟨taskId, 0⟩ (s.markTaskComplete taskId 0).1]) = _
    rw [hmark]
  exact .cons hrecv (List.mem_singleton_self _) (endIteration_run hq hs')

/-- The states between two tasks, after `n` of them: nothing queued or outstanding, the worker
idle, and the ids below `n` tracked for it. -/
def Filled (n : ℕ) (s : Coordinator × Outstanding) : Prop :=
  ∃ q completed tasks stats,
    s = (⟨q, loneSched (lone .idle 0 completed) tasks stats, .recv⟩, []) ∧ q.tasks = [] ∧
      tasks.map TaskInfo.taskId = (List.range n).map UInt64.ofNat ∧ ∀ t ∈ tasks, t.workerId = 7

/-- The worker registers, then `n` tasks are sent and answered one after the other. -/
def fillTracking : ℕ → List Label
  | 0 => [.recv (some (7, .register none)) 0 0, .internal, .internal, .timeouts 0]
  | n + 1 => fillTracking n ++ (sendOne (.ofNat n) ++ resultOne (.ofNat n))

/-- A tracked task's result makes the worker idle again. -/
theorem loneSched_resultOne {task : TaskInfo} (completed : UInt32) (stats : SchedulerStats)
    (ht : lookup TaskInfo.taskId taskId tasks = some task) (hw : task.workerId = 7) :
    ∃ stats', (loneSched (lone .busy 1 completed) tasks stats).markTaskComplete taskId 0 =
      (0, loneSched (lone .idle 0 (completed + 1))
        (update TaskInfo.taskId taskId (fun t => { t with status := 0 }) tasks) stats') := by
  have ht' : (loneSched (lone .busy 1 completed) tasks stats).task? taskId = some task := ht
  have hrun : Scheduler.runningAfter (lone .busy 1 completed) = 0 := by
    show (if (0 : UInt32) < 1 then (1 : UInt32) - 1 else 1) = 0
    decide
  have hentry : Scheduler.completeEntry 0 (lone .busy 1 completed) =
      lone .idle 0 (completed + 1) := by
    rw [Scheduler.completeEntry, hrun]
    rfl
  rw [Scheduler.markTaskComplete_of_some ht', hw, ← hentry]
  exact ⟨_, rfl⟩

/-- **One task more**, as long as there is room. -/
theorem Filled.succ {n : ℕ} {s : Coordinator × Outstanding} (h : Filled n s)
    (hn : n < maxTrackedTasks) :
    ∃ t, Filled (n + 1) t ∧
      GuardedRun accounted Orderly s (sendOne (.ofNat n) ++ resultOne (.ofNat n)) t := by
  obtain ⟨q, completed, tasks, stats, rfl, hq, hids, hworker⟩ := h
  obtain ⟨q', stats', hq', hsend⟩ := sendOne_run hq completed tasks stats (.ofNat n)
  have hlen : tasks.length = n := by simpa using congrArg List.length hids
  rw [trackedAfter, if_neg (by omega)] at hsend
  -- the new entry is found, and it names the worker
  obtain ⟨task, ht⟩ := exists_lookup_of_mem TaskInfo.taskId
    (List.mem_append_right tasks (List.mem_singleton_self (TaskInfo.mk (.ofNat n) 7 0 0 (-1))))
  have hw : ∀ t ∈ tasks ++ [TaskInfo.mk (.ofNat n) 7 0 0 (-1)], t.workerId = 7 := by
    intro t ht
    rcases List.mem_append.1 ht with ht | ht
    · exact hworker t ht
    · rw [List.mem_singleton.1 ht]
  obtain ⟨stats'', hmark⟩ := loneSched_resultOne completed stats' ht (hw task (mem_of_lookup ht))
  refine ⟨_, ⟨q', completed + 1, _, stats'', rfl, hq', ?_, ?_⟩,
    hsend.append (resultOne_run hq' hmark loneSched_checkTimeouts)⟩
  · refine (map_key_update fun _ h => ?_).trans ?_
    · exact h
    · rw [List.map_append, hids, List.range_succ, List.map_append]
      rfl
  · exact forall_mem_update hw fun t ht => hw t (mem_of_lookup ht)

theorem filled_run {n : ℕ} (hn : n ≤ maxTrackedTasks) :
    ∃ s, Filled n s ∧ GuardedRun accounted Orderly (init, []) (fillTracking n) s := by
  induction n with
  | zero =>
    let registered := (init.sched.registerWorker (Scheduler.registerInfo 7 none 0) 0 0).2
    refine ⟨(⟨init.queue, registered, .recv⟩, []), ?_, .cons rfl rfl (endIteration_run rfl rfl)⟩
    exact ⟨init.queue, 0, [], registered.stats, rfl, rfl, rfl, nofun⟩
  | succ n ih =>
    obtain ⟨s, hs, hrun⟩ := ih (Nat.le_of_succ_le hn)
    obtain ⟨t, ht, hrun'⟩ := hs.succ hn
    exact ⟨t, ht, hrun.append hrun'⟩

/-- One worker, and two tasks sent and answered one after the other. -/
theorem available_along_two_tasks :
    Meets accounted Orderly (init, []) (fillTracking 2) ∧
      (Along accounted (fun s => s.1.sched.FollowsOutstanding s.2) (init, []) (fillTracking 2) ↔
        Meets accounted ResultsRouted (init, []) (fillTracking 2)) := by
  obtain ⟨s, -, hrun⟩ := filled_run (show 2 ≤ maxTrackedTasks by decide)
  exact ⟨hrun.meets, available_along_iff hrun.meets⟩

/-- The task ids that are enqueued along a list of labels. -/
def enqueuedIds (labels : List Label) : List UInt64 :=
  labels.filterMap fun
    | .enqueue t => some t.taskId
    | _ => none

theorem enqueuedIds_fillTracking (n : ℕ) :
    enqueuedIds (fillTracking n) = (List.range n).map UInt64.ofNat := by
  induction n with
  | zero => rfl
  | succ n ih =>
    rw [fillTracking, enqueuedIds, List.filterMap_append, List.range_succ, List.map_append, ← ih]
    rfl

theorem nodup_ofNat {n : ℕ} (hn : n < 2 ^ 64) : ((List.range n).map UInt64.ofNat).Nodup := by
  refine List.nodup_range.map_on fun a ha b hb hab => ?_
  have ha' : a < 2 ^ 64 := (List.mem_range.1 ha).trans hn
  have hb' : b < 2 ^ 64 := (List.mem_range.1 hb).trans hn
  rw [← UInt64.toNat_ofNat_of_lt' ha', hab, UInt64.toNat_ofNat_of_lt' hb']

/-- With the table full, one more task is sent and answered: the worker stays busy. -/
theorem overfull_run {n : ℕ} (hn : n = maxTrackedTasks) :
    ∃ labels q completed tasks stats,
      GuardedRun accounted Orderly (init, []) labels
        (⟨q, loneSched (lone .busy 1 completed) tasks stats, .recv⟩, []) ∧
      (enqueuedIds labels).Nodup := by
  obtain ⟨s, ⟨q, completed, tasks, stats, rfl, hq, hids, -⟩, hfill⟩ := filled_run (Nat.le_of_eq hn)
  obtain ⟨q', stats', hq', hsend⟩ := sendOne_run hq completed tasks stats (.ofNat n)
  have hlen : tasks.length = n := by simpa using congrArg List.length hids
  have hnodup : ((List.range (n + 1)).map UInt64.ofNat).Nodup := nodup_ofNat (by rw [hn]; decide)
  rw [trackedAfter, if_pos (hlen.trans hn).ge] at hsend
  -- the id of the last task is new, so the table does not know it
  have hnone : lookup TaskInfo.taskId (.ofNat n) tasks = none := by
    rw [lookup_eq_none_iff_not_mem, hids]
    rw [List.range_succ, List.map_append] at hnodup
    exact fun hmem => List.disjoint_of_nodup_append hnodup hmem (List.mem_singleton_self _)
  have hmark : (loneSched (lone .busy 1 completed) tasks stats').markTaskComplete (.ofNat n) 0 =
      (-2, loneSched (lone .busy 1 completed) tasks stats') :=
    Scheduler.markTaskComplete_of_none hnone
  refine ⟨fillTracking (n + 1), q', completed, tasks, stats',
    hfill.append (hsend.append (resultOne_run hq' hmark loneSched_checkTimeouts)), ?_⟩
  rwa [enqueuedIds_fillTracking]

/-- **The tracking table is full.** Of 100001 tasks with distinct ids, sent and answered one after
the other, the last one is sent without being tracked. Its result is not found, and the worker is
busy for good: at the end of the iteration nothing is outstanding. -/
theorem available_fails_after_max_tracked :
    ∃ labels c o, Run accounted (init, []) labels (c, o) ∧
      Meets accounted Orderly (init, []) labels ∧
      (enqueuedIds labels).Nodup ∧ c.pc = .recv ∧ o = [] ∧
      (c.sched.worker? 7).map WorkerInfo.state = some .busy ∧ ¬ c.sched.FollowsOutstanding o := by
  obtain ⟨labels, q, completed, tasks, stats, ⟨hrun, hmeets⟩, hnodup⟩ := overfull_run rfl
  refine ⟨labels, _, _, hrun, hmeets, hnodup, rfl, rfl, rfl, fun h => ?_⟩
  exact absurd ((h 7 _ rfl).busy_iff.1 rfl) (Nat.lt_irrefl 0)

end Coordinator

end DistributedComputing
