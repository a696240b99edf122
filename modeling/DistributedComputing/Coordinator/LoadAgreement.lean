import DistributedComputing.Coordinator.LoopInvariant

/-!
# State and load

`scheduler_get_idle_workers` looks at a worker's state only, so dispatching relies on an idle worker
having no tasks left, and on a busy one having some. Four functions set a worker idle: registration
(which also zeroes `tasks_running`), the last completion and `scheduler_mark_worker_idle` (which
check or zero it), and the revival of a dead worker by a heartbeat, which does neither. A worker
that dies with tasks assigned and then revives is therefore idle with a load.

`loadAgrees_along_iff` says that this is the only way.
-/

namespace DistributedComputing

open KeyedTable StepRun

/-- The state of one entry agrees with its load. -/
structure WorkerInfo.LoadAgrees (w : WorkerInfo) : Prop where
  idle : w.state = .idle → w.tasksRunning = 0
  busy : w.state = .busy → 0 < w.tasksRunning

namespace Scheduler

/-- State and load agree in every entry, and no worker on offer has tasks. -/
structure LoadAgrees (s : Scheduler) : Prop where
  entries : ∀ w ∈ s.workers, w.LoadAgrees
  offered : ∀ n, ∀ w ∈ s.getIdleWorkers n, w.tasksRunning = 0

variable {s : Scheduler} {i : UInt32} {w : WorkerInfo}

/-- What is on offer are copies of idle entries, so the entries decide. -/
theorem loadAgrees_iff : s.LoadAgrees ↔ ∀ w ∈ s.workers, w.LoadAgrees := by
  refine ⟨LoadAgrees.entries, fun h => ⟨h, fun n w hw => ?_⟩⟩
  obtain ⟨hmem, hidle⟩ := List.mem_filter.1 (List.mem_of_mem_take hw)
  exact (h w hmem).idle (by simpa using hidle)

theorem LoadAgrees.onWorker (h : s.LoadAgrees) {f : WorkerInfo → WorkerInfo}
    {g : WorkerInfo → SchedulerStats → SchedulerStats}
    (hf : ∀ w, s.worker? i = some w → (f w).LoadAgrees) : (s.onWorker i f g).LoadAgrees := by
  rw [loadAgrees_iff, onWorker_workers]
  exact forall_mem_update h.entries hf

theorem LoadAgrees.of_worker? (h : s.LoadAgrees) (hw : s.worker? i = some w) : w.LoadAgrees :=
  h.entries w (mem_of_lookup hw)

theorem LoadAgrees.registerWorker (h : s.LoadAgrees) (info : WorkerInfo)
    (hload : info.tasksRunning = 0) (now registeredAt : Time) :
    (s.registerWorker info now registeredAt).2.LoadAgrees := by
  rw [Scheduler.registerWorker]
  split
  · exact h
  · split
    · refine h.onWorker (g := fun _ st => st) ?_
      exact fun _ _ => ⟨fun _ => hload, WorkerState.noConfusion⟩
    · rw [loadAgrees_iff]
      intro w hw
      rcases List.mem_append.1 hw with hw | hw
      · exact h.entries w hw
      · rw [List.mem_singleton.1 hw]
        exact ⟨fun _ => hload, WorkerState.noConfusion⟩

/-- **Revival.** The heartbeat of a dead worker sets it idle and leaves its load as it is. -/
theorem LoadAgrees.updateHeartbeat_iff (h : s.LoadAgrees) (now : Time) :
    (s.updateHeartbeat i now).LoadAgrees ↔
      ∀ w, s.worker? i = some w → w.state = .dead → w.tasksRunning = 0 := by
  constructor
  · intro h' w hw hdead
    have hlookup : (s.updateHeartbeat i now).worker? i =
        some { w with lastHeartbeat := now, state := .idle } := by
      rw [updateHeartbeat, worker?_onWorker_self fun v => by split <;> rfl, hw, Option.map_some,
        if_pos hdead]
    exact (h'.of_worker? hlookup).idle rfl
  · intro hrevive
    refine h.onWorker fun w hw => ?_
    split
    · next hdead => exact ⟨fun _ => hrevive w hw hdead, fun hbusy => by cases hbusy⟩
    · exact ⟨(h.of_worker? hw).idle, (h.of_worker? hw).busy⟩

theorem LoadAgrees.markWorkerBusy (h : s.LoadAgrees) {n : ℕ} (hpos : 0 < n) (hlt : n < 2 ^ 32)
    (hidle : ∀ w, s.worker? i = some w → w.state = .idle) :
    (s.markWorkerBusy i n).LoadAgrees := by
  refine h.onWorker fun w hw => ⟨fun hq => ?_, fun _ => ?_⟩
  · rw [if_pos (hidle w hw)] at hq
    cases hq
  · rw [(h.of_worker? hw).idle (hidle w hw), UInt32.zero_add, UInt32.lt_iff_toNat_lt,
      UInt32.toNat_ofNat_of_lt' hlt]
    exact hpos

theorem completeEntry_loadAgrees (h : w.LoadAgrees) (status : ℤ) :
    (completeEntry status w).LoadAgrees := by
  constructor
  · intro hq
    change (if runningAfter w = 0 ∧ w.state = .busy then _ else w.state) = _ at hq
    show runningAfter w = 0
    split at hq
    · next hlast => exact hlast.1
    -- not the last task, so the worker was idle before, without tasks
    · rw [runningAfter, h.idle hq]
      rfl
  · intro hq
    change (if runningAfter w = 0 ∧ w.state = .busy then _ else w.state) = _ at hq
    show 0 < runningAfter w
    split at hq
    · exact absurd hq nofun
    · next hlast => exact UInt32.pos_iff_ne_zero.2 fun h0 => hlast ⟨h0, hq⟩

theorem LoadAgrees.markTaskComplete (h : s.LoadAgrees) (taskId : UInt64) (status : ℤ) :
    (s.markTaskComplete taskId status).2.LoadAgrees := by
  rcases ht : s.task? taskId with - | task
  · rw [markTaskComplete_of_none ht]
    exact h
  · rw [markTaskComplete_of_some ht]
    have h' : (s.withStatus taskId status).LoadAgrees := loadAgrees_iff.2 h.entries
    exact h'.onWorker fun w hw => completeEntry_loadAgrees (h'.of_worker? hw) status

theorem LoadAgrees.checkTimeouts (h : s.LoadAgrees) (now : Time) :
    (s.checkTimeouts now).2.LoadAgrees := by
  rw [loadAgrees_iff]
  exact forall_mem_checkTimeoutsLoop (fun _ _ => ⟨nofun, nofun⟩) _ now s.stats h.entries

end Scheduler

namespace Coordinator

/-- The labels that do not revive a dead worker with tasks assigned. -/
def RevivesUnloaded (c : Coordinator) : Label → Prop
  | .recv (some (src, .heartbeat)) _ _ =>
    ∀ w, c.sched.worker? src = some w → w.state = .dead → w.tasksRunning = 0
  | _ => True

variable {c c' : Coordinator} {l : Label} {es : List Event}

/-- Receiving a message keeps the agreement, revival apart. -/
theorem loadAgrees_handle_iff (h : c.sched.LoadAgrees) (src : UInt32) (now registeredAt : Time)
    (m : Incoming) :
    (c.sched.handle src now registeredAt m).1.LoadAgrees ↔
      c.RevivesUnloaded (.recv (some (src, m)) now registeredAt) := by
  rcases m with caps | - | (- | r) | -
  · exact iff_of_true (h.registerWorker _ rfl now registeredAt) trivial
  · exact h.updateHeartbeat_iff now
  · exact iff_of_true h trivial
  · exact iff_of_true (h.markTaskComplete r.taskId r.status) trivial
  · exact iff_of_true h trivial

/-- A batch goes to a worker that is idle, and so has no tasks. -/
theorem LoopInv.loadAgrees_sendOk {w : WorkerInfo} {rest : List WorkerInfo} {batch : List Task}
    (hi : c.LoopInv) (h : c.sched.LoadAgrees) (hpc : c.pc = .send w rest batch)
    (clock : ℕ → Time × Time) : (c.sendOk w rest batch clock).sched.LoadAgrees := by
  obtain ⟨⟨v, hv, hq⟩, hne, hlt⟩ := hi.send hpc
  have hbusy : (c.sched.markWorkerBusy w.workerId batch.length).LoadAgrees := by
    refine h.markWorkerBusy (List.length_pos_iff.2 hne) hlt fun u hu => ?_
    rw [hv] at hu
    exact Option.some.inj hu ▸ hq
  rw [Scheduler.loadAgrees_iff, Coordinator.sendOk, Scheduler.trackBatch_workers]
  exact hbusy.entries

/-- **One step.** -/
theorem LoopInv.loadAgrees_iff (hi : c.LoopInv) (h : c.sched.LoadAgrees)
    (hs : Transition c l c' es) : c'.sched.LoadAgrees ↔ c.RevivesUnloaded l := by
  cases hs with
  | recvMsg => exact loadAgrees_handle_iff h _ _ _ _
  | sendOk hpc => exact iff_of_true (hi.loadAgrees_sendOk h hpc _) trivial
  | timeouts => exact iff_of_true (h.checkTimeouts _) trivial
  | _ => exact iff_of_true h trivial

theorem loadAgrees_init : init.sched.LoadAgrees :=
  ⟨List.forall_mem_nil _, fun _ => by simp [init, Scheduler.getIdleWorkers, Scheduler.create]⟩

/-- **State and load.** Along any run of the coordinator's loop, state and load agree in every state
reached exactly when no heartbeat of the run revives a dead worker that still has tasks assigned. -/
theorem loadAgrees_along_iff (labels : List Label) :
    Along next (fun c => c.sched.LoadAgrees) init labels ↔
      Meets next RevivesUnloaded init labels := by
  refine along_iff_meets (I := LoopInv) LoopInv.next ?_ loopInv_init loadAgrees_init
  intro c l c' hi h hs
  obtain ⟨es, ht⟩ := transition_of_next hs
  exact hi.loadAgrees_iff h ht

/-- A worker dies with one task and its heartbeat makes it idle: the next round would send it more.
-/
theorem loadAgrees_fails_on_revival :
    ¬ Along next (fun c => c.sched.LoadAgrees) init
      [.enqueue { taskId := 1 }, .recv (some (7, .register none)) 0 0, .internal, .internal,
        .internal, .internal, .send true fun _ => (0, 0), .internal, .timeouts 31,
        .recv (some (7, .heartbeat)) 31 0] := by
  intro h
  exact absurd (h.2.2.2.2.2.2.2.2.2.2.offered 1 _ (List.mem_singleton_self _)) (by decide)

end Coordinator

end DistributedComputing
