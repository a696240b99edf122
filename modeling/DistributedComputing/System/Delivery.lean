import DistributedComputing.Coordinator.TaskAccounting
import DistributedComputing.System.Model

/-!
# No accepted task is lost

What becomes of an accepted task, over any run of the whole system. The source has **no** mechanism
that takes a task back from a worker: `scheduler_check_timeouts` marks a silent worker dead and
leaves the tasks it was sent where they are. What it does have are five places where a failure goes
unnoticed: a re-enqueue after a failed send, the tracking of a sent task and the array `batch` at
the coordinator, the local enqueue and the send of a result at the worker.

`accepted_placed` is about the runs without such a failure (`NoSlip`). In every state of every such
run, with any deaths, revivals, failed sends of batches and orders of messages, each accepted task
is at exactly one of the `Places`. `task_lost_on_timeout` is a run without such a failure at the end
of which the only place of a task is a dead worker.
-/

namespace DistributedComputing

open KeyedTable StepRun Mailbox

namespace Coordinator

/-! ### What was sent is tracked -/

/-- The ids in the tracking table. -/
def trackedIds (s : Scheduler) : List UInt64 := s.tasks.map TaskInfo.taskId

variable {c c' : Coordinator} {l : Label} {es log : List Event} {s : Scheduler}

theorem trackedIds_call (s : Scheduler) {c : Scheduler.Call} (hc : Ledger.isTaskCall c = false) :
    trackedIds (s.call c) = trackedIds s :=
  congrArg (List.map TaskInfo.taskId) (Ledger.sameTasks_call s hc).tasks

theorem trackedIds_markTaskComplete (s : Scheduler) (taskId : UInt64) (status : ℤ) :
    trackedIds (s.markTaskComplete taskId status).2 = trackedIds s := by
  rcases ht : s.task? taskId with - | task
  · rw [Scheduler.markTaskComplete_of_none ht]
  · rw [Scheduler.markTaskComplete_of_some ht, trackedIds, Scheduler.onWorker_tasks,
      Scheduler.withStatus]
    refine map_key_update ?_
    exact fun _ h => h

/-- No handler tracks a task or forgets one. -/
theorem trackedIds_handle (s : Scheduler) (src : UInt32) (now registeredAt : Time) (m : Incoming) :
    trackedIds (s.handle src now registeredAt m).1 = trackedIds s := by
  rcases m with caps | - | (- | r) | -
  · exact trackedIds_call s (c := .registerWorker _ now registeredAt) rfl
  · exact trackedIds_call s (c := .updateHeartbeat src now) rfl
  · rfl
  · exact trackedIds_markTaskComplete s r.taskId r.status
  · rfl

theorem trackedIds_trackBatch (s : Scheduler) (i : UInt32) (clock : ℕ → Time × Time) (k : ℕ)
    {batch : List Task} (hroom : s.tasks.length + batch.length ≤ s.maxTasks) :
    trackedIds (s.trackBatch i clock k batch) = trackedIds s ++ batch.map Task.taskId := by
  induction batch generalizing s k with
  | nil => exact (List.append_nil _).symm
  | cons t batch ih =>
    rw [List.length_cons] at hroom
    rw [Scheduler.trackBatch, Scheduler.trackTask_of_room (by omega), ih]
    · simp [trackedIds]
    · simp only [List.length_append, List.length_singleton]
      omega

/-- The sends after which the tracking table has room for the whole batch. -/
def TracksAll (c : Coordinator) : Label → Prop
  | .send true _ => c.sched.tasks.length + c.pc.inHand.length ≤ c.sched.maxTasks
  | _ => True

/-- Every task sent is tracked. -/
def Tracked (c : Coordinator) (log : List Event) : Prop :=
  ∀ t ∈ sentTasks log, t.taskId ∈ trackedIds c.sched

theorem Tracked.of_trackedIds_eq (h : c.Tracked log)
    (hids : trackedIds c'.sched = trackedIds c.sched)
    (hes : sentTasks es = []) : c'.Tracked (log ++ es) := by
  intro t ht
  rw [sentTasks_append, hes, List.append_nil] at ht
  rw [hids]
  exact h t ht

theorem sentTasks_handle (s : Scheduler) (src : UInt32) (now registeredAt : Time) (m : Incoming) :
    sentTasks (s.handle src now registeredAt m).2 = [] := by
  rcases m with caps | - | (- | r) | - <;> rfl

/-- **What is sent with room in the table is tracked**, and stays tracked. -/
theorem Tracked.step (h : c.Tracked log) (hl : c.TracksAll l) (hs : Transition c l c' es) :
    c'.Tracked (log ++ es) := by
  cases hs with
  | recvMsg => exact h.of_trackedIds_eq (trackedIds_handle _ _ _ _ _) (sentTasks_handle _ _ _ _ _)
  | @sendOk w rest batch clock hpc =>
    have hbusy : (c.sched.markWorkerBusy w.workerId batch.length).tasks = c.sched.tasks :=
      Scheduler.onWorker_tasks _ _ _ _
    have hmax : (c.sched.markWorkerBusy w.workerId batch.length).maxTasks = c.sched.maxTasks :=
      Scheduler.onWorker_maxTasks _ _ _ _
    have hids : trackedIds (c.sendOk w rest batch clock).sched =
        trackedIds c.sched ++ batch.map Task.taskId := by
      rw [Coordinator.sendOk, trackedIds_trackBatch _ _ _ _ ?_, trackedIds, hbusy, trackedIds]
      rw [hbusy, hmax]
      rw [TracksAll, hpc] at hl
      exact hl
    intro t ht
    rw [sentTasks_append] at ht
    rw [hids]
    rcases List.mem_append.1 ht with hold | hnew
    · exact List.mem_append_left _ (h t hold)
    · refine List.mem_append_right _ (List.mem_map_of_mem ?_)
      simpa [sentTasks] using hnew
  | timeouts =>
    exact h.of_trackedIds_eq (trackedIds_call c.sched (c := .checkTimeouts _) rfl) rfl
  | _ => exact h.of_trackedIds_eq rfl rfl

end Coordinator

/-- The steps of a worker that neither refuse a task nor lose a result. -/
def Worker.NoSlip (w : Worker) : WorkerLabel → Prop
  | .recv (some batch) => (w.queue.enqueueAll batch).2 = []
  | .sendResult ok => ok = true
  | .forward ok => ok = true
  | _ => True

/-- Such a step reports neither. -/
theorem Worker.ReserveInv.clean {w w' : Worker} {l : WorkerLabel} {es : List WorkerEvent}
    (h : w.ReserveInv) (hl : w.NoSlip l) (hs : Transition w l w' es) :
    locallyRefused es = [] ∧ lostResults es = [] := by
  cases hs with
  | register | heartbeatDue => exact ⟨(tasks_sendEvents _ _).2, lostResults_sendEvents _ _⟩
  | @recv batch hpc =>
    refine ⟨(tasks_refused _).2.trans ?_, (results_refused _).2⟩
    rcases batch with - | batch
    · rfl
    · exact hl
  | processNoRoom hpc _ hfull =>
    rw [h.of_pc hpc] at hfull
    exact absurd hfull (by decide)
  | @sendResult r ok | @forward r ok =>
    obtain rfl : ok = true := hl
    exact ⟨rfl, rfl⟩
  | _ => exact ⟨rfl, rfl⟩

/-- The results that `scheduler_mark_task_complete` recorded. -/
def recordedResults (es : List Event) : List TaskResult :=
  es.flatMap fun
    | .resulted _ result rc => if rc = 0 then [result] else []
    | _ => []

namespace System

/-- The steps at which no failure goes unnoticed: registered batch sizes fit the array, re-enqueues
are accepted, sent tasks are tracked; batches are accepted by the local queue, results are sent. -/
def NoSlip (s : System × List SystemEvent) : SystemLabel → Prop
  | .coordinator l =>
    Coordinator.RegistersFit l ∧
      Coordinator.RequeueAccepted (s.1.coordinator, coordinatorLog s.2) l ∧
      s.1.coordinator.TracksAll l
  | .worker i l => ∀ w, lookup Worker.id i s.1.workers = some w → w.NoSlip l

/-- A log without unnoticed failures. -/
structure Clean (log : List SystemEvent) : Prop where
  requeued : refusedTasks (coordinatorLog log) = []
  enqueued : locallyRefused (workerLog log) = []
  sent : lostResults (workerLog log) = []
  recorded : recordedResults (coordinatorLog log) = processedResults (coordinatorLog log)

/-- What runs without unnoticed failures keep. -/
structure DeliveryInv (s : System × List SystemEvent) : Prop where
  balanced : s.1.Balanced s.2
  localInv : s.1.LocalInv
  tracked : s.1.coordinator.Tracked (coordinatorLog s.2)
  clean : Clean s.2

variable {s s' : System} {l : SystemLabel} {es log : List SystemEvent}

theorem Clean.append (h : Clean log) (h' : Clean es) : Clean (log ++ es) where
  requeued := by rw [coordinatorLog_append, refusedTasks_append, h.requeued, h'.requeued]; rfl
  enqueued := by
    rw [workerLog_append, locallyRefused, List.flatMap_append]
    exact List.append_eq_nil_iff.2 ⟨h.enqueued, h'.enqueued⟩
  sent := by
    rw [workerLog_append, lostResults, List.flatMap_append]
    exact List.append_eq_nil_iff.2 ⟨h.sent, h'.sent⟩
  recorded := by
    rw [coordinatorLog_append, recordedResults, processedResults, List.flatMap_append,
      List.flatMap_append]
    exact congrArg₂ (· ++ ·) h.recorded h'.recorded

/-- The task a result in flight belongs to was sent. -/
theorem Balanced.exists_sent {r : TaskResult} (h : s.Balanced log) (hr : r ∈ s.resultsInFlight) :
    ∃ t ∈ sentTasks (coordinatorLog log), executeTask t = r := by
  have hexec := h.executed r
  have hpos := List.count_pos_iff.2 hr
  have hmem : r ∈ (executedTasks (workerLog log)).map executeTask :=
    List.count_pos_iff.1 (by omega)
  obtain ⟨t, ht, rfl⟩ := List.mem_map.1 hmem
  have hsent := h.sent t
  have htpos := List.count_pos_iff.2 ht
  exact ⟨t, List.count_pos_iff.1 (by omega), rfl⟩

theorem recorded_handle {c : Scheduler} {src : UInt32} {now registeredAt : Time} {m : Incoming}
    (h : ∀ r ∈ m.results, r.taskId ∈ Coordinator.trackedIds c) :
    recordedResults (c.handle src now registeredAt m).2 =
      processedResults (c.handle src now registeredAt m).2 := by
  rcases m with caps | - | (- | r) | -
  · rfl
  · rfl
  · rfl
  · obtain ⟨task, htask, hid⟩ := List.mem_map.1 (h r (List.mem_singleton_self r))
    obtain ⟨task', ht⟩ := exists_lookup_of_mem TaskInfo.taskId htask
    rw [hid] at ht
    rw [Scheduler.handle, Scheduler.markTaskComplete_of_some ht]
    rfl
  · rfl

/-- A step of the coordinator without an unnoticed failure. -/
theorem DeliveryInv.clean_coordinator {l : Label} {c : Coordinator} {up : List (UInt32 × Incoming)}
    {es : List Event} (h : DeliveryInv (s, log)) (hl : NoSlip (s, log) (.coordinator l))
    (hup : upAfter s.up l = some up) (hs : Coordinator.Transition s.coordinator l c es) :
    Clean (es.map .coordinator) := by
  have hother : ∀ {es : List Event}, recordedResults es = processedResults es →
      refusedTasks es = [] → Clean (es.map .coordinator) := by
    intro es hrec href
    constructor
    · rwa [coordinatorLog_map_coordinator]
    · rw [workerLog_map_coordinator]; rfl
    · rw [workerLog_map_coordinator]; rfl
    · rwa [coordinatorLog_map_coordinator]
  refine hother ?_ ((Coordinator.refusedTasks_eq_nil_iff hs _).2 hl.2.1)
  cases hs with
  | @recvMsg src m =>
    refine recorded_handle fun r hr => ?_
    have hmem : r ∈ s.resultsInFlight := by
      refine List.mem_flatMap.2 ⟨(src, m), ?_, hr⟩
      exact (deliver_perm hup).mem_iff.2 List.mem_cons_self
    obtain ⟨t, ht, rfl⟩ := h.balanced.exists_sent hmem
    exact h.tracked t ht
  | _ => rfl

/-- **One step without an unnoticed failure.** -/
theorem DeliveryInv.step (h : DeliveryInv (s, log)) (hl : NoSlip (s, log) l)
    (hs : Transition s l s' es) : DeliveryInv (s', log ++ es) := by
  have hfit : RegistersFit l := by
    cases l with
    | coordinator l => exact hl.1
    | worker i l => trivial
  refine ⟨h.balanced.step h.localInv hfit hs, h.localInv.step hfit hs, ?_, h.clean.append ?_⟩
  · cases hs with
    | coordinator _ hstep =>
      rw [coordinatorLog_append, coordinatorLog_map_coordinator]
      exact h.tracked.step hl.2.2 hstep
    | worker =>
      rw [coordinatorLog_append, coordinatorLog_map_worker, List.append_nil]
      exact h.tracked
  · cases hs with
    | coordinator hup hstep => exact h.clean_coordinator hl hup hstep
    | worker hw _ hstep =>
      obtain ⟨href, hlost⟩ :=
        (h.localInv.workers _ (mem_of_lookup hw)).clean (hl _ hw) hstep
      constructor
      · rw [coordinatorLog_map_worker]; rfl
      · rwa [workerLog_map_worker]
      · rwa [workerLog_map_worker]
      · rw [coordinatorLog_map_worker]; rfl

theorem deliveryInv_init (workers : List (UInt32 × ℕ)) : DeliveryInv (init workers, []) where
  balanced := balanced_init workers
  localInv := localInv_init workers
  tracked := nofun
  clean := ⟨rfl, rfl, rfl, rfl⟩

/-! ### The places of an accepted task -/

/-- The places a task can be at: queued or in hand at the coordinator, in flight to a worker, held
by one as a task or as a result, in flight as a result, or recorded. -/
def Places (s : System) (log : List SystemEvent) (t : Task) : Prop :=
  t ∈ s.coordinator.queue.tasks ∨ t ∈ s.coordinator.pc.inHand ∨ t ∈ s.tasksInFlight ∨
    t ∈ s.tasksHeld ∨ executeTask t ∈ s.resultsHeld ∨ executeTask t ∈ s.resultsInFlight ∨
    executeTask t ∈ recordedResults (coordinatorLog log)

/-- Every accepted task is at one of the places. The two permutations say that no place is counted
for two tasks: what was accepted is, each as often as it was accepted, still a task or executed, and
what was executed is, each as often, a result on its way or recorded. -/
structure Delivered (s : System) (log : List SystemEvent) : Prop where
  placed : ∀ t ∈ acceptedTasks (coordinatorLog log), s.Places log t
  tasks : (acceptedTasks (coordinatorLog log)).Perm
    (s.coordinator.queue.tasks ++ s.coordinator.pc.inHand ++ s.tasksInFlight ++ s.tasksHeld ++
      executedTasks (workerLog log))
  results : ((executedTasks (workerLog log)).map executeTask).Perm
    (s.resultsHeld ++ s.resultsInFlight ++ recordedResults (coordinatorLog log))

theorem DeliveryInv.delivered (h : DeliveryInv (s, log)) : Delivered s log := by
  have htasks : (acceptedTasks (coordinatorLog log)).Perm
      (s.coordinator.queue.tasks ++ s.coordinator.pc.inHand ++ s.tasksInFlight ++ s.tasksHeld ++
        executedTasks (workerLog log)) := by
    refine List.perm_iff_count.2 fun t => ?_
    have hacc := h.balanced.accepted t
    have hsent := h.balanced.sent t
    have href := congrArg (List.count t) h.clean.requeued
    have hloc := congrArg (List.count t) h.clean.enqueued
    simp only [List.count_append, List.count_nil] at *
    omega
  have hresults : ((executedTasks (workerLog log)).map executeTask).Perm
      (s.resultsHeld ++ s.resultsInFlight ++ recordedResults (coordinatorLog log)) := by
    refine List.perm_iff_count.2 fun r => ?_
    have hexec := h.balanced.executed r
    have hlost := congrArg (List.count r) h.clean.sent
    have hrec := congrArg (List.count r) h.clean.recorded
    simp only [List.count_append, List.count_nil] at *
    omega
  refine ⟨fun t ht => ?_, htasks, hresults⟩
  have hmem := htasks.subset ht
  simp only [List.mem_append] at hmem
  rcases hmem with (((hq | hh) | hf) | hw) | he
  · exact .inl hq
  · exact .inr (.inl hh)
  · exact .inr (.inr (.inl hf))
  · exact .inr (.inr (.inr (.inl hw)))
  · have hres := hresults.subset (List.mem_map_of_mem he)
    simp only [List.mem_append] at hres
    rcases hres with (hheld | hflight) | hrec
    · exact .inr (.inr (.inr (.inr (.inl hheld))))
    · exact .inr (.inr (.inr (.inr (.inr (.inl hflight)))))
    · exact .inr (.inr (.inr (.inr (.inr (.inr hrec)))))

variable {workers : List (UInt32 × ℕ)} {labels : List SystemLabel}

/-- **No accepted task is lost** in a run without unnoticed failures, whoever is declared dead. -/
theorem accepted_placed (hrun : Run (logged step) (init workers, []) labels (s, log))
    (hok : Meets (logged step) NoSlip (init workers, []) labels) : Delivered s log := by
  refine DeliveryInv.delivered (hrun.invariant_of_meets ?_ hok (deliveryInv_init workers))
  rintro ⟨s, log⟩ l ⟨s', log'⟩ h hl hs
  obtain ⟨es, hstep, rfl⟩ := logged_eq_some_iff.1 hs
  exact h.step hl (transition_of_step hstep)

/-! ### A task on its way, and a task with a dead worker -/

instance (q : ValidQueue) (t : Task) : Decidable (q.Accepts t) :=
  inferInstanceAs (Decidable (_ ∧ _))

instance (l : Label) : Decidable (Coordinator.RegistersFit l) := by
  unfold Coordinator.RegistersFit
  split <;> infer_instance

instance (c : Coordinator) (l : Label) : Decidable (c.TracksAll l) := by
  unfold Coordinator.TracksAll
  split <;> infer_instance

instance (w : Worker) (l : WorkerLabel) : Decidable (w.NoSlip l) := by
  unfold Worker.NoSlip
  split <;> infer_instance

instance (s : Coordinator × List Event) (l : Label) :
    Decidable (Coordinator.RequeueAccepted s l) := by
  unfold Coordinator.RequeueAccepted
  split
  · rcases hpc : s.1.pc with - | - | - | - | - | ⟨rest, - | ⟨t, todo⟩⟩ | - | -
    case requeue.cons =>
      refine decidable_of_iff (s.1.queue.Accepts t) ⟨fun h r u ts heq => ?_, fun h => h _ _ _ rfl⟩
      exact (List.cons.inj (Pc.requeue.inj heq).2).1 ▸ h
    all_goals exact isTrue nofun
  · infer_instance

instance (s : System × List SystemEvent) (l : SystemLabel) : Decidable (NoSlip s l) := by
  cases l with
  | coordinator l => exact inferInstanceAs (Decidable (_ ∧ _))
  | worker i l =>
    rcases hw : lookup Worker.id i s.1.workers with - | w
    · exact isTrue fun w hw' => absurd (hw.symm.trans hw') nofun
    · refine decidable_of_iff (w.NoSlip l) ⟨fun h v hv => ?_, fun h => h w hw⟩
      exact Option.some.inj (hw.symm.trans hv) ▸ h

/-- The whole way of a task: at the end it is recorded. -/
theorem accepted_placed_when_done :
    ∃ s log, Run (logged step) (init [(7, 1)], []) oneTaskDone (s, log) ∧
      acceptedTasks (coordinatorLog log) = [{ taskId := 1 }] ∧
      recordedResults (coordinatorLog log) = [⟨1, 0⟩] ∧ Delivered s log := by
  have hrun : Run (logged step) (init [(7, 1)], []) oneTaskDone _ := run_get rfl
  exact ⟨_, _, hrun, rfl, rfl, accepted_placed hrun (by decide)⟩

/-- A worker that the scheduler knows and does not take for dead. -/
def alive (s : System) (id : UInt32) : Bool :=
  match s.coordinator.sched.worker? id with
  | some w => w.state ≠ .dead
  | none => false

/-- The places that are safe from a worker's death: the queue, a worker that is not dead and the
batches in flight to it, a result in flight, or recorded. -/
def PlacedAlive (s : System) (log : List SystemEvent) (t : Task) : Prop :=
  t ∈ s.coordinator.queue.tasks ∨
    t ∈ (s.down.filter fun m => s.alive m.1).flatMap Prod.snd ∨
    t ∈ (s.workers.filter fun w => s.alive w.id).flatMap Worker.heldTasks ∨
    executeTask t ∈ (s.workers.filter fun w => s.alive w.id).flatMap Worker.heldResults ∨
    executeTask t ∈ s.resultsInFlight ∨ executeTask t ∈ recordedResults (coordinatorLog log)

instance (s : System) (log : List SystemEvent) (t : Task) : Decidable (s.PlacedAlive log t) :=
  inferInstanceAs (Decidable (_ ∨ _))

/-- The worker holding the task is silent for 31 seconds and declared dead. No failure went
unnoticed, the coordinator is at the top of its loop, and the task is neither queued again nor
anywhere else. -/
theorem task_lost_on_timeout :
    ∃ s log, Run (logged step) (init [(7, 1)], [])
      (oneTaskReceived ++ [.coordinator (.timeouts 31)]) (s, log) ∧
      Meets (logged step) NoSlip (init [(7, 1)], [])
        (oneTaskReceived ++ [.coordinator (.timeouts 31)]) ∧
      s.coordinator.pc = .recv ∧ acceptedTasks (coordinatorLog log) = [{ taskId := 1 }] ∧
      ¬ s.PlacedAlive log { taskId := 1 } := by
  have hrun : Run (logged step) (init [(7, 1)], [])
    (oneTaskReceived ++ [.coordinator (.timeouts 31)]) _ := run_get rfl
  exact ⟨_, _, hrun, by decide, rfl, rfl, by decide⟩

end System

end DistributedComputing
