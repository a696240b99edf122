import DistributedComputing.Runtime.ResourceLimits
import DistributedComputing.Worker.Ledger

/-!
# The concurrency limit of a cluster head

`resource_limits` counts the tasks that are running: `resource_limits_reserve_task` refuses a task
when there are `max_concurrent_tasks` of them, and `resource_limits_release_task` ends one, as
completed or failed. A standalone worker keeps its reservation while it executes. A cluster head
releases it **right after the task was handed to a rank** (`/* Don't block - results collected
separately */`), as completed, and nothing is released when the result is collected. Its running
count is thus always zero between two iterations, and reserving always succeeds.

`LimitedWorker` is the worker's loop with the calls it makes of the limiter, and with the numbers of
tasks accepted by the local queue, tasks handed to ranks and results collected. What the limit then
means in a run is a matter of arrivals and answers. A head collects results only in iterations that
find its local queue empty, so everything that has been accepted is handed over before the next
result is looked for. `limits_along` says what follows for the tasks that are out, and for those
counted as completed.
-/

namespace DistributedComputing

open Mailbox StepRun

/-! ### The loop with the limiter -/

/-- A worker with its limiter, and what it has exchanged with its ranks so far. -/
structure LimitedWorker where
  worker : Worker
  limits : ResourceLimits
  accepted : ℕ := 0
  distributed : ℕ := 0
  collected : ℕ := 0

namespace LimitedWorker

/-- The start of `run_worker`. -/
def create (id : UInt32) (mpiSize : ℕ) : LimitedWorker where
  worker := .create id mpiSize
  limits := { maxConcurrentTasks := .ofNat Worker.maxConcurrentTasks }

/-- A task can be taken out of the local queue, and gets a reservation. -/
def reserves (s : LimitedWorker) : Bool :=
  s.worker.queue.dequeue.1.isSome && s.limits.reserveTask.1 == 0

/-- The tasks of a batch that the local queue accepts. -/
def accepts (s : LimitedWorker) : WorkerLabel → ℕ
  | .recv batch => (batch.getD []).length - (s.worker.queue.enqueueAll (batch.getD [])).2.length
  | _ => 0

/-- The step calls `distribute_to_mpi_worker`. -/
def distributes (s : LimitedWorker) : WorkerLabel → Bool
  | .process => s.reserves && s.worker.mode == .clusterHead
  | _ => false

/-- The step finds a result in `collect_from_mpi_worker`. -/
def collects : WorkerLabel → Bool
  | .collect (some _) => true
  | _ => false

/-- The limiter after the calls that the step makes. -/
def limitsAfter (s : LimitedWorker) : WorkerLabel → ResourceLimits
  | .process =>
    if s.reserves then
      match s.worker.mode with
      -- released right after the send to the rank
      | .clusterHead => s.limits.reserveTask.2.releaseTask true
      | .standalone => s.limits.reserveTask.2
    else s.limits
  | .sendResult _ =>
    match s.worker.pc with
    | .sendResult r => s.limits.releaseTask (r.status = 0)
    | _ => s.limits
  | _ => s.limits

/-- One step. -/
def step (s : LimitedWorker) (l : WorkerLabel) : Option LimitedWorker :=
  (s.worker.step l).map fun r =>
    { worker := r.1
      limits := s.limitsAfter l
      accepted := s.accepted + s.accepts l
      distributed := s.distributed + (s.distributes l).toNat
      collected := s.collected + (collects l).toNat }

/-- The tasks sent to ranks whose results have not been collected. -/
def outstanding (s : LimitedWorker) : ℕ := s.distributed - s.collected

/-! ### Cluster heads -/

/-- The messages between a head and its ranks. -/
def pending (w : Worker) : ℕ := w.toRanks.length + w.fromRanks.length

/-- The head looks for results, or forwards one. -/
def Collecting (w : Worker) : Prop := w.pc = .collect ∨ ∃ r, w.pc = .forward r

/-- What holds in every state of a cluster head: it has no reservation; every task that was accepted
is in the local queue or was handed over, and every task it handed over is with a rank, or its
result on the way, or collected; and it collects with an empty local queue only. -/
structure HeadInv (s : LimitedWorker) : Prop where
  mode : 1 < s.worker.mpiSize
  limit : s.limits.maxConcurrentTasks = .ofNat Worker.maxConcurrentTasks
  running : s.limits.tasksRunning = 0
  workerRunning : s.worker.tasksRunning = 0
  notExecuting : ∀ t, s.worker.pc ≠ .execute t
  notSending : ∀ r, s.worker.pc ≠ .sendResult r
  queued : s.accepted = s.distributed + s.worker.queue.tasks.length
  balance : s.distributed = s.collected + pending s.worker
  emptied : Collecting s.worker → s.worker.queue.tasks = []

theorem headInv_create (id : UInt32) {mpiSize : ℕ} (h : 2 ≤ mpiSize) :
    HeadInv (create id mpiSize) where
  mode := h
  limit := rfl
  running := rfl
  workerRunning := rfl
  notExecuting := nofun
  notSending := nofun
  queued := rfl
  balance := rfl
  emptied := fun _ => rfl

variable {s t : LimitedWorker} {l : WorkerLabel}

theorem HeadInv.clusterHead (h : HeadInv s) : s.worker.mode = .clusterHead := if_pos h.mode

theorem HeadInv.reserve (h : HeadInv s) :
    s.limits.reserveTask.1 = 0 ∧ s.limits.reserveTask.2.releaseTask true =
      { s.limits with tasksCompleted := s.limits.tasksCompleted + 1 } :=
  ResourceLimits.release_reserve h.running (h.limit ▸ by decide)

/-- Every task that is taken out of the queue is handed over. -/
theorem HeadInv.distributes_process (h : HeadInv s) :
    s.distributes .process = s.worker.queue.dequeue.1.isSome := by
  rw [distributes, reserves, h.clusterHead, h.reserve.1]
  simp only [beq_self_eq_true, Bool.and_true]

/-- **The limiter of a head** counts the tasks handed over as completed, and does nothing else. -/
theorem HeadInv.limitsAfter_eq (h : HeadInv s) (l : WorkerLabel) :
    s.limitsAfter l = { s.limits with
      tasksCompleted := s.limits.tasksCompleted + if s.distributes l then 1 else 0 } := by
  cases l with
  | process =>
    rw [limitsAfter, distributes, h.clusterHead, h.reserve.2, beq_self_eq_true, Bool.and_true]
    split
    · rfl
    · exact s.limits.completed_add_zero
  | sendResult ok =>
    rw [limitsAfter]
    split
    · next r hpc => exact absurd hpc (h.notSending r)
    · exact s.limits.completed_add_zero
  | _ =>
    exact s.limits.completed_add_zero

theorem HeadInv.processStep (h : HeadInv s) :
    s.worker.processStep.1.mpiSize = s.worker.mpiSize ∧
      s.worker.processStep.1.tasksRunning = 0 ∧
      (s.worker.processStep.1.pc = .collect ∧ s.worker.processStep.1.queue.tasks = [] ∨
        s.worker.processStep.1.pc = .heartbeat) ∧
      s.worker.processStep.1.queue.tasks.length + s.worker.queue.dequeue.1.isSome.toNat =
        s.worker.queue.tasks.length ∧
      pending s.worker.processStep.1 =
        pending s.worker + s.worker.queue.dequeue.1.isSome.toNat := by
  have hroom : ¬ Worker.maxConcurrentTasks ≤ s.worker.tasksRunning := by
    rw [h.workerRunning]
    decide
  rw [Worker.processStep, h.clusterHead]
  rcases htasks : s.worker.queue.tasks with - | ⟨t, ts⟩
  · rw [ValidQueue.dequeue_of_nil htasks]
    exact ⟨rfl, h.workerRunning, .inl ⟨rfl, htasks⟩, congrArg List.length htasks, rfl⟩
  · obtain ⟨hhead, hrest, -⟩ := ValidQueue.dequeue_of_cons htasks
    rw [← Prod.mk.eta (p := s.worker.queue.dequeue), hhead]
    dsimp only
    rw [if_neg hroom]
    refine ⟨rfl, h.workerRunning, .inr rfl, ?_, ?_⟩
    · exact congrArg (List.length · + 1) hrest
    · show (s.worker.toRanks ++ [_]).length + _ = _
      rw [List.length_append, List.length_singleton, Nat.add_right_comm]
      rfl

/-- What a step does to the worker of a head. -/
theorem HeadInv.worker_step {w : Worker} {es : List WorkerEvent} (h : HeadInv s)
    (hw : s.worker.step l = some (w, es)) :
    w.mpiSize = s.worker.mpiSize ∧ w.tasksRunning = 0 ∧
      (∀ t, w.pc ≠ .execute t) ∧ (∀ r, w.pc ≠ .sendResult r) ∧
      w.queue.tasks.length + (s.distributes l).toNat =
        s.worker.queue.tasks.length + s.accepts l ∧
      pending w + (collects l).toNat = pending s.worker + (s.distributes l).toNat ∧
      (Collecting w → w.queue.tasks = []) := by
  by_cases hl : l = .process
  · subst hl
    obtain ⟨hsize, hrun, hpc, hqueue, hpending⟩ := h.processStep
    rw [Worker.step] at hw
    split at hw
    · obtain rfl : s.worker.processStep.1 = w := congrArg Prod.fst (Option.some.inj hw)
      rw [h.distributes_process]
      refine ⟨hsize, hrun, fun t ht => ?_, fun r hr => ?_, hqueue, hpending, fun hcollect => ?_⟩
      · rcases hpc with ⟨hpc, -⟩ | hpc <;> exact WorkerPc.noConfusion (hpc.symm.trans ht)
      · rcases hpc with ⟨hpc, -⟩ | hpc <;> exact WorkerPc.noConfusion (hpc.symm.trans hr)
      · rcases hpc with ⟨-, hnil⟩ | hpc
        · exact hnil
        · rw [Collecting, hpc] at hcollect
          rcases hcollect with hcollect | ⟨r, hcollect⟩ <;> cases hcollect
    · cases hw
  cases Worker.transition_of_step hw with
  | processNothing | processNoRoom | processRank | processExecute => exact absurd rfl hl
  | execute hpc => exact absurd hpc (h.notExecuting _)
  | sendResult hpc => exact absurd hpc (h.notSending _)
  | register | heartbeatDue | heartbeatNotDue | collectNothing =>
    refine ⟨rfl, h.workerRunning, fun _ => WorkerPc.noConfusion, fun _ => WorkerPc.noConfusion, rfl,
      rfl, ?_⟩
    rintro (hcollect | ⟨r, hcollect⟩) <;> cases hcollect
  | @recv batch =>
    have hlength := s.worker.queue.length_enqueueAll (batch.getD [])
    have hrefused := s.worker.queue.length_refused_le (batch.getD [])
    refine ⟨rfl, h.workerRunning, fun _ => WorkerPc.noConfusion, fun _ => WorkerPc.noConfusion, ?_,
      rfl, ?_⟩
    · show (s.worker.queue.enqueueAll (batch.getD [])).1.tasks.length + 0 =
        s.worker.queue.tasks.length +
          ((batch.getD []).length - (s.worker.queue.enqueueAll (batch.getD [])).2.length)
      omega
    · rintro (hcollect | ⟨r, hcollect⟩) <;> cases hcollect
  | forward hpc =>
    exact ⟨rfl, h.workerRunning, fun _ => WorkerPc.noConfusion, fun _ => WorkerPc.noConfusion, rfl,
      rfl, fun _ => h.emptied (.inr ⟨_, hpc⟩)⟩
  | collect hpc hmsg =>
    refine ⟨rfl, h.workerRunning, fun _ => WorkerPc.noConfusion, fun _ => WorkerPc.noConfusion, rfl,
      ?_, fun _ => h.emptied (.inl hpc)⟩
    rw [pending, pending, length_deliver hmsg]
    rfl
  | @rank r t rest hmsg =>
    refine ⟨rfl, h.workerRunning, h.notExecuting, h.notSending, rfl, ?_, h.emptied⟩
    show rest.length + (s.worker.fromRanks ++ [(r, executeTask t)]).length = pending s.worker
    rw [pending, length_deliver hmsg, List.length_append, List.length_singleton]
    omega

/-- **One step of a head** keeps the invariant. -/
theorem HeadInv.step (h : HeadInv s) (hs : s.step l = some t) : HeadInv t := by
  obtain ⟨⟨w, es⟩, hw, rfl⟩ := Option.map_eq_some_iff.1 hs
  obtain ⟨hsize, hrun, hexec, hsend, hqueue, hpending, hempty⟩ := h.worker_step hw
  refine ⟨?_, ?_, ?_, hrun, hexec, hsend, ?_, ?_, hempty⟩
  · exact hsize ▸ h.mode
  · exact h.limitsAfter_eq l ▸ h.limit
  · exact h.limitsAfter_eq l ▸ h.running
  · have hqueued := h.queued
    show s.accepted + s.accepts l = s.distributed + (s.distributes l).toNat + w.queue.tasks.length
    omega
  · have hbal := h.balance
    show s.distributed + (s.distributes l).toNat = s.collected + (collects l).toNat + pending w
    omega

/-! ### The limit along a run -/

/-- The tasks that are out stay within the limit. -/
def WithinLimit (s : LimitedWorker) : Prop :=
  s.outstanding ≤ s.limits.maxConcurrentTasks.toNat

/-- No more tasks are completed than results were collected. -/
def CompletedCollected (s : LimitedWorker) : Prop :=
  s.limits.tasksCompleted.toNat ≤ s.collected

/-- The tasks accepted exceed the results collected by no more than the limit. -/
def AnswersKeepUp (s : LimitedWorker) : Prop :=
  s.accepted ≤ s.collected + s.limits.maxConcurrentTasks.toNat

/-- No task is handed over. -/
def DistributesNothing (s : LimitedWorker) (l : WorkerLabel) : Prop := s.distributes l = false

instance : DecidablePred WithinLimit := fun s =>
  inferInstanceAs (Decidable (s.outstanding ≤ s.limits.maxConcurrentTasks.toNat))

instance : DecidablePred AnswersKeepUp := fun s =>
  inferInstanceAs (Decidable (s.accepted ≤ s.collected + s.limits.maxConcurrentTasks.toNat))

instance (s : LimitedWorker) (l : WorkerLabel) : Decidable (DistributesNothing s l) :=
  inferInstanceAs (Decidable (s.distributes l = false))

theorem not_collects_of_distributes (h : s.distributes l = true) : collects l = false := by
  cases l with
  | process => rfl
  | _ =>
    exact absurd h Bool.false_ne_true

theorem HeadInv.withinLimit_of_keepUp (h : HeadInv s) (hup : AnswersKeepUp s) : WithinLimit s := by
  have hqueued := h.queued
  rw [AnswersKeepUp] at hup
  rw [WithinLimit, outstanding]
  omega

/-- With nothing queued, all that was accepted is out or collected. -/
theorem HeadInv.keepUp_of_withinLimit (h : HeadInv s) (hnil : s.worker.queue.tasks = [])
    (hlimit : WithinLimit s) : AnswersKeepUp s := by
  have hqueued := h.queued
  rw [hnil, List.length_nil] at hqueued
  rw [WithinLimit, outstanding] at hlimit
  rw [AnswersKeepUp]
  omega

/-- **One step**, backwards: a step that collects finds the queue empty, and any other leaves at
least as many tasks without a result. -/
theorem HeadInv.keepUp_of_step (h : HeadInv s) (hlimit : WithinLimit s) (hs : s.step l = some t)
    (hup : AnswersKeepUp t) : AnswersKeepUp s := by
  have hmax : t.limits.maxConcurrentTasks = s.limits.maxConcurrentTasks :=
    (h.step hs).limit.trans h.limit.symm
  obtain ⟨⟨w, es⟩, hw, rfl⟩ := Option.map_eq_some_iff.1 hs
  rcases hc : collects l
  · rw [AnswersKeepUp, hmax] at hup
    change s.accepted + s.accepts l ≤ s.collected + (collects l).toNat + _ at hup
    rw [hc, Bool.toNat_false] at hup
    rw [AnswersKeepUp]
    omega
  · cases Worker.transition_of_step hw with
    | collect hpc => exact h.keepUp_of_withinLimit (h.emptied (.inl hpc)) hlimit
    | _ => cases hc

/-- **A run that ends with an empty queue** stays within the limit only if the answers keep up. -/
theorem HeadInv.keepUp_of_run {labels : List WorkerLabel} (hrun : Run LimitedWorker.step s labels t)
    (h : HeadInv s) (hnil : t.worker.queue.tasks = [])
    (halong : Along LimitedWorker.step WithinLimit s labels) :
    Along LimitedWorker.step AnswersKeepUp s labels := by
  induction hrun with
  | nil s => exact h.keepUp_of_withinLimit hnil halong
  | cons hs _ ih =>
    rw [along_cons_of_some hs] at halong ⊢
    have hrest := ih (h.step hs) hnil halong.2
    exact ⟨h.keepUp_of_step halong.1 hs hrest.head, hrest⟩

/-- Nothing was handed over yet. -/
structure HeadFresh (s : LimitedWorker) : Prop extends HeadInv s where
  completed : s.limits.tasksCompleted = 0
  distributed_eq : s.distributed = 0

theorem HeadFresh.collected_eq (h : HeadFresh s) : s.collected = 0 := by
  have hbal := h.balance
  rw [h.distributed_eq] at hbal
  omega

theorem HeadFresh.step (h : HeadFresh s) (hok : DistributesNothing s l)
    (hs : s.step l = some t) : HeadFresh t := by
  refine ⟨h.toHeadInv.step hs, ?_, ?_⟩
  · obtain ⟨r, -, rfl⟩ := Option.map_eq_some_iff.1 hs
    show (s.limitsAfter l).tasksCompleted = 0
    rw [h.limitsAfter_eq, h.completed, hok]
    rfl
  · obtain ⟨r, -, rfl⟩ := Option.map_eq_some_iff.1 hs
    show s.distributed + (s.distributes l).toNat = 0
    rw [h.distributed_eq, hok]
    rfl

/-- **One step**, for the completed tasks: the first one is counted before its result is there. -/
theorem HeadFresh.completedCollected_iff (h : HeadFresh s) (hs : s.step l = some t) :
    CompletedCollected t ↔ DistributesNothing s l := by
  obtain ⟨r, -, rfl⟩ := Option.map_eq_some_iff.1 hs
  show (s.limitsAfter l).tasksCompleted.toNat ≤ s.collected + (collects l).toNat ↔ _
  rw [h.limitsAfter_eq, h.completed, h.collected_eq, DistributesNothing]
  rcases hd : s.distributes l
  · exact iff_of_true (Nat.zero_le _) rfl
  · rw [not_collects_of_distributes hd]
    exact iff_of_false (Nat.not_succ_le_zero 0) nofun

/-- **The limit of a cluster head.** Along any run of a cluster head, the tasks sent to ranks and
not collected stay within `max_concurrent_tasks` if the tasks accepted by the local queue exceed the
results collected by no more than that at any time, and if the run ends with an empty local queue,
only then; and `tasks_completed` stays within the number of collected results exactly if no task was
handed over. -/
theorem limits_along (id : UInt32) {mpiSize : ℕ} (hsize : 2 ≤ mpiSize)
    (labels : List WorkerLabel) :
    (Along step AnswersKeepUp (create id mpiSize) labels →
      Along step WithinLimit (create id mpiSize) labels) ∧
    (∀ s, Run step (create id mpiSize) labels s → s.worker.queue.tasks = [] →
      Along step WithinLimit (create id mpiSize) labels →
        Along step AnswersKeepUp (create id mpiSize) labels) ∧
    (Along step CompletedCollected (create id mpiSize) labels ↔
      Meets step DistributesNothing (create id mpiSize) labels) := by
  have hinit : HeadInv (create id mpiSize) := headInv_create id hsize
  refine ⟨fun hup => along_iff_forall_run.2 fun as₁ as₂ s heq hrun => ?_,
    fun s hrun hnil => hinit.keepUp_of_run hrun hnil, ?_⟩
  · exact (hrun.invariant HeadInv.step hinit).withinLimit_of_keepUp
      (along_iff_forall_run.1 hup as₁ as₂ s heq hrun)
  · have hfresh : HeadFresh (create id mpiSize) := ⟨hinit, rfl, rfl⟩
    exact along_iff_meets_of_guarded (fun h _ _ hok hs => h.step hok hs)
      (fun h _ _ hs => h.completedCollected_iff hs) meets_true hfresh (Nat.le_refl 0)

/-- A run of a head with one rank: a task is handed over, executed and collected. -/
def oneTask : List WorkerLabel :=
  [.register true 0, .heartbeat 0 true, .recv (some [{ taskId := 1 }]), .process,
    .rank 1 { taskId := 1 }, .heartbeat 0 true, .recv none, .process,
    .collect (some (1, ⟨1, 0⟩)), .forward true]

/-- The limit is kept on a run that hands over one task, and the completed tasks are not. -/
theorem limits_along_oneTask :
    Along step WithinLimit (create 0 2) oneTask ∧
      ¬ Along step CompletedCollected (create 0 2) oneTask := by
  obtain ⟨hlimit, -, hcompleted⟩ := limits_along 0 (Nat.le_refl 2) oneTask
  exact ⟨hlimit (by decide), fun h => absurd (hcompleted.1 h) (by decide)⟩

/-- Nine tasks arrive, and are handed to a rank that does not answer. -/
def nineTasks : List WorkerLabel :=
  [.register true 0, .heartbeat 0 true,
    .recv (some ((List.range 9).map fun i => { taskId := .ofNat i })), .process] ++
  (List.replicate 8 [.heartbeat 0 true, .recv none, .process]).flatten

/-- The limit is eight. -/
theorem limit_exceeded_by_silent_rank :
    ¬ Along step WithinLimit (create 0 2) nineTasks := by
  decide

end LimitedWorker

end DistributedComputing
