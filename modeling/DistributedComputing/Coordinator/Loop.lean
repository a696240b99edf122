import DistributedComputing.Foundations.StepRun
import DistributedComputing.Coordinator.Scheduler
import DistributedComputing.Runtime.TaskQueueRefinement

/-!
# The coordinator's main loop

A model of `run_coordinator`: receive one message, dispatch batches to idle workers, check for dead
workers, and again. Other threads may enqueue tasks at any time, so the loop is cut into steps at
every operation on the shared queue, and `Label.enqueue` is enabled everywhere. The label of a step
carries what the environment chooses: the message that arrived, the readings of the clock, whether a
send succeeded.

The scheduler is only used by this thread, so the calls of `scheduler_mark_worker_busy` and
`scheduler_track_task` that follow a successful send are part of the send step. `batch` is an array
of 100 tasks on the stack; a 101st task written to it is undefined behaviour and leads to
`Pc.overrun`, where the loop has no further step.

Steps report events: a task accepted from outside, a batch sent, a result processed with the return
code of `scheduler_mark_task_complete`, a re-enqueue that was refused. They are observations for the
statements and nothing reads them. The metadata written for a result is left out.

`Transition` lists what a step can do, once; every invariant of the loop is proved by cases on it.
-/

namespace DistributedComputing

/-- The three words of a registration payload of at least 12 bytes. -/
structure Capabilities where
  numLocalRanks : UInt32
  maxBatchSize : UInt32
  capabilities : UInt32
  deriving DecidableEq, Repr

/-- The fields of `task_result_t` that the scheduler gets to see. -/
structure TaskResult where
  taskId : UInt64
  status : ℤ
  deriving DecidableEq, Repr

/-- A received message, as the `switch` of the loop reads it. A registration may come without
capabilities, a result with a payload that is too short. -/
inductive Incoming
  | register (caps : Option Capabilities)
  | heartbeat
  | result (result : Option TaskResult)
  | other
  deriving DecidableEq, Repr

/-- What the loop reports. -/
inductive Event
  | accepted (task : Task)
  | sent (workerId : UInt32) (batch : List Task)
  | resulted (src : UInt32) (result : TaskResult) (rc : ℤ)
  | requeueRefused (task : Task)
  deriving DecidableEq, Repr

namespace Scheduler

/-- The entry `handle_worker_register` fills in, with its defaults for missing or zero fields. -/
def registerInfo (src : UInt32) (caps : Option Capabilities) (now : Time) : WorkerInfo :=
  let c := caps.getD ⟨0, 0, 0⟩
  { workerId := src
    state := .idle
    lastHeartbeat := now
    numLocalRanks := if c.numLocalRanks = 0 then 1 else c.numLocalRanks
    maxBatchSize := if c.maxBatchSize = 0 then 10 else c.maxBatchSize
    capabilities := c.capabilities }

/-- The message handlers. -/
def handle (s : Scheduler) (src : UInt32) (now registeredAt : Time) :
    Incoming → Scheduler × List Event
  | .register caps => ((s.registerWorker (registerInfo src caps now) now registeredAt).2, [])
  | .heartbeat => (s.updateHeartbeat src now, [])
  | .result none => (s, [])
  | .result (some r) =>
    ((s.markTaskComplete r.taskId r.status).2,
      [.resulted src r (s.markTaskComplete r.taskId r.status).1])
  | .other => (s, [])

/-- The tracking loop after a successful send. The return codes are ignored. -/
def trackBatch (s : Scheduler) (workerId : UInt32) (clock : ℕ → Time × Time) (j : ℕ) :
    List Task → Scheduler
  | [] => s
  | t :: batch =>
    (s.trackTask t.taskId workerId (clock j).1 (clock j).2).2.trackBatch workerId clock (j + 1)
      batch

end Scheduler

/-- Where the loop is, with the local variables that matter there: the idle workers still to be
served, the batch under construction or in hand, the tasks still to be put back. -/
inductive Pc
  | recv
  | schedule
  | dispatch (rest : List WorkerInfo)
  | collect (w : WorkerInfo) (rest : List WorkerInfo) (batch : List Task)
  | send (w : WorkerInfo) (rest : List WorkerInfo) (batch : List Task)
  | requeue (rest : List WorkerInfo) (todo : List Task)
  | timeouts
  | overrun

/-- The tasks that are in the loop's hands: no longer queued, not yet sent. -/
def Pc.inHand : Pc → List Task
  | .collect _ _ batch => batch
  | .send _ _ batch => batch
  | .requeue _ todo => todo
  | _ => []

/-- The state of the coordinator. -/
structure Coordinator where
  queue : ValidQueue
  sched : Scheduler
  pc : Pc := .recv

/-- What the environment chooses. -/
inductive Label
  | enqueue (task : Task)
  | recv (msg : Option (UInt32 × Incoming)) (now registeredAt : Time)
  | internal
  | send (ok : Bool) (clock : ℕ → Time × Time)
  | timeouts (now : Time)

namespace Coordinator

/-- `queue_config` of `run_coordinator`. -/
def queueConfig : TaskQueueConfig := ⟨10000, false⟩

/-- `sched_config` of `run_coordinator`. -/
def schedConfig : SchedulerConfig := ⟨256, 30⟩

/-- The state in which the loop is entered. -/
def init : Coordinator where
  queue := .create queueConfig
  sched := .create schedConfig

/-- The size of the array `batch`. -/
def batchCapacity : ℕ := 100

/-- `max_batch`. -/
def maxBatch (w : WorkerInfo) : ℕ := if 0 < w.maxBatchSize then w.maxBatchSize.toNat else 10

/-- `create_task_batch` is done: an empty batch ends this worker's turn. -/
def finishBatch (c : Coordinator) (w : WorkerInfo) (rest : List WorkerInfo) (batch : List Task) :
    Coordinator :=
  { c with pc := if batch = [] then .dispatch rest else .send w rest batch }

/-- One round of the loop of `create_task_batch`. -/
def collectStep (c : Coordinator) (w : WorkerInfo) (rest : List WorkerInfo) (batch : List Task) :
    Coordinator :=
  if batch.length < maxBatch w then
    match c.queue.dequeue with
    | (some t, queue) =>
      -- the source does not check this bound: beyond it the write is outside the array
      if batch.length < batchCapacity then { c with queue, pc := .collect w rest (batch ++ [t]) }
      else { c with queue, pc := .overrun }
    | (none, _) => c.finishBatch w rest batch
  else c.finishBatch w rest batch

/-- A successful send: the worker is marked busy and the tasks are tracked. -/
def sendOk (c : Coordinator) (w : WorkerInfo) (rest : List WorkerInfo) (batch : List Task)
    (clock : ℕ → Time × Time) : Coordinator :=
  { c with
    sched := (c.sched.markWorkerBusy w.workerId batch.length).trackBatch w.workerId clock 0 batch
    pc := .dispatch rest }

/-- The message, if one arrived, is handled. -/
def receive (c : Coordinator) (msg : Option (UInt32 × Incoming)) (now registeredAt : Time) :
    Coordinator × List Event :=
  match msg with
  | none => ({ c with pc := .schedule }, [])
  | some (src, m) =>
    ({ c with sched := (c.sched.handle src now registeredAt m).1, pc := .schedule },
      (c.sched.handle src now registeredAt m).2)

/-- The steps of the loop that depend on its own state only. -/
def internalStep (c : Coordinator) : Option (Coordinator × List Event) :=
  match c.pc with
  | .schedule => some ({ c with pc := .dispatch (c.sched.getIdleWorkers 256) }, [])
  | .dispatch [] => some ({ c with pc := .timeouts }, [])
  | .dispatch (w :: rest) =>
    some ({ c with pc := if c.queue.isEmpty then .timeouts else .collect w rest [] }, [])
  | .collect w rest batch => some (c.collectStep w rest batch, [])
  | .requeue rest [] => some ({ c with pc := .dispatch rest }, [])
  | .requeue rest (t :: todo) =>
    -- the return code of the re-enqueue is not looked at
    some ({ c with queue := (c.queue.enqueue t).2, pc := .requeue rest todo },
      if (c.queue.enqueue t).1 = 0 then [] else [.requeueRefused t])
  | _ => none

/-- One step, with what it reports. -/
def step (c : Coordinator) : Label → Option (Coordinator × List Event)
  | .enqueue t =>
    some ({ c with queue := (c.queue.enqueue t).2 },
      if (c.queue.enqueue t).1 = 0 then [.accepted t] else [])
  | .recv msg now registeredAt =>
    match c.pc with
    | .recv => some (c.receive msg now registeredAt)
    | _ => none
  | .internal => c.internalStep
  | .send ok clock =>
    match c.pc with
    | .send w rest batch =>
      if ok then some (c.sendOk w rest batch clock, [.sent w.workerId batch])
      else some ({ c with pc := .requeue rest batch }, [])
    | _ => none
  | .timeouts now =>
    match c.pc with
    | .timeouts => some ({ c with sched := (c.sched.checkTimeouts now).2, pc := .recv }, [])
    | _ => none

/-! ### What a step can do -/

/-- Every way in which a step can go. -/
inductive Transition : Coordinator → Label → Coordinator → List Event → Prop
  | enqueueAccepted {c t} (hacc : c.queue.Accepts t) :
      Transition c (.enqueue t) { c with queue := (c.queue.enqueue t).2 } [.accepted t]
  | enqueueRefused {c t} (hacc : ¬ c.queue.Accepts t) : Transition c (.enqueue t) c []
  | recvNone {c now registeredAt} (hpc : c.pc = .recv) :
      Transition c (.recv none now registeredAt) { c with pc := .schedule } []
  | recvMsg {c src m now registeredAt} (hpc : c.pc = .recv) :
      Transition c (.recv (some (src, m)) now registeredAt)
        { c with sched := (c.sched.handle src now registeredAt m).1, pc := .schedule }
        (c.sched.handle src now registeredAt m).2
  | schedule {c} (hpc : c.pc = .schedule) :
      Transition c .internal { c with pc := .dispatch (c.sched.getIdleWorkers 256) } []
  | dispatchEnd {c rest} (hpc : c.pc = .dispatch rest) (hend : rest = [] ∨ c.queue.tasks = []) :
      Transition c .internal { c with pc := .timeouts } []
  | dispatchWorker {c w rest} (hpc : c.pc = .dispatch (w :: rest)) (hne : c.queue.tasks ≠ []) :
      Transition c .internal { c with pc := .collect w rest [] } []
  | collectTask {c w rest batch t ts} (hpc : c.pc = .collect w rest batch)
      (hlt : batch.length < maxBatch w) (hcap : batch.length < batchCapacity)
      (htasks : c.queue.tasks = t :: ts) :
      Transition c .internal
        { c with queue := c.queue.dequeue.2, pc := .collect w rest (batch ++ [t]) } []
  | collectOverrun {c w rest batch t ts} (hpc : c.pc = .collect w rest batch)
      (hlt : batch.length < maxBatch w) (hcap : batchCapacity ≤ batch.length)
      (htasks : c.queue.tasks = t :: ts) :
      Transition c .internal { c with queue := c.queue.dequeue.2, pc := .overrun } []
  | collectNothing {c w rest} (hpc : c.pc = .collect w rest []) :
      Transition c .internal { c with pc := .dispatch rest } []
  | collectDone {c w rest batch} (hpc : c.pc = .collect w rest batch) (hne : batch ≠ []) :
      Transition c .internal { c with pc := .send w rest batch } []
  | sendOk {c w rest batch clock} (hpc : c.pc = .send w rest batch) :
      Transition c (.send true clock) (c.sendOk w rest batch clock) [.sent w.workerId batch]
  | sendFail {c w rest batch clock} (hpc : c.pc = .send w rest batch) :
      Transition c (.send false clock) { c with pc := .requeue rest batch } []
  | requeueDone {c rest} (hpc : c.pc = .requeue rest []) :
      Transition c .internal { c with pc := .dispatch rest } []
  | requeueAccepted {c rest t todo} (hpc : c.pc = .requeue rest (t :: todo))
      (hacc : c.queue.Accepts t) :
      Transition c .internal
        { c with queue := (c.queue.enqueue t).2, pc := .requeue rest todo } []
  | requeueRefused {c rest t todo} (hpc : c.pc = .requeue rest (t :: todo))
      (hacc : ¬ c.queue.Accepts t) :
      Transition c .internal { c with pc := .requeue rest todo } [.requeueRefused t]
  | timeouts {c now} (hpc : c.pc = .timeouts) :
      Transition c (.timeouts now)
        { c with sched := (c.sched.checkTimeouts now).2, pc := .recv } []

variable {c c' : Coordinator} {l : Label} {es : List Event}

theorem transition_finishBatch {w : WorkerInfo} {rest : List WorkerInfo} {batch : List Task}
    (hpc : c.pc = .collect w rest batch) :
    Transition c .internal (c.finishBatch w rest batch) [] := by
  rw [finishBatch]
  split
  · next hnil =>
    rw [hnil] at hpc
    exact .collectNothing hpc
  · next hne => exact .collectDone hpc hne

theorem transition_collectStep {w : WorkerInfo} {rest : List WorkerInfo} {batch : List Task}
    (hpc : c.pc = .collect w rest batch) :
    Transition c .internal (c.collectStep w rest batch) [] := by
  rw [collectStep]
  split
  · next hlt =>
    rcases htasks : c.queue.tasks with - | ⟨t, ts⟩
    · rw [ValidQueue.dequeue_of_nil htasks]
      exact transition_finishBatch hpc
    · obtain ⟨hfst, -, -⟩ := ValidQueue.dequeue_of_cons htasks
      rw [show c.queue.dequeue = (some t, c.queue.dequeue.2) from Prod.ext hfst rfl]
      dsimp only
      split
      · next hcap => exact .collectTask hpc hlt hcap htasks
      · next hcap => exact .collectOverrun hpc hlt (Nat.le_of_not_lt hcap) htasks
  · exact transition_finishBatch hpc

theorem transition_of_internalStep (h : c.internalStep = some (c', es)) :
    Transition c .internal c' es := by
  rw [internalStep] at h
  split at h
  · next hpc => obtain ⟨rfl, rfl⟩ := h; exact .schedule hpc
  · next hpc => obtain ⟨rfl, rfl⟩ := h; exact .dispatchEnd hpc (.inl rfl)
  · next w rest hpc =>
    obtain ⟨rfl, rfl⟩ := h
    split
    · next hempty => exact .dispatchEnd hpc (.inr (ValidQueue.isEmpty_iff.1 hempty))
    · next hempty => exact .dispatchWorker hpc fun hnil => hempty (ValidQueue.isEmpty_iff.2 hnil)
  · next w rest batch hpc => obtain ⟨rfl, rfl⟩ := h; exact transition_collectStep hpc
  · next hpc => obtain ⟨rfl, rfl⟩ := h; exact .requeueDone hpc
  · next rest t todo hpc =>
    obtain ⟨rfl, rfl⟩ := h
    by_cases hacc : c.queue.Accepts t
    · rw [if_pos (ValidQueue.enqueue_of_accepts hacc).1]
      exact .requeueAccepted hpc hacc
    · obtain ⟨hrc, hq⟩ := ValidQueue.enqueue_of_not_accepts hacc
      rw [if_neg hrc, hq]
      exact .requeueRefused hpc hacc
  · exact absurd h nofun

/-- **Inversion of a step.** -/
theorem transition_of_step (h : c.step l = some (c', es)) : Transition c l c' es := by
  cases l with
  | enqueue t =>
    obtain ⟨rfl, rfl⟩ := h
    by_cases hacc : c.queue.Accepts t
    · rw [if_pos (ValidQueue.enqueue_of_accepts hacc).1]
      exact .enqueueAccepted hacc
    · obtain ⟨hrc, hq⟩ := ValidQueue.enqueue_of_not_accepts hacc
      rw [if_neg hrc, hq]
      exact .enqueueRefused hacc
  | recv msg now registeredAt =>
    rw [step] at h
    split at h
    · next hpc =>
      rcases msg with - | ⟨src, m⟩
      · obtain ⟨rfl, rfl⟩ := h; exact .recvNone hpc
      · obtain ⟨rfl, rfl⟩ := h; exact .recvMsg hpc
    · exact absurd h nofun
  | internal => exact transition_of_internalStep h
  | send ok clock =>
    rw [step] at h
    split at h
    · next hpc =>
      split at h
      · next hok => obtain ⟨rfl, rfl⟩ := h; exact hok ▸ .sendOk hpc
      · next hok =>
        obtain ⟨rfl, rfl⟩ := h
        obtain rfl : ok = false := Bool.eq_false_iff.2 hok
        exact .sendFail hpc
    · exact absurd h nofun
  | timeouts now =>
    rw [step] at h
    split at h
    · next hpc => obtain ⟨rfl, rfl⟩ := h; exact .timeouts hpc
    · exact absurd h nofun

end Coordinator

end DistributedComputing
