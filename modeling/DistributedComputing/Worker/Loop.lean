import DistributedComputing.Coordinator.Loop
import DistributedComputing.Foundations.Mailbox

/-!
# The worker's main loop

A model of `run_worker` in both of its modes, and of the MPI ranks of a cluster head. One iteration
of the loop sends a heartbeat if one is due, receives at most one batch into the local queue, and
takes one task out of it: a standalone worker executes it and sends the result; a cluster head hands
it to the next rank, and forwards the ranks' results in the iterations that find the queue empty.

The loop is one thread, so it is cut into steps only where it meets the outside (a message in or
out) and where a task turns into a result. The label of a step carries what the environment chooses:
the clock, the message that arrived, whether a send succeeded. The messages between the head and its
ranks are two `Mailbox`es, addressed by rank. MPI sends do not fail.

Executing a task is a placeholder in the source that sets the status to 0, in both modes.
`resource_limits_reserve_task` compares the number of running tasks with its limit; the memory and
CPU figures it does not read are left out.

`Transition` lists what a step can do, and what follows about workers is proved by cases on it.
Steps report events: a message put on the wire, a task refused by the local queue, a task executed,
a result whose send failed. Nothing reads them.
-/

namespace DistributedComputing

open Mailbox

/-- `worker_mode_t`. -/
inductive WorkerMode
  | standalone
  | clusterHead
  deriving DecidableEq, Repr

/-- Where the loop is. `sendResult` is the standalone send, after which the reservation is released;
`forward` is the send of a collected result. -/
inductive WorkerPc
  | register
  | heartbeat
  | recv
  | process
  | execute (task : Task)
  | sendResult (result : TaskResult)
  | collect
  | forward (result : TaskResult)
  deriving DecidableEq, Repr

/-- A worker process, with the messages in flight between it and its ranks. -/
structure Worker where
  id : UInt32
  mpiSize : ℕ
  queue : ValidQueue
  tasksRunning : ℕ := 0
  lastHeartbeat : Time := 0
  nextWorker : ℕ := 1
  toRanks : List (ℕ × Task) := []
  fromRanks : List (ℕ × TaskResult) := []
  pc : WorkerPc := .register

/-- What the environment chooses. -/
inductive WorkerLabel
  | register (ok : Bool) (now : Time)
  | heartbeat (now : Time) (ok : Bool)
  | recv (batch : Option (List Task))
  | process
  | execute
  | sendResult (ok : Bool)
  | collect (msg : Option (ℕ × TaskResult))
  | forward (ok : Bool)
  | rank (r : ℕ) (task : Task)
  deriving DecidableEq, Repr

/-- What the loop reports. -/
inductive WorkerEvent
  | sent (msg : Incoming)
  | refused (task : Task)
  | executed (task : Task)
  | resultLost (result : TaskResult)
  deriving DecidableEq, Repr

/-- `execute_task_standalone`, and what a rank does with a task. -/
def executeTask (task : Task) : TaskResult := ⟨task.taskId, 0⟩

/-- A batch goes into the local queue task by task, return codes ignored. The second component are
the tasks that were refused. -/
def ValidQueue.enqueueAll (q : ValidQueue) : List Task → ValidQueue × List Task
  | [] => (q, [])
  | t :: batch =>
    let (q', refused) := ValidQueue.enqueueAll (q.enqueue t).2 batch
    (q', if (q.enqueue t).1 = 0 then refused else t :: refused)

namespace Worker

/-- `queue_config` of `run_worker`. -/
def queueConfig : TaskQueueConfig := ⟨1000, false⟩

/-- `max_concurrent_tasks` of `run_worker`. -/
def maxConcurrentTasks : ℕ := 8

/-- A worker that is about to register, with `mpiSize` MPI processes (itself included). -/
def create (id : UInt32) (mpiSize : ℕ) : Worker where
  id := id
  mpiSize := mpiSize
  queue := .create queueConfig

/-- The mode, as `main` determines it. -/
def mode (w : Worker) : WorkerMode := if 1 < w.mpiSize then .clusterHead else .standalone

/-- `WORKER_CAP_MPI_CLUSTER`. -/
def capMpiCluster : UInt32 := (1 : UInt32) <<< 0

/-- The payload of the registration. -/
def registration (w : Worker) : Capabilities :=
  match w.mode with
  | .standalone => ⟨1, 10, 0⟩
  | .clusterHead => ⟨.ofNat w.mpiSize, .ofNat (w.mpiSize * 5), capMpiCluster⟩

/-- A send whose return code is ignored. -/
def sendEvents (ok : Bool) (msg : Incoming) : List WorkerEvent := if ok then [.sent msg] else []

/-- `send_result`, its return code ignored. -/
def resultEvents (ok : Bool) (result : TaskResult) : List WorkerEvent :=
  if ok then [.sent (.result (some result))] else [.resultLost result]

/-- A task is taken out of the local queue. Without a reservation it goes back in; the cluster head
hands it to the next rank and releases the reservation; the standalone worker keeps both. -/
def processStep (w : Worker) : Worker × List WorkerEvent :=
  match w.queue.dequeue with
  | (none, _) =>
    ({ w with pc := if w.mode = .clusterHead then .collect else .heartbeat }, [])
  | (some t, queue) =>
    if maxConcurrentTasks ≤ w.tasksRunning then
      ({ w with queue := (queue.enqueue t).2, pc := .heartbeat },
        if (queue.enqueue t).1 = 0 then [] else [.refused t])
    else
      match w.mode with
      | .clusterHead =>
        ({ w with
          queue
          toRanks := w.toRanks ++ [(w.nextWorker, t)]
          nextWorker := w.nextWorker % (w.mpiSize - 1) + 1
          pc := .heartbeat }, [])
      | .standalone =>
        ({ w with queue, tasksRunning := w.tasksRunning + 1, pc := .execute t }, [])

/-- The top of the loop: a heartbeat every ten seconds. -/
def heartbeatStep (w : Worker) (now : Time) (ok : Bool) : Worker × List WorkerEvent :=
  if 10 ≤ now - w.lastHeartbeat then
    ({ w with lastHeartbeat := now, pc := .recv }, sendEvents ok .heartbeat)
  else ({ w with pc := .recv }, [])

/-- The batch, if one arrived, goes into the local queue. -/
def recvStep (w : Worker) (batch : List Task) : Worker × List WorkerEvent :=
  ({ w with queue := (w.queue.enqueueAll batch).1, pc := .process },
    (w.queue.enqueueAll batch).2.map .refused)

/-- One step, with what it reports. -/
def step (w : Worker) : WorkerLabel → Option (Worker × List WorkerEvent)
  | .register ok now =>
    match w.pc with
    | .register =>
      some ({ w with lastHeartbeat := now, pc := .heartbeat },
        sendEvents ok (.register (some w.registration)))
    | _ => none
  | .heartbeat now ok =>
    match w.pc with
    | .heartbeat => some (w.heartbeatStep now ok)
    | _ => none
  | .recv batch =>
    match w.pc with
    | .recv => some (w.recvStep (batch.getD []))
    | _ => none
  | .process =>
    match w.pc with
    | .process => some w.processStep
    | _ => none
  | .execute =>
    match w.pc with
    | .execute t => some ({ w with pc := .sendResult (executeTask t) }, [.executed t])
    | _ => none
  | .sendResult ok =>
    match w.pc with
    | .sendResult r =>
      some ({ w with tasksRunning := w.tasksRunning - 1, pc := .heartbeat }, resultEvents ok r)
    | _ => none
  | .collect none =>
    match w.pc with
    | .collect => some ({ w with pc := .heartbeat }, [])
    | _ => none
  | .collect (some (r, result)) =>
    match w.pc with
    | .collect =>
      (deliver r result w.fromRanks).map fun rest =>
        ({ w with fromRanks := rest, pc := .forward result }, [])
    | _ => none
  | .forward ok =>
    match w.pc with
    | .forward r => some ({ w with pc := .collect }, resultEvents ok r)
    | _ => none
  | .rank r task =>
    if 0 < r ∧ r < w.mpiSize then
      (deliver r task w.toRanks).map fun rest =>
        ({ w with toRanks := rest, fromRanks := w.fromRanks ++ [(r, executeTask task)] },
          [.executed task])
    else none

/-! ### What a step can do -/

/-- Every way in which a step can go. -/
inductive Transition : Worker → WorkerLabel → Worker → List WorkerEvent → Prop
  | register {w ok now} (hpc : w.pc = .register) :
      Transition w (.register ok now) { w with lastHeartbeat := now, pc := .heartbeat }
        (sendEvents ok (.register (some w.registration)))
  | heartbeatDue {w now ok} (hpc : w.pc = .heartbeat) :
      Transition w (.heartbeat now ok) { w with lastHeartbeat := now, pc := .recv }
        (sendEvents ok .heartbeat)
  | heartbeatNotDue {w now ok} (hpc : w.pc = .heartbeat) :
      Transition w (.heartbeat now ok) { w with pc := .recv } []
  | recv {w batch} (hpc : w.pc = .recv) :
      Transition w (.recv batch)
        { w with queue := (w.queue.enqueueAll (batch.getD [])).1, pc := .process }
        ((w.queue.enqueueAll (batch.getD [])).2.map .refused)
  | processNothing {w pc} (hpc : w.pc = .process) (hnext : pc = .collect ∨ pc = .heartbeat) :
      Transition w .process { w with pc } []
  | processNoRoom {w t ts} (hpc : w.pc = .process) (htasks : w.queue.tasks = t :: ts)
      (hfull : maxConcurrentTasks ≤ w.tasksRunning) :
      Transition w .process
        { w with queue := (w.queue.dequeue.2.enqueue t).2, pc := .heartbeat }
        (if (w.queue.dequeue.2.enqueue t).1 = 0 then [] else [.refused t])
  | processRank {w t ts} (hpc : w.pc = .process) (htasks : w.queue.tasks = t :: ts) :
      Transition w .process
        { w with
          queue := w.queue.dequeue.2
          toRanks := w.toRanks ++ [(w.nextWorker, t)]
          nextWorker := w.nextWorker % (w.mpiSize - 1) + 1
          pc := .heartbeat } []
  | processExecute {w t ts} (hpc : w.pc = .process) (htasks : w.queue.tasks = t :: ts) :
      Transition w .process
        { w with
          queue := w.queue.dequeue.2
          tasksRunning := w.tasksRunning + 1
          pc := .execute t } []
  | execute {w t} (hpc : w.pc = .execute t) :
      Transition w .execute { w with pc := .sendResult (executeTask t) } [.executed t]
  | sendResult {w r ok} (hpc : w.pc = .sendResult r) :
      Transition w (.sendResult ok) { w with tasksRunning := w.tasksRunning - 1, pc := .heartbeat }
        (resultEvents ok r)
  | collectNothing {w} (hpc : w.pc = .collect) :
      Transition w (.collect none) { w with pc := .heartbeat } []
  | collect {w r result rest} (hpc : w.pc = .collect)
      (hmsg : deliver r result w.fromRanks = some rest) :
      Transition w (.collect (some (r, result)))
        { w with fromRanks := rest, pc := .forward result } []
  | forward {w r ok} (hpc : w.pc = .forward r) :
      Transition w (.forward ok) { w with pc := .collect } (resultEvents ok r)
  | rank {w r t rest} (hmsg : deliver r t w.toRanks = some rest) :
      Transition w (.rank r t)
        { w with toRanks := rest, fromRanks := w.fromRanks ++ [(r, executeTask t)] } [.executed t]

variable {w w' : Worker} {l : WorkerLabel} {es : List WorkerEvent}

theorem transition_processStep (hpc : w.pc = .process) :
    Transition w .process w.processStep.1 w.processStep.2 := by
  rw [processStep]
  rcases htasks : w.queue.tasks with - | ⟨t, ts⟩
  · rw [ValidQueue.dequeue_of_nil htasks]
    refine .processNothing hpc ?_
    split
    · exact .inl rfl
    · exact .inr rfl
  · have hdeq : w.queue.dequeue = (some t, w.queue.dequeue.2) :=
      Prod.ext (ValidQueue.dequeue_of_cons htasks).1 rfl
    rw [hdeq]
    dsimp only
    split
    · next hfull => exact .processNoRoom hpc htasks hfull
    · split
      · exact .processRank hpc htasks
      · exact .processExecute hpc htasks

/-- **Inversion of a step.** -/
theorem transition_of_step (h : w.step l = some (w', es)) : Transition w l w' es := by
  cases l with
  | register ok now =>
    rw [step] at h
    split at h
    · next hpc => obtain ⟨rfl, rfl⟩ := h; exact .register hpc
    · exact absurd h nofun
  | heartbeat now ok =>
    rw [step] at h
    split at h
    · next hpc =>
      rw [heartbeatStep] at h
      split at h
      · obtain ⟨rfl, rfl⟩ := h; exact .heartbeatDue hpc
      · obtain ⟨rfl, rfl⟩ := h; exact .heartbeatNotDue hpc
    · exact absurd h nofun
  | recv batch =>
    rw [step] at h
    split at h
    · next hpc => obtain ⟨rfl, rfl⟩ := h; exact .recv hpc
    · exact absurd h nofun
  | process =>
    rw [step] at h
    split at h
    · next hpc =>
      have hproc := transition_processStep hpc
      rwa [Option.some.inj h] at hproc
    · exact absurd h nofun
  | execute =>
    rw [step] at h
    split at h
    · next hpc => obtain ⟨rfl, rfl⟩ := h; exact .execute hpc
    · exact absurd h nofun
  | sendResult ok =>
    rw [step] at h
    split at h
    · next hpc => obtain ⟨rfl, rfl⟩ := h; exact .sendResult hpc
    · exact absurd h nofun
  | collect msg =>
    rcases msg with - | ⟨r, result⟩
    · rw [step] at h
      split at h
      · next hpc => obtain ⟨rfl, rfl⟩ := h; exact .collectNothing hpc
      · exact absurd h nofun
    · rw [step] at h
      split at h
      · next hpc =>
        obtain ⟨rest, hmsg, hrest⟩ := Option.map_eq_some_iff.1 h
        obtain ⟨rfl, rfl⟩ := hrest
        exact .collect hpc hmsg
      · exact absurd h nofun
  | forward ok =>
    rw [step] at h
    split at h
    · next hpc => obtain ⟨rfl, rfl⟩ := h; exact .forward hpc
    · exact absurd h nofun
  | rank r t =>
    rw [step] at h
    split at h
    · obtain ⟨rest, hmsg, hrest⟩ := Option.map_eq_some_iff.1 h
      obtain ⟨rfl, rfl⟩ := hrest
      exact .rank hmsg
    · exact absurd h nofun

end Worker

end DistributedComputing
