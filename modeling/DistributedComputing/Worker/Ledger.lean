import DistributedComputing.Worker.Loop

/-!
# What a worker holds

A worker holds tasks (in its queue, in execution, on the way to a rank) and results (about to be
sent, on the way back from a rank). One step of the worker moves them along or reports what became
of them: `step_tasks` and `step_results` balance what is held before and after against what was
received, executed, refused, sent and lost. Both are equations between counts, so they compose along
runs and across workers.

The reservation never fails here, as the loop runs one task at a time (`ReserveInv`), so the local
queue can only refuse a task when a batch arrives.
-/

namespace DistributedComputing

open Mailbox

/-! ### Reading events and labels -/

/-- The tasks executed. -/
def executedTasks (es : List WorkerEvent) : List Task :=
  es.flatMap fun
    | .executed t => [t]
    | _ => []

/-- The tasks refused by the local queue. -/
def locallyRefused (es : List WorkerEvent) : List Task :=
  es.flatMap fun
    | .refused t => [t]
    | _ => []

/-- The messages put on the wire. -/
def sentMessages (es : List WorkerEvent) : List Incoming :=
  es.flatMap fun
    | .sent m => [m]
    | _ => []

/-- The results whose send failed. -/
def lostResults (es : List WorkerEvent) : List TaskResult :=
  es.flatMap fun
    | .resultLost r => [r]
    | _ => []

/-- The result a message carries. -/
def Incoming.results : Incoming → List TaskResult
  | .result (some r) => [r]
  | _ => []

/-- The batch a step receives. -/
def WorkerLabel.received : WorkerLabel → List Task
  | .recv (some batch) => batch
  | _ => []

/-- The task in execution. -/
def WorkerPc.tasks : WorkerPc → List Task
  | .execute t => [t]
  | _ => []

/-- The number of reservations at a point of the loop. -/
def WorkerPc.reserved : WorkerPc → ℕ
  | .execute _ => 1
  | .sendResult _ => 1
  | _ => 0

/-- The result about to be sent. -/
def WorkerPc.results : WorkerPc → List TaskResult
  | .sendResult r => [r]
  | .forward r => [r]
  | _ => []

/-- **A batch into the local queue**: what is not queued afterwards was refused. -/
theorem ValidQueue.count_enqueueAll (q : ValidQueue) (batch : List Task) (t : Task) :
    (q.enqueueAll batch).1.tasks.count t + (q.enqueueAll batch).2.count t =
      q.tasks.count t + batch.count t := by
  induction batch generalizing q with
  | nil => rfl
  | cons u batch ih =>
    have hrest := ih (q.enqueue u).2
    rw [ValidQueue.enqueueAll]
    dsimp only
    rw [List.count_cons]
    -- the worker only logs what its queue refuses
    by_cases hacc : q.Accepts u
    · rw [if_pos (ValidQueue.enqueue_of_accepts hacc).1]
      rw [ValidQueue.count_enqueue hacc, List.count_singleton] at hrest
      omega
    · obtain ⟨hrc, hq⟩ := ValidQueue.enqueue_of_not_accepts hacc
      rw [if_neg hrc, List.count_cons]
      rw [hq] at hrest ⊢
      omega

theorem ValidQueue.length_enqueueAll (q : ValidQueue) (batch : List Task) :
    (q.enqueueAll batch).1.tasks.length + (q.enqueueAll batch).2.length =
      q.tasks.length + batch.length := by
  have hperm : ((q.enqueueAll batch).1.tasks ++ (q.enqueueAll batch).2).Perm (q.tasks ++ batch) :=
    List.perm_iff_count.2 fun t => by
      rw [List.count_append, List.count_append, q.count_enqueueAll]
  have hlength := hperm.length_eq
  rwa [List.length_append, List.length_append] at hlength

theorem ValidQueue.length_refused_le (q : ValidQueue) (batch : List Task) :
    (q.enqueueAll batch).2.length ≤ batch.length := by
  induction batch generalizing q with
  | nil => exact Nat.le_refl _
  | cons t batch ih =>
    rw [ValidQueue.enqueueAll]
    dsimp only
    split
    · exact (ih _).trans (Nat.le_succ _)
    · exact Nat.succ_le_succ (ih _)

namespace Worker

/-- The tasks a worker holds. -/
def heldTasks (w : Worker) : List Task := w.queue.tasks ++ w.pc.tasks ++ w.toRanks.map Prod.snd

/-- The results a worker holds. -/
def heldResults (w : Worker) : List TaskResult := w.pc.results ++ w.fromRanks.map Prod.snd

/-- A step moves tasks along. -/
def TasksBalance (w : Worker) (l : WorkerLabel) (w' : Worker) (es : List WorkerEvent) : Prop :=
  ∀ t, w'.heldTasks.count t + (executedTasks es).count t + (locallyRefused es).count t =
    w.heldTasks.count t + l.received.count t

/-- A step moves results along. -/
def ResultsBalance (w w' : Worker) (es : List WorkerEvent) : Prop :=
  ∀ r, w'.heldResults.count r + ((sentMessages es).flatMap Incoming.results).count r +
      (lostResults es).count r =
    w.heldResults.count r + ((executedTasks es).map executeTask).count r

/-- The reservations in order: one while a standalone worker executes and sends, none otherwise. -/
def ReserveInv (w : Worker) : Prop := w.tasksRunning = w.pc.reserved

theorem reserveInv_create (id : UInt32) (mpiSize : ℕ) : (create id mpiSize).ReserveInv := rfl

variable {w w' : Worker} {l : WorkerLabel} {es : List WorkerEvent}

theorem ReserveInv.of_pc {pc : WorkerPc} (h : w.ReserveInv) (hpc : w.pc = pc) :
    w.tasksRunning = pc.reserved := by
  rw [← hpc]
  exact h

/-- **Every step keeps the reservations in order.** -/
theorem ReserveInv.step (h : w.ReserveInv) (hs : Transition w l w' es) : w'.ReserveInv := by
  cases hs with
  | register hpc | heartbeatDue hpc | heartbeatNotDue hpc | recv hpc | processNoRoom hpc
  | processRank hpc | execute hpc | collectNothing hpc | collect hpc | forward hpc =>
    have hrun := h.of_pc hpc
    exact hrun
  | processNothing hpc hnext =>
    have hrun := h.of_pc hpc
    rcases hnext with rfl | rfl <;> exact hrun
  | processExecute hpc => exact congrArg (· + 1) (h.of_pc hpc)
  | sendResult hpc => exact congrArg (· - 1) (h.of_pc hpc)
  | rank => exact h

/-! ### One step -/

theorem count_heldTasks (w : Worker) (t : Task) :
    w.heldTasks.count t =
      w.queue.tasks.count t + w.pc.tasks.count t + (w.toRanks.map Prod.snd).count t := by
  rw [heldTasks, List.count_append, List.count_append]

theorem count_heldResults (w : Worker) (r : TaskResult) :
    w.heldResults.count r = w.pc.results.count r + (w.fromRanks.map Prod.snd).count r := by
  rw [heldResults, List.count_append]

@[simp] theorem tasks_sendEvents (ok : Bool) (m : Incoming) :
    executedTasks (sendEvents ok m) = [] ∧ locallyRefused (sendEvents ok m) = [] := by
  cases ok <;> exact ⟨rfl, rfl⟩

@[simp] theorem tasks_resultEvents (ok : Bool) (r : TaskResult) :
    executedTasks (resultEvents ok r) = [] ∧ locallyRefused (resultEvents ok r) = [] := by
  cases ok <;> exact ⟨rfl, rfl⟩

@[simp] theorem tasks_refused (ts : List Task) :
    executedTasks (ts.map .refused) = [] ∧ locallyRefused (ts.map .refused) = ts := by
  constructor
  · simp [executedTasks]
  · simp [locallyRefused, List.flatMap_map]

/-- **Tasks** move along, are executed or refused. -/
theorem ReserveInv.step_tasks (h : w.ReserveInv) (hs : Transition w l w' es) :
    TasksBalance w l w' es := by
  intro t
  rw [count_heldTasks, count_heldTasks]
  cases hs with
  | register hpc | heartbeatDue hpc | sendResult hpc | forward hpc =>
    rw [hpc]
    simp [WorkerPc.tasks, WorkerLabel.received]
  | heartbeatNotDue hpc | collectNothing hpc | collect hpc =>
    rw [hpc]
    rfl
  | @recv batch hpc =>
    have hq := w.queue.count_enqueueAll (batch.getD []) t
    have hrecv : (WorkerLabel.recv batch).received = batch.getD [] := by cases batch <;> rfl
    rw [hpc, hrecv]
    simp only [tasks_refused, WorkerPc.tasks, List.count_nil]
    omega
  | processNothing hpc hnext =>
    rw [hpc]
    rcases hnext with rfl | rfl <;> rfl
  | processNoRoom hpc _ hfull =>
    -- nothing is running at this point, so there is room
    rw [h.of_pc hpc] at hfull
    exact absurd hfull (by decide)
  | processRank hpc htasks =>
    have hq := ValidQueue.count_dequeue htasks t
    rw [hpc]
    simp only [List.map_append, List.map_cons, List.map_nil, List.count_append, WorkerPc.tasks,
      executedTasks, locallyRefused, WorkerLabel.received, List.flatMap_nil, List.count_nil]
    omega
  | processExecute hpc htasks =>
    have hq := ValidQueue.count_dequeue htasks t
    rw [hpc]
    simp only [WorkerPc.tasks, executedTasks, locallyRefused, WorkerLabel.received,
      List.flatMap_nil, List.count_nil]
    omega
  | execute hpc =>
    rw [hpc]
    simp only [WorkerPc.tasks, executedTasks, locallyRefused, WorkerLabel.received,
      List.flatMap_cons, List.flatMap_nil, List.append_nil, List.count_nil]
    omega
  | rank hmsg =>
    have hmail := count_deliver hmsg t
    simp only [executedTasks, locallyRefused, WorkerLabel.received, List.flatMap_cons,
      List.flatMap_nil, List.append_nil, List.count_nil]
    omega

@[simp] theorem results_sendEvents_register (ok : Bool) (caps : Option Capabilities) :
    (sentMessages (sendEvents ok (.register caps))).flatMap Incoming.results = [] := by
  cases ok <;> rfl

@[simp] theorem results_sendEvents_heartbeat (ok : Bool) :
    (sentMessages (sendEvents ok .heartbeat)).flatMap Incoming.results = [] := by
  cases ok <;> rfl

@[simp] theorem lostResults_sendEvents (ok : Bool) (m : Incoming) :
    lostResults (sendEvents ok m) = [] := by
  cases ok <;> rfl

/-- A result that is not sent is lost. -/
theorem count_resultEvents (ok : Bool) (r u : TaskResult) :
    ((sentMessages (resultEvents ok r)).flatMap Incoming.results).count u +
      (lostResults (resultEvents ok r)).count u = [r].count u := by
  cases ok
  · exact Nat.zero_add _
  · rfl

@[simp] theorem results_refused (ts : List Task) :
    sentMessages (ts.map .refused) = [] ∧ lostResults (ts.map .refused) = [] := by
  constructor
  · simp [sentMessages]
  · simp [lostResults]

/-- **Results** come from executed tasks, move along, are sent or lost. -/
theorem ReserveInv.step_results (h : w.ReserveInv) (hs : Transition w l w' es) :
    ResultsBalance w w' es := by
  intro u
  rw [count_heldResults, count_heldResults]
  cases hs with
  | register hpc | heartbeatDue hpc =>
    rw [hpc]
    simp [WorkerPc.results]
  | heartbeatNotDue hpc | processRank hpc | processExecute hpc | collectNothing hpc =>
    rw [hpc]
    rfl
  | recv hpc =>
    rw [hpc]
    simp [WorkerPc.results]
  | processNothing hpc hnext =>
    rw [hpc]
    rcases hnext with rfl | rfl <;> rfl
  | processNoRoom hpc _ hfull =>
    rw [h.of_pc hpc] at hfull
    exact absurd hfull (by decide)
  | execute hpc =>
    rw [hpc]
    simp only [WorkerPc.results, executedTasks, sentMessages, lostResults, List.flatMap_cons,
      List.flatMap_nil, List.append_nil, List.map_cons, List.map_nil, List.count_nil]
    omega
  | @sendResult r ok hpc | @forward r ok hpc =>
    have hsend := count_resultEvents ok r u
    rw [hpc, (tasks_resultEvents ok r).1]
    simp only [WorkerPc.results, List.map_nil, List.count_nil]
    omega
  | collect hpc hmsg =>
    have hmail := count_deliver hmsg u
    rw [hpc]
    simp only [WorkerPc.results, executedTasks, sentMessages, lostResults, List.flatMap_nil,
      List.map_nil, List.count_nil]
    omega
  | rank hmsg =>
    simp only [executedTasks, sentMessages, lostResults, List.flatMap_cons, List.flatMap_nil,
      List.append_nil, List.map_cons, List.map_nil, List.map_append, List.count_append,
      List.count_nil]
    omega

end Worker

end DistributedComputing
