import DistributedComputing.Coordinator.Conservation
import DistributedComputing.Worker.Ledger

/-!
# The coordinator, its workers and the messages between them

The whole system: one coordinator, any list of workers, the batches in flight to each worker and the
messages in flight from each. A step is a step of the coordinator or of one worker; a step that
receives a message is enabled only if that message is the next one in flight to it, and what a step
reports as sent is in flight afterwards. Messages from different workers arrive in any order.

`Balanced` is what every step preserves, whatever happens: it follows each task from its acceptance
to the processing of its result, through the coordinator, the network and the workers, and has one
entry for every way of losing it on the way. It is assembled from the coordinator's `Conserved` and
the balances of a worker's step.
-/

namespace DistributedComputing

open KeyedTable StepRun Mailbox

/-- The state of the system. `down` is addressed by the receiving worker, `up` by the sending one.
-/
structure System where
  coordinator : Coordinator
  workers : List Worker
  down : List (UInt32 × List Task) := []
  up : List (UInt32 × Incoming) := []

/-- Whose step it is. -/
inductive SystemLabel
  | coordinator (label : Label)
  | worker (id : UInt32) (label : WorkerLabel)

/-- What the parties report. -/
inductive SystemEvent
  | coordinator (event : Event)
  | worker (id : UInt32) (event : WorkerEvent)
  deriving DecidableEq

/-- The batches a step of the coordinator puts on the wire. -/
def sentBatches (es : List Event) : List (UInt32 × List Task) :=
  es.flatMap fun
    | .sent workerId batch => [(workerId, batch)]
    | _ => []

/-- The results that were processed. -/
def processedResults (es : List Event) : List TaskResult :=
  es.flatMap fun
    | .resulted _ result _ => [result]
    | _ => []

/-- The events of the coordinator. -/
def coordinatorLog (log : List SystemEvent) : List Event :=
  log.flatMap fun
    | .coordinator e => [e]
    | .worker _ _ => []

/-- The events of all workers. -/
def workerLog (log : List SystemEvent) : List WorkerEvent :=
  log.flatMap fun
    | .coordinator _ => []
    | .worker _ e => [e]

namespace System

/-- The system at the start, with any workers. -/
def init (workers : List (UInt32 × ℕ)) : System where
  coordinator := .init
  workers := workers.map fun w => .create w.1 w.2

/-- The messages left to the coordinator by its step. -/
def upAfter (up : List (UInt32 × Incoming)) : Label → Option (List (UInt32 × Incoming))
  | .recv (some (src, m)) _ _ => deliver src m up
  | _ => some up

/-- The batches left to worker `i` by its step. -/
def downAfter (i : UInt32) (down : List (UInt32 × List Task)) :
    WorkerLabel → Option (List (UInt32 × List Task))
  | .recv (some batch) => deliver i batch down
  | _ => some down

/-- One step, with what it reports. -/
def step (s : System) : SystemLabel → Option (System × List SystemEvent)
  | .coordinator l =>
    (upAfter s.up l).bind fun up =>
      (s.coordinator.step l).map fun (c, es) =>
        ({ s with coordinator := c, up, down := s.down ++ sentBatches es }, es.map .coordinator)
  | .worker i l =>
    (lookup Worker.id i s.workers).bind fun w =>
      (downAfter i s.down l).bind fun down =>
        (w.step l).map fun (w', es) =>
          ({ s with
            workers := update Worker.id i (fun _ => w') s.workers
            down
            up := s.up ++ (sentMessages es).map (i, ·) }, es.map (.worker i))

/-- Every way in which a step of the system can go. -/
inductive Transition : System → SystemLabel → System → List SystemEvent → Prop
  | coordinator {s l c up es} (hup : upAfter s.up l = some up)
      (hstep : Coordinator.Transition s.coordinator l c es) :
      Transition s (.coordinator l)
        { s with coordinator := c, up, down := s.down ++ sentBatches es } (es.map .coordinator)
  | worker {s i l w w' down es} (hw : lookup Worker.id i s.workers = some w)
      (hdown : downAfter i s.down l = some down) (hstep : Worker.Transition w l w' es) :
      Transition s (.worker i l)
        { s with
          workers := update Worker.id i (fun _ => w') s.workers
          down
          up := s.up ++ (sentMessages es).map (i, ·) } (es.map (.worker i))

variable {s s' : System} {l : SystemLabel} {es log : List SystemEvent}

/-- **Inversion of a step.** -/
theorem transition_of_step (h : s.step l = some (s', es)) : Transition s l s' es := by
  cases l with
  | coordinator l =>
    obtain ⟨up, hup, h⟩ := Option.bind_eq_some_iff.1 h
    obtain ⟨⟨c, es⟩, hstep, hs⟩ := Option.map_eq_some_iff.1 h
    obtain ⟨rfl, rfl⟩ := hs
    exact .coordinator hup (Coordinator.transition_of_step hstep)
  | worker i l =>
    obtain ⟨w, hw, h⟩ := Option.bind_eq_some_iff.1 h
    obtain ⟨down, hdown, h⟩ := Option.bind_eq_some_iff.1 h
    obtain ⟨⟨w', es⟩, hstep, hs⟩ := Option.map_eq_some_iff.1 h
    obtain ⟨rfl, rfl⟩ := hs
    exact .worker hw hdown (Worker.transition_of_step hstep)

/-! ### Reading the logs -/

@[simp] theorem coordinatorLog_append (log log' : List SystemEvent) :
    coordinatorLog (log ++ log') = coordinatorLog log ++ coordinatorLog log' :=
  List.flatMap_append

@[simp] theorem workerLog_append (log log' : List SystemEvent) :
    workerLog (log ++ log') = workerLog log ++ workerLog log' :=
  List.flatMap_append

@[simp] theorem coordinatorLog_map_coordinator (es : List Event) :
    coordinatorLog (es.map .coordinator) = es := by
  simp [coordinatorLog, List.flatMap_map]

@[simp] theorem workerLog_map_coordinator (es : List Event) :
    workerLog (es.map .coordinator) = [] := by
  simp [workerLog]

@[simp] theorem coordinatorLog_map_worker (i : UInt32) (es : List WorkerEvent) :
    coordinatorLog (es.map (.worker i)) = [] := by
  simp [coordinatorLog]

@[simp] theorem workerLog_map_worker (i : UInt32) (es : List WorkerEvent) :
    workerLog (es.map (.worker i)) = es := by
  simp [workerLog, List.flatMap_map]

@[simp] theorem flatMap_sentBatches (es : List Event) :
    (sentBatches es).flatMap Prod.snd = sentTasks es := by
  rw [sentBatches, List.flatMap_assoc, sentTasks]
  congr 1
  funext e
  cases e <;> simp

@[simp] theorem flatMap_results_up (i : UInt32) (ms : List Incoming) :
    ((ms.map (i, ·)).flatMap fun m => m.2.results) = ms.flatMap Incoming.results := by
  rw [List.flatMap_map]

/-! ### Where tasks and results are -/

/-- The tasks in flight to workers. -/
def tasksInFlight (s : System) : List Task := s.down.flatMap Prod.snd

/-- The tasks held by workers. -/
def tasksHeld (s : System) : List Task := s.workers.flatMap Worker.heldTasks

/-- The results held by workers. -/
def resultsHeld (s : System) : List TaskResult := s.workers.flatMap Worker.heldResults

/-- The results in flight to the coordinator. -/
def resultsInFlight (s : System) : List TaskResult := s.up.flatMap fun m => m.2.results

/-- A step of the coordinator processes the results it receives. -/
theorem count_upAfter {c c' : Coordinator} {l : Label} {es : List Event}
    {up up' : List (UInt32 × Incoming)} (hup : upAfter up l = some up')
    (hs : Coordinator.Transition c l c' es) (r : TaskResult) :
    (up.flatMap fun m => m.2.results).count r =
      (up'.flatMap fun m => m.2.results).count r + (processedResults es).count r := by
  have hother : ∀ {es : List Event}, processedResults es = [] → some up = some up' →
      (up.flatMap fun m => m.2.results).count r =
        (up'.flatMap fun m => m.2.results).count r + (processedResults es).count r := by
    intro es hes heq
    rw [hes, Option.some.inj heq]
    rfl
  cases hs with
  | @recvMsg src m now registeredAt =>
    have hmail := count_flatMap_deliver Incoming.results hup r
    have hres : processedResults (c.sched.handle src now registeredAt m).2 = m.results := by
      rcases m with caps | - | (- | r) | - <;> rfl
    rw [hres]
    omega
  | _ => exact hother rfl hup

theorem count_downAfter {i : UInt32} {l : WorkerLabel} {down down' : List (UInt32 × List Task)}
    (hdown : downAfter i down l = some down') (t : Task) :
    (down.flatMap Prod.snd).count t = (down'.flatMap Prod.snd).count t + l.received.count t := by
  cases l with
  | recv batch =>
    rcases batch with _ | batch
    · rw [Option.some.inj hdown]
      rfl
    · have hmail := count_flatMap_deliver id hdown t
      exact hmail.trans (Nat.add_comm _ _)
  | _ =>
    rw [Option.some.inj hdown]
    rfl

/-- **The books of the system.** Every task accepted is queued, in hand, sent, or was refused on the
way back into the queue. Every task sent is in flight, held by a worker, executed, or was refused by
a local queue. Every executed task's result is held by a worker, in flight, processed, or was lost
in a failed send. -/
structure Balanced (s : System) (log : List SystemEvent) : Prop where
  accepted : s.coordinator.Conserved (coordinatorLog log)
  sent : ∀ t, (sentTasks (coordinatorLog log)).count t =
    s.tasksInFlight.count t + s.tasksHeld.count t + (executedTasks (workerLog log)).count t +
      (locallyRefused (workerLog log)).count t
  executed : ∀ r, ((executedTasks (workerLog log)).map executeTask).count r =
    s.resultsHeld.count r + s.resultsInFlight.count r +
      (processedResults (coordinatorLog log)).count r + (lostResults (workerLog log)).count r

/-- What the parties keep for themselves, as long as registered batch sizes fit. -/
structure LocalInv (s : System) : Prop where
  coordinator : s.coordinator.BatchesFit
  workers : ∀ w ∈ s.workers, w.ReserveInv

theorem localInv_init (workers : List (UInt32 × ℕ)) : (init workers).LocalInv where
  coordinator := Coordinator.batchesFit_init
  workers := by
    intro w hw
    obtain ⟨p, -, rfl⟩ := List.mem_map.1 hw
    exact Worker.reserveInv_create p.1 p.2

theorem flatMap_init {β : Type*} {workers : List (UInt32 × ℕ)} {f : Worker → List β}
    (hf : ∀ id mpiSize, f (.create id mpiSize) = []) : (init workers).workers.flatMap f = [] := by
  refine List.flatMap_eq_nil_iff.2 fun w hw => ?_
  obtain ⟨p, -, rfl⟩ := List.mem_map.1 hw
  exact hf p.1 p.2

theorem balanced_init (workers : List (UInt32 × ℕ)) : (init workers).Balanced [] where
  accepted := Coordinator.conserved_init
  sent := by
    intro t
    have hheld : (init workers).tasksHeld = [] := flatMap_init fun _ _ => rfl
    rw [hheld]
    rfl
  executed := by
    intro r
    have hheld : (init workers).resultsHeld = [] := flatMap_init fun _ _ => rfl
    rw [hheld]
    rfl

/-- The registrations a step receives fit. -/
def RegistersFit : SystemLabel → Prop
  | .coordinator l => Coordinator.RegistersFit l
  | .worker _ _ => True

theorem LocalInv.step (h : s.LocalInv) (hl : RegistersFit l) (hs : Transition s l s' es) :
    s'.LocalInv := by
  cases hs with
  | coordinator _ hstep => exact ⟨h.coordinator.step hl hstep, h.workers⟩
  | worker hw _ hstep =>
    refine ⟨h.coordinator, forall_mem_update h.workers fun w hlook => ?_⟩
    exact (h.workers _ (mem_of_lookup hw)).step hstep

/-- **The books stay balanced.** -/
theorem Balanced.step (h : s.Balanced log) (hi : s.LocalInv) (hl : RegistersFit l)
    (hs : Transition s l s' es) : s'.Balanced (log ++ es) := by
  have hi' := hi.step hl hs
  cases hs with
  | @coordinator l c up es hup hstep =>
    constructor
    · rw [coordinatorLog_append, coordinatorLog_map_coordinator]
      exact h.accepted.step hstep hi'.coordinator.pc_ne
    · intro t
      have ht := h.sent t
      simp only [coordinatorLog_append, coordinatorLog_map_coordinator, workerLog_append,
        workerLog_map_coordinator, List.append_nil, sentTasks_append, List.count_append,
        tasksInFlight, List.flatMap_append, flatMap_sentBatches, tasksHeld] at ht ⊢
      omega
    · intro r
      have hr := h.executed r
      have hmail := count_upAfter hup hstep r
      simp only [coordinatorLog_append, coordinatorLog_map_coordinator, workerLog_append,
        workerLog_map_coordinator, List.append_nil, processedResults, List.flatMap_append,
        List.count_append, resultsInFlight, resultsHeld] at hr hmail ⊢
      omega
  | @worker i l w w' down es hw hdown hstep =>
    have hres := hi.workers w (mem_of_lookup hw)
    constructor
    · rw [coordinatorLog_append, coordinatorLog_map_worker, List.append_nil]
      exact h.accepted
    · intro t
      have ht := h.sent t
      have hmail := count_downAfter hdown t
      have hbal := hres.step_tasks hstep t
      -- What the worker held is replaced by what it holds; the other workers keep theirs.
      have hupd := count_flatMap_update (f := fun _ => w') (g := Worker.heldTasks) hw t
      simp only [coordinatorLog_append, coordinatorLog_map_worker, workerLog_append,
        workerLog_map_worker, List.append_nil, executedTasks, locallyRefused, List.flatMap_append,
        List.count_append, tasksInFlight, tasksHeld] at ht hbal ⊢
      omega
    · intro r
      have hr := h.executed r
      have hbal := hres.step_results hstep r
      have hupd := count_flatMap_update (f := fun _ => w') (g := Worker.heldResults) hw r
      simp only [coordinatorLog_append, coordinatorLog_map_worker, workerLog_append,
        workerLog_map_worker, List.append_nil, executedTasks, lostResults, List.flatMap_append,
        List.map_append, List.count_append, resultsInFlight, resultsHeld, flatMap_results_up]
        at hr hbal ⊢
      omega

end System

/-! ### Workers whose batches fit -/

namespace Worker

theorem registration_fits {w : Worker} (h : w.mpiSize ≤ 20) :
    w.registration.maxBatchSize.toNat ≤ Coordinator.batchCapacity := by
  rw [registration]
  cases w.mode with
  | standalone => show 10 ≤ 100; decide
  | clusterHead => exact (Nat.mod_le _ _).trans (Nat.mul_le_mul_right 5 h)

theorem registration_of_sent {w w' : Worker} {l : WorkerLabel} {es : List WorkerEvent}
    {caps : Capabilities} (hs : Transition w l w' es)
    (h : .register (some caps) ∈ sentMessages es) : caps = w.registration := by
  cases hs with
  | @register ok => cases ok <;> simp_all [sendEvents, sentMessages]
  | @sendResult r ok | @forward r ok => cases ok <;> simp_all [resultEvents, sentMessages]
  | _ => simp_all [sendEvents, sentMessages]

end Worker

namespace System

variable {s s' : System} {l : SystemLabel} {es log : List SystemEvent}

/-- The registrations that workers send, and those in flight, fit. -/
structure Small (s : System) : Prop where
  workers : ∀ w ∈ s.workers, w.mpiSize ≤ 20
  up : ∀ m ∈ s.up, ∀ caps, m.2 = .register (some caps) →
    caps.maxBatchSize.toNat ≤ Coordinator.batchCapacity

theorem Small.step (h : s.Small) (hs : Transition s l s' es) : s'.Small := by
  cases hs with
  | @coordinator l c up es hup =>
    refine ⟨h.workers, fun m hm => h.up m ?_⟩
    unfold upAfter at hup
    split at hup
    · exact (deliver_perm hup).mem_iff.2 (List.mem_cons_of_mem _ hm)
    · cases hup
      exact hm
  | @worker i l w w' down es hw hdown hstep =>
    have hsize := h.workers w (mem_of_lookup hw)
    refine ⟨forall_mem_update h.workers fun _ _ => ?_, fun m hm caps hcaps => ?_⟩
    · cases hstep <;> exact hsize
    · rcases List.mem_append.1 hm with hm | hm
      · exact h.up m hm caps hcaps
      · obtain ⟨m, hsent, rfl⟩ := List.mem_map.1 hm
        cases hcaps
        rw [Worker.registration_of_sent hstep hsent]
        exact Worker.registration_fits hsize

theorem Small.registersFit (h : s.Small) (hs : Transition s l s' es) : RegistersFit l := by
  cases hs with
  | @coordinator l c up es hup =>
    show Coordinator.RegistersFit l
    unfold Coordinator.RegistersFit
    split
    · exact h.up _ ((deliver_perm hup).mem_iff.2 List.mem_cons_self) _ rfl
    · trivial
  | worker => trivial

/-- **Workers with at most 20 processes.** In every state of every run the coordinator has not
written behind its array, and the books are balanced. -/
theorem books_of_small {workers : List (UInt32 × ℕ)} (hsmall : ∀ w ∈ workers, w.2 ≤ 20)
    {labels : List SystemLabel}
    (h : Run (logged System.step) (init workers, []) labels (s, log)) :
    s.coordinator.pc ≠ .overrun ∧ s.Balanced log := by
  have hinit : (init workers).Small := by
    refine ⟨fun w hw => ?_, List.forall_mem_nil _⟩
    obtain ⟨p, hp, rfl⟩ := List.mem_map.1 hw
    exact hsmall p hp
  have hinv : s.Small ∧ s.LocalInv ∧ s.Balanced log := by
    refine h.invariant (I := fun s => s.1.Small ∧ s.1.LocalInv ∧ s.1.Balanced s.2)
      (fun hs hstep => ?_) ⟨hinit, localInv_init workers, balanced_init workers⟩
    obtain ⟨hsmall, hlocal, hbalanced⟩ := hs
    obtain ⟨es, hone, hlog⟩ := logged_eq_some_iff.1 hstep
    have ht := transition_of_step hone
    have hfit := hsmall.registersFit ht
    exact ⟨hsmall.step ht, hlocal.step hfit ht, hlog ▸ hbalanced.step hlocal hfit ht⟩
  exact ⟨hinv.2.1.coordinator.pc_ne, hinv.2.2⟩

/-- A standalone worker registers, is sent a task and receives it; the iteration is at its end. -/
def oneTaskReceived : List SystemLabel :=
  [.worker 7 (.register true 0), .coordinator (.enqueue { taskId := 1 }),
    .coordinator (.recv (some (7, .register (some ⟨1, 10, 0⟩))) 0 0), .coordinator .internal,
    .coordinator .internal, .coordinator .internal, .coordinator .internal,
    .coordinator (.send true fun _ => (0, 0)), .coordinator .internal,
    .worker 7 (.heartbeat 1 true), .worker 7 (.recv (some [{ taskId := 1 }]))]

/-- The worker executes the task, and its result is processed. -/
def oneTaskDone : List SystemLabel :=
  oneTaskReceived ++
    [.worker 7 .process, .worker 7 .execute, .worker 7 (.sendResult true),
      .coordinator (.timeouts 1),
      .coordinator (.recv (some (7, .result (some ⟨1, 0⟩))) 1 0)]

/-- At the end of this way the task has been sent, executed and answered. -/
theorem books_of_small_oneTask :
    ∃ s log, Run (logged System.step) (init [(7, 1)], []) oneTaskDone (s, log) ∧
      sentTasks (coordinatorLog log) = [{ taskId := 1 }] ∧
      executedTasks (workerLog log) = [{ taskId := 1 }] ∧
      processedResults (coordinatorLog log) = [⟨1, 0⟩] ∧ s.Balanced log := by
  have hrun : Run (logged System.step) (init [(7, 1)], []) oneTaskDone _ := run_get rfl
  exact ⟨_, _, hrun, rfl, rfl, rfl, (books_of_small (by decide) hrun).2⟩

end System

end DistributedComputing
