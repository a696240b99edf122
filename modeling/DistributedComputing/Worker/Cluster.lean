import DistributedComputing.Foundations.FifoChannels
import DistributedComputing.Foundations.Simulation
import DistributedComputing.Worker.Ledger

/-!
# A cluster head and its ranks

The worker of `Worker.Loop` has its ranks built in: a rank takes a task and answers it in one step,
and it lives for ever. Here the MPI processes are processes. Rank 0 runs the loop of `run_worker`
until its `running` is cleared, and then `shutdown_mpi_workers`; each other rank runs
`run_mpi_worker`, which probes for a message with any tag, stops at tag 999, receives and answers
anything else, and stops when its own `running` is cleared. A signal can reach any process at any
time.

What the head has sent to a rank is one FIFO of messages with tags, as MPI orders the messages of
one sender, and a probe may find nothing although something has been sent. The rank only probes for
the shutdown message and never receives it, so it stays where it is. Sends are buffered: none of
them waits for its receiver.

The condition `running` of a loop is read together with the first thing that an iteration does. A
signal in between is one that comes right after.

`cluster_refines_worker` is the link to `Worker.Loop`. A task counts as on its way to a rank until
the rank has sent the answer (`unexecuted`).
-/

namespace DistributedComputing

open KeyedTable StepRun Mailbox

/-- A message of the head to a rank: a task has tag 0, the shutdown message has tag 999. -/
inductive RankMessage
  | task (task : Task)
  | shutdown
  deriving DecidableEq, Repr

/-- The task in a message. -/
def RankMessage.task? : RankMessage → Option Task
  | .task t => some t
  | .shutdown => none

/-- Where `run_mpi_worker` is: at the top of its loop, between the receipt of a task and the send of
its result, or past the loop, because of a shutdown message or of a signal. -/
inductive RankPc
  | probe
  | execute (task : Task)
  | stopped (byMessage : Bool)
  deriving DecidableEq, Repr

/-- The task between its receipt and the send of its result. -/
def RankPc.tasks : RankPc → List Task
  | .execute t => [t]
  | .probe => []
  | .stopped _ => []

/-- A process with `mpi_rank > 0`. -/
structure Rank where
  rank : ℕ
  running : Bool := true
  pc : RankPc := .probe
  deriving DecidableEq, Repr

/-- The part of `run_worker` that rank 0 is in: the main loop, the iteration `i` of
`shutdown_mpi_workers`, or past that. -/
inductive HeadPhase
  | loop
  | shutdown (i : ℕ)
  | finished
  deriving DecidableEq, Repr

/-- All processes, with the messages in flight. The ones from the ranks are the head's `fromRanks`.
-/
structure Cluster where
  head : Worker
  running : Bool := true
  phase : HeadPhase := .loop
  toRanks : List (ℕ × RankMessage) := []
  ranks : List Rank

/-- What happens next. `send` ends the iteration of a rank that has received a task, `leave` and
`exit` are the ends of the loops of the head and of a rank, and `shutdown` is one iteration of the
loop in `shutdown_mpi_workers`, or its end. -/
inductive ClusterLabel
  | head (label : WorkerLabel)
  | leave
  | shutdown
  | probe (r : ℕ) (msg : Option RankMessage)
  | send (r : ℕ)
  | exit (r : ℕ)
  | signal (process : ℕ)
  deriving DecidableEq, Repr

/-- The batch that a step receives. -/
def ClusterLabel.received : ClusterLabel → List Task
  | .head l => l.received
  | _ => []

/-- What the processes report. -/
inductive ClusterEvent
  | handed (r : ℕ) (task : Task)
  | executed (r : ℕ) (task : Task)
  | head (event : WorkerEvent)
  deriving DecidableEq, Repr

/-- An event as the worker with built-in ranks reports it. -/
def ClusterEvent.asWorker : ClusterEvent → List WorkerEvent
  | .handed _ _ => []
  | .executed _ t => [.executed t]
  | .head e => [e]

/-- A task enters the channel to a rank when it is handed over, and leaves it with its answer. -/
def ClusterEvent.onChannel : ClusterEvent → List (FifoChannels.Event ℕ Task)
  | .handed r t => [.enter r t]
  | .executed r t => [.leave r t]
  | .head _ => []

/-- The steps of `Worker.step` that are not the head's own. -/
def WorkerLabel.ofRank : WorkerLabel → Bool
  | .rank _ _ => true
  | _ => false

/-- The steps of `Worker.step` at the top of the main loop, where `running` is read. -/
def WorkerLabel.atTop : WorkerLabel → Bool
  | .heartbeat _ _ => true
  | _ => false

namespace Cluster

/-- `mpi_size` processes at their start. -/
def create (id : UInt32) (mpiSize : ℕ) : Cluster where
  head := .create id mpiSize
  ranks := (List.range' 1 (mpiSize - 1)).map fun r => { rank := r }

/-- The process of a rank. -/
def rank? (c : Cluster) (r : ℕ) : Option Rank := lookup Rank.rank r c.ranks

/-- A rank moves on. -/
def setPc (c : Cluster) (r : ℕ) (pc : RankPc) : List Rank :=
  update Rank.rank r (fun k => { k with pc }) c.ranks

/-- A step of the head's main loop. What it hands to the ranks goes on the wire. -/
def headStep (c : Cluster) (l : WorkerLabel) : Option (Cluster × List ClusterEvent) :=
  (c.head.step l).map fun r =>
    ({ c with
      head := { r.1 with toRanks := [] }
      toRanks := c.toRanks ++ r.1.toRanks.map fun m => (m.1, .task m.2) },
      (r.1.toRanks.map fun m => .handed m.1 m.2) ++ r.2.map .head)

/-- One iteration of the loop in `shutdown_mpi_workers`. -/
def shutdownStep (c : Cluster) (i : ℕ) : Cluster :=
  if i < c.head.mpiSize then
    { c with toRanks := c.toRanks ++ [(i, .shutdown)], phase := .shutdown (i + 1) }
  else { c with phase := .finished }

/-- A rank at the top of its loop. -/
def probeStep (c : Cluster) (r : ℕ) : Option RankMessage → Option (Cluster × List ClusterEvent)
  | none => some (c, [])
  | some .shutdown =>
    -- found by `MPI_Iprobe`, and not received
    (deliver r .shutdown c.toRanks).map fun _ => ({ c with ranks := c.setPc r (.stopped true) }, [])
  | some (.task t) =>
    (deliver r (.task t) c.toRanks).map fun rest =>
      ({ c with toRanks := rest, ranks := c.setPc r (.execute t) }, [])

/-- A rank sends the result of its task. -/
def sendStep (c : Cluster) (r : ℕ) (t : Task) : Cluster :=
  { c with
    head := { c.head with fromRanks := c.head.fromRanks ++ [(r, executeTask t)] }
    ranks := c.setPc r .probe }

/-- `signal_handler` of a process. -/
def signalled (c : Cluster) (process : ℕ) : Cluster :=
  if process = 0 then { c with running := false }
  else { c with ranks := update Rank.rank process (fun k => { k with running := false }) c.ranks }

/-- One step, with what it reports. -/
def step (c : Cluster) : ClusterLabel → Option (Cluster × List ClusterEvent)
  | .head l =>
    if c.phase = .loop ∧ l.ofRank = false ∧ (l.atTop = true → c.running = true) then c.headStep l
    else none
  | .leave =>
    if c.phase = .loop ∧ c.head.pc = .heartbeat ∧ c.running = false then
      some ({ c with phase := if c.head.mode = .clusterHead then .shutdown 1 else .finished }, [])
    else none
  | .shutdown =>
    match c.phase with
    | .shutdown i => some (c.shutdownStep i, [])
    | _ => none
  | .probe r msg =>
    match c.rank? r with
    | some ⟨_, true, .probe⟩ => c.probeStep r msg
    | _ => none
  | .send r =>
    match c.rank? r with
    | some ⟨_, _, .execute t⟩ => some (c.sendStep r t, [.executed r t])
    | _ => none
  | .exit r =>
    match c.rank? r with
    | some ⟨_, false, .probe⟩ => some ({ c with ranks := c.setPc r (.stopped false) }, [])
    | _ => none
  | .signal p => some (c.signalled p, [])

/-! ### What a step can do -/

/-- Every way in which a step can go. -/
inductive Transition : Cluster → ClusterLabel → Cluster → List ClusterEvent → Prop
  | head {c l w es} (hphase : c.phase = .loop) (hl : l.ofRank = false)
      (hstep : c.head.step l = some (w, es)) :
      Transition c (.head l)
        { c with
          head := { w with toRanks := [] }
          toRanks := c.toRanks ++ w.toRanks.map fun m => (m.1, .task m.2) }
        ((w.toRanks.map fun m => .handed m.1 m.2) ++ es.map .head)
  | leave {c} (hphase : c.phase = .loop) (hpc : c.head.pc = .heartbeat)
      (hmode : c.head.mode = .clusterHead) :
      Transition c .leave { c with phase := .shutdown 1 } []
  | leaveStandalone {c} (hphase : c.phase = .loop) (hpc : c.head.pc = .heartbeat)
      (hmode : c.head.mode ≠ .clusterHead) :
      Transition c .leave { c with phase := .finished } []
  | shutdown {c i} (hphase : c.phase = .shutdown i) (hi : i < c.head.mpiSize) :
      Transition c .shutdown
        { c with toRanks := c.toRanks ++ [(i, .shutdown)], phase := .shutdown (i + 1) } []
  | finish {c i} (hphase : c.phase = .shutdown i) (hi : c.head.mpiSize ≤ i) :
      Transition c .shutdown { c with phase := .finished } []
  | probeNothing {c r} : Transition c (.probe r none) c []
  | probeShutdown {c r rest k} (hr : c.rank? r = some k) (hpc : k.pc = .probe)
      (hmsg : deliver r .shutdown c.toRanks = some rest) :
      Transition c (.probe r (some .shutdown)) { c with ranks := c.setPc r (.stopped true) } []
  | probeTask {c r t rest k} (hr : c.rank? r = some k) (hpc : k.pc = .probe)
      (hmsg : deliver r (.task t) c.toRanks = some rest) :
      Transition c (.probe r (some (.task t)))
        { c with toRanks := rest, ranks := c.setPc r (.execute t) } []
  | send {c r t k} (hr : c.rank? r = some k) (hpc : k.pc = .execute t) :
      Transition c (.send r) (c.sendStep r t) [.executed r t]
  | exit {c r k} (hr : c.rank? r = some k) (hpc : k.pc = .probe) :
      Transition c (.exit r) { c with ranks := c.setPc r (.stopped false) } []
  | signalHead {c} : Transition c (.signal 0) { c with running := false } []
  | signalRank {c p} :
      Transition c (.signal p)
        { c with ranks := update Rank.rank p (fun k => { k with running := false }) c.ranks } []

variable {c c' : Cluster} {l : ClusterLabel} {es : List ClusterEvent} {w w' : Worker}

theorem transition_probeStep {r : ℕ} {msg : Option RankMessage} {k : Rank} (hr : c.rank? r = some k)
    (hpc : k.pc = .probe) (h : c.probeStep r msg = some (c', es)) :
    Transition c (.probe r msg) c' es := by
  rcases msg with - | (t | -)
  · cases h
    exact .probeNothing
  · obtain ⟨rest, hmsg, hc⟩ := Option.map_eq_some_iff.1 h
    cases hc
    exact .probeTask hr hpc hmsg
  · obtain ⟨rest, hmsg, hc⟩ := Option.map_eq_some_iff.1 h
    cases hc
    exact .probeShutdown hr hpc hmsg

/-- **Inversion of a step.** -/
theorem transition_of_step (h : c.step l = some (c', es)) : Transition c l c' es := by
  cases l with
  | head l =>
    obtain ⟨⟨hphase, hl, -⟩, h⟩ := Option.ite_none_right_eq_some.1 h
    obtain ⟨⟨w, es⟩, hstep, hc⟩ := Option.map_eq_some_iff.1 h
    cases hc
    exact .head hphase hl hstep
  | leave =>
    obtain ⟨⟨hphase, hpc, -⟩, h⟩ := Option.ite_none_right_eq_some.1 h
    cases h
    split
    · next hmode => exact .leave hphase hpc hmode
    · next hmode => exact .leaveStandalone hphase hpc hmode
  | shutdown =>
    rw [step] at h
    split at h
    · next i hphase =>
      cases h
      rw [shutdownStep]
      split
      · next hi => exact .shutdown hphase hi
      · next hi => exact .finish hphase (Nat.le_of_not_lt hi)
    · cases h
  | probe r msg =>
    rw [step] at h
    split at h
    · next hr => exact transition_probeStep hr rfl h
    · cases h
  | send r =>
    rw [step] at h
    split at h
    · next hr =>
      cases h
      exact .send hr rfl
    · cases h
  | exit r =>
    rw [step] at h
    split at h
    · next hr =>
      cases h
      exact .exit hr rfl
    · cases h
  | signal p =>
    rw [step, signalled] at h
    split at h
    · next hp =>
      cases h
      rw [hp]
      exact .signalHead
    · cases h
      exact .signalRank

/-! ### The head with another outbox -/

theorem processStep_withToRanks (hout : w.toRanks = []) (ms : List (ℕ × Task)) :
    ({ w with toRanks := ms } : Worker).processStep =
      ({ w.processStep.1 with toRanks := ms ++ w.processStep.1.toRanks }, w.processStep.2) := by
  rw [Worker.processStep, Worker.processStep]
  dsimp only
  rcases w.queue.dequeue with ⟨- | t, queue⟩
  · simp [hout, Worker.mode]
  · dsimp only
    split
    · simp [hout]
    · have hmode : ({ w with toRanks := ms } : Worker).mode = w.mode := rfl
      rw [hmode]
      cases w.mode <;> simp [hout]

theorem step_withToRanks {l : WorkerLabel} (hout : w.toRanks = []) (hl : l.ofRank = false)
    (ms : List (ℕ × Task)) :
    ({ w with toRanks := ms } : Worker).step l =
      (w.step l).map fun r => ({ r.1 with toRanks := ms ++ r.1.toRanks }, r.2) := by
  cases l with
  | rank => cases hl
  | process =>
    simp only [Worker.step, processStep_withToRanks hout ms]
    split <;> rfl
  | heartbeat now ok =>
    simp only [Worker.step, Worker.heartbeatStep]
    split
    · split <;> simp [hout]
    · rfl
  | collect msg =>
    rcases msg with - | ⟨r, result⟩ <;> simp only [Worker.step] <;> split <;>
      simp [hout, Function.comp_def]
  | _ =>
    simp only [Worker.step, Worker.recvStep, Worker.registration, Worker.mode]
    split <;> simp [hout]

/-! ### The worker with built-in ranks follows -/

/-- The task that a rank has received and not answered. -/
def executing (c : Cluster) (r : ℕ) : List Task := ((c.rank? r).map Rank.pc).elim [] RankPc.tasks

/-- The tasks on their way to a rank. -/
def tasksTo (c : Cluster) (r : ℕ) : List Task := (inbox r c.toRanks).filterMap RankMessage.task?

/-- The tasks that were handed to a rank and are not answered. -/
def unexecuted (c : Cluster) (r : ℕ) : List Task := c.executing r ++ c.tasksTo r

/-- There is one process for each rank, what the head hands over is on the wire, and the head has
left its loop between two iterations. -/
structure Layout (c : Cluster) : Prop where
  ranks : c.ranks.map Rank.rank = List.range' 1 (c.head.mpiSize - 1)
  outbox : c.head.toRanks = []
  left : c.phase ≠ .loop → c.head.pc = .heartbeat

/-- The worker `w` stands for the cluster: it agrees with the head, and a task is on the way to a
rank until it is answered. -/
structure Refines (c : Cluster) (w : Worker) : Prop extends Layout c where
  head : w = { c.head with toRanks := w.toRanks }
  tasks : ∀ r, inbox r w.toRanks = c.unexecuted r

section Ranks

variable {r : ℕ} {k : Rank} {pc : RankPc}

theorem executing_of_rank? (hr : c.rank? r = some k) : c.executing r = k.pc.tasks := by
  rw [executing, hr]
  rfl

/-- A change of the process of a rank. No step gives a rank another number. -/
theorem rank?_update {f : Rank → Rank} (hc : c'.ranks = update Rank.rank r f c.ranks)
    (hf : ∀ k, (f k).rank = k.rank) (j : ℕ) :
    c'.rank? j = if j = r then (c.rank? r).map f else c.rank? j := by
  rw [rank?, hc]
  split
  · next hj => rw [hj, lookup_update_self fun k hk => (hf k).trans hk, rank?]
  · next hj => exact lookup_update_of_ne hj fun k hk => (hf k).trans hk

theorem rank?_setPc (hr : c.rank? r = some k) (hc : c'.ranks = c.setPc r pc) :
    c'.rank? r = some { k with pc } := by
  rw [rank?_update hc fun _ => rfl, if_pos rfl, hr]
  rfl

theorem rank?_setPc_of_ne {j : ℕ} (hc : c'.ranks = c.setPc r pc) (hj : j ≠ r) :
    c'.rank? j = c.rank? j := by
  rw [rank?_update hc fun _ => rfl, if_neg hj]

theorem pc_signalRank {p : ℕ} (j : ℕ)
    (hc : c'.ranks = update Rank.rank p (fun k => { k with running := false }) c.ranks) :
    (c'.rank? j).map Rank.pc = (c.rank? j).map Rank.pc := by
  rw [rank?_update hc fun _ => rfl]
  split
  · next hj =>
    rw [hj, Option.map_map]
    rfl
  · rfl

theorem Layout.rank_bounds (h : c.Layout) (hr : c.rank? r = some k) :
    0 < r ∧ r < c.head.mpiSize := by
  have hmem : r ∈ c.ranks.map Rank.rank :=
    List.mem_map.2 ⟨k, mem_of_lookup hr, key_of_lookup hr⟩
  rw [h.ranks, List.mem_range'_1] at hmem
  omega

end Ranks

theorem mpiSize_of_step {l : WorkerLabel} {es : List WorkerEvent} (h : w.step l = some (w', es)) :
    w'.mpiSize = w.mpiSize := by
  cases Worker.transition_of_step h <;> rfl

theorem Layout.step (h : c.Layout) (hs : Transition c l c' es) : c'.Layout := by
  cases hs with
  | head hphase _ hstep =>
    exact ⟨by rw [mpiSize_of_step hstep]; exact h.ranks, rfl, fun hne => absurd hphase hne⟩
  | leave _ hpc | leaveStandalone _ hpc => exact ⟨h.ranks, h.outbox, fun _ => hpc⟩
  | shutdown hphase | finish hphase =>
    exact ⟨h.ranks, h.outbox, fun _ => h.left (by simp [hphase])⟩
  | probeNothing | signalHead => exact ⟨h.ranks, h.outbox, h.left⟩
  | _ =>
    refine ⟨Eq.trans (map_key_update ?_) h.ranks, h.outbox, h.left⟩
    exact fun _ hk => hk

theorem flatMap_asWorker (ms : List (ℕ × Task)) (es : List WorkerEvent) :
    List.flatMap ClusterEvent.asWorker ((ms.map fun m => .handed m.1 m.2) ++ es.map .head) =
      es := by
  rw [List.flatMap_append, List.flatMap_map, List.flatMap_map]
  simp [ClusterEvent.asWorker]

theorem tasksTo_append (ms : List (ℕ × Task)) (r : ℕ) :
    (inbox r (c.toRanks ++ ms.map fun m => (m.1, .task m.2))).filterMap RankMessage.task? =
      c.tasksTo r ++ inbox r ms := by
  rw [inbox_append, inbox_map, List.filterMap_append, List.filterMap_map]
  exact congrArg _ List.filterMap_some

theorem unexecuted_of_ne {r j : ℕ} {pc : RankPc} (hc : c'.ranks = c.setPc r pc)
    (hbox : inbox j c'.toRanks = inbox j c.toRanks) (hj : j ≠ r) :
    c'.unexecuted j = c.unexecuted j := by
  rw [unexecuted, unexecuted, executing, rank?_setPc_of_ne hc hj, tasksTo, hbox]
  rfl

theorem unexecuted_stopped {r : ℕ} {k : Rank} (hr : c.rank? r = some k) (hpc : k.pc = .probe)
    (byMessage : Bool) (j : ℕ) :
    ({ c with ranks := c.setPc r (.stopped byMessage) } : Cluster).unexecuted j =
      c.unexecuted j := by
  by_cases hj : j = r
  · rw [hj, unexecuted, unexecuted, executing_of_rank? hr, executing_of_rank? (rank?_setPc hr rfl),
      hpc]
    rfl
  · exact unexecuted_of_ne rfl rfl hj

theorem entered_handed (ms : List (ℕ × Task)) (es : List WorkerEvent) (r : ℕ) :
    FifoChannels.entered r (List.flatMap ClusterEvent.onChannel
      ((ms.map fun m => .handed m.1 m.2) ++ es.map .head)) = inbox r ms := by
  induction ms with
  | nil => simp [ClusterEvent.onChannel, FifoChannels.entered, inbox]
  | cons m ms ih =>
    rw [inbox_cons, ← ih, List.map_cons, List.cons_append, List.flatMap_cons]
    by_cases hm : m.1 = r <;> simp [ClusterEvent.onChannel, FifoChannels.entered, hm]

theorem left_handed (ms : List (ℕ × Task)) (es : List WorkerEvent) (r : ℕ) :
    FifoChannels.left r (List.flatMap ClusterEvent.onChannel
      ((ms.map fun m => .handed m.1 m.2) ++ es.map .head)) = [] := by
  rw [List.flatMap_append, List.flatMap_map, List.flatMap_map]
  simp [ClusterEvent.onChannel, FifoChannels.left, List.filterMap_flatMap]

/-- **The channels to the ranks are first in, first out**, from the head to the answer. -/
theorem fifo_step (hs : Transition c l c' es) :
    FifoChannels.Fifo c.unexecuted (es.flatMap ClusterEvent.onChannel) c'.unexecuted := by
  intro j
  cases hs with
  | @head l w es =>
    rw [entered_handed, left_handed, unexecuted, unexecuted, List.append_assoc]
    exact congrArg _ (tasksTo_append w.toRanks j).symm
  | leave | leaveStandalone | finish | probeNothing | signalHead => exact List.append_nil _
  | @shutdown i =>
    have hnone : (inbox j [(i, RankMessage.shutdown)]).filterMap RankMessage.task? = [] := by
      rw [inbox_cons]
      split <;> rfl
    refine (List.append_nil _).trans ?_
    rw [unexecuted, tasksTo, ← List.append_nil (List.filterMap _ _), ← hnone,
      ← List.filterMap_append, ← inbox_append]
    rfl
  | probeShutdown hr hpc | exit hr hpc =>
    exact (List.append_nil _).trans (unexecuted_stopped hr hpc _ j).symm
  | @probeTask r t rest k hr hpc hmsg =>
    obtain ⟨hfirst, hother⟩ := inbox_deliver hmsg
    refine (List.append_nil _).trans ?_
    by_cases hj : j = r
    · rw [hj, unexecuted, unexecuted, executing_of_rank? hr, hpc,
        executing_of_rank? (rank?_setPc hr rfl), tasksTo, hfirst, tasksTo]
      rfl
    · exact (unexecuted_of_ne rfl (hother j hj) hj).symm
  | @send r t k hr hpc =>
    refine (List.append_nil _).trans ?_
    by_cases hj : j = r
    · have hleft : FifoChannels.left r [.leave r t] = [t] := by simp [FifoChannels.left]
      subst hj
      rw [unexecuted, executing_of_rank? hr, hpc]
      refine Eq.trans ?_ (congrArg (· ++ _) hleft.symm)
      rw [unexecuted, executing_of_rank? (rank?_setPc hr rfl)]
      rfl
    · have hleft : FifoChannels.left j [.leave r t] = [] := by
        simp [FifoChannels.left, Ne.symm hj]
      have hsame : (c.sendStep r t).unexecuted j = c.unexecuted j := unexecuted_of_ne rfl rfl hj
      exact hsame.symm.trans (congrArg (· ++ _) hleft.symm)
  | signalRank =>
    refine (List.append_nil _).trans (Eq.symm ?_)
    rw [unexecuted, executing, pc_signalRank j rfl]
    rfl

/-- **Each step is followed.** -/
theorem Refines.follows (h : Refines c w) (hstep : c.step l = some (c', es)) :
    Follows Worker.step WorkerLabel.received (Refines c') w l.received
      (es.flatMap ClusterEvent.asWorker) := by
  have hs := transition_of_step hstep
  have hlayout := h.toLayout.step hs
  have hfifo := fifo_step hs
  cases hs with
  | @head l w' es _ hl hw =>
    have hstep' := step_withToRanks h.outbox hl w.toRanks
    rw [← h.head, hw, Option.map_some] at hstep'
    rw [flatMap_asWorker]
    refine .step hstep' ⟨hlayout, rfl, fun r => ?_⟩
    have hr := hfifo r
    rw [entered_handed, left_handed] at hr
    rw [inbox_append, h.tasks r, hr]
    rfl
  | @send r t k hr hpc =>
    -- the task that is answered is the first that is not
    have hfirst : inbox r w.toRanks = t :: c.tasksTo r := by
      rw [h.tasks r, unexecuted, executing_of_rank? hr, hpc]
      rfl
    obtain ⟨rest, hrest⟩ := exists_deliver hfirst
    obtain ⟨hself, hother⟩ := inbox_deliver hrest
    have hw : w.step (.rank r t) = some ({ w with
        toRanks := rest, fromRanks := w.fromRanks ++ [(r, executeTask t)] }, [.executed t]) := by
      have hbounds : 0 < r ∧ r < w.mpiSize := by
        rw [h.head]
        exact h.rank_bounds hr
      rw [Worker.step, if_pos hbounds, hrest]
      rfl
    refine .step hw ⟨hlayout, ?_, fun j => ?_⟩
    · rw [h.head]
      rfl
    · by_cases hj : j = r
      · rw [hj, unexecuted, executing_of_rank? (rank?_setPc hr rfl)]
        exact (List.cons.inj (hself.symm.trans hfirst)).2
      · refine (hother j hj).trans ((h.tasks j).trans (Eq.symm ?_))
        exact unexecuted_of_ne rfl rfl hj
  | _ =>
    exact .stutter ⟨hlayout, h.head, fun j => (h.tasks j).trans (hfifo.eq_of_nil j)⟩

theorem refines_create (id : UInt32) (mpiSize : ℕ) :
    Refines (create id mpiSize) (.create id mpiSize) where
  ranks := by
    rw [create, List.map_map]
    exact List.map_id _
  outbox := rfl
  left := fun h => absurd rfl h
  head := rfl
  tasks := by
    intro r
    rw [unexecuted, executing, rank?]
    rcases hr : lookup Rank.rank r (create id mpiSize).ranks with - | k
    · rfl
    · obtain ⟨j, -, rfl⟩ := List.mem_map.1 (mem_of_lookup hr)
      rfl

/-- **The processes do what the worker with built-in ranks can do.** Every run of the cluster is
matched by a run of the worker that receives the same batches and reports the same events in the
same order, to a worker that stands for the cluster. -/
theorem cluster_refines_worker {id : UInt32} {mpiSize : ℕ} {labels : List ClusterLabel}
    {log : List ClusterEvent}
    (h : Run (logged Cluster.step) (create id mpiSize, []) labels (c, log)) :
    ∃ workerLabels w,
      Run (logged Worker.step) (.create id mpiSize, []) workerLabels
        (w, log.flatMap ClusterEvent.asWorker) ∧
      workerLabels.flatMap WorkerLabel.received = labels.flatMap ClusterLabel.received ∧
      Refines c w :=
  exists_run_of_follows Refines.follows h (refines_create id mpiSize)

/-- One task goes to rank 1 of two processes, the head is told to stop while it is out there, and
the rank answers it after the shutdown message has been sent. -/
def oneTask : List ClusterLabel :=
  [.head (.register true 0), .head (.heartbeat 1 true), .head (.recv (some [{ taskId := 7 }])),
    .head .process, .signal 0, .leave, .probe 1 (some (.task { taskId := 7 })), .shutdown,
    .send 1, .shutdown, .probe 1 (some .shutdown)]

theorem cluster_refines_worker_oneTask :
    ∃ c log, Run (logged Cluster.step) (create 3 2, []) oneTask (c, log) ∧
      ∃ workerLabels w,
        Run (logged Worker.step) (.create 3 2, []) workerLabels
          (w, log.flatMap ClusterEvent.asWorker) ∧
        workerLabels.flatMap WorkerLabel.received = oneTask.flatMap ClusterLabel.received ∧
        Refines c w := by
  obtain ⟨⟨c, log⟩, hrun⟩ : ∃ s, Run (logged Cluster.step) (create 3 2, []) oneTask s :=
    ⟨_, run_get (by decide)⟩
  exact ⟨c, log, hrun, cluster_refines_worker hrun⟩

end Cluster

end DistributedComputing
