import DistributedComputing.Foundations.Simulation
import DistributedComputing.Net.PayloadDecoding
import DistributedComputing.System.Model

/-!
# The system on the wire

In `System.Model` the coordinator and its workers exchange tasks, registrations and results as
values. In the source they exchange messages of bytes: the senders copy structures into a payload
and say how long it is, and the receivers look at the type and the length and read the payload
through pointers. `Wire` is the system with these messages in flight, as `transport_send` is given
them and `transport_recv` returns them.

* `wire_refines_system`: every run on the wire is, message by message, a run of the system of
  values with the same events. So each message is read as what was meant, by whichever side.
* `wire_reads_inside`: no receiver reads outside a payload in any run. A worker trusts the count in
  front of a batch, so this is not a matter of one message: it holds since every batch in flight was
  packed by a coordinator whose array holds at most 100 tasks.

A result has fields that the model of the scheduler does not look at. They are part of the 1080
bytes that are sent, and are left to the environment (`ResultRest`), with the gaps between them.
-/

namespace DistributedComputing

open KeyedTable StepRun Mailbox Bytes

/-! ### Messages as they are built -/

/-- `message_alloc`, the payload, `message_set_header` and the length. -/
def builtMessage (msgType : UInt16) (taskId : UInt64) (payload : List UInt8) : Message :=
  let msg := messageSetHeader (messageAlloc payload.length) msgType taskId
  { msg with
    header := { msg.header with payloadLen := .ofNat payload.length }
    payload := payload }

/-- The payload of `send_registration`. -/
def packRegistration (caps : Capabilities) : List UInt8 :=
  encodeLE 4 caps.numLocalRanks.toNat ++
    (encodeLE 4 caps.maxBatchSize.toNat ++ encodeLE 4 caps.capabilities.toNat)

/-- The bytes of `task_result_t` behind `task_id` and `status`: the output, the times, the worker,
the message, and the gaps. -/
abbrev ResultRest := Vector UInt8 1068

/-- The payload of `send_result`: `task_result_t` in memory. -/
def packResult (r : TaskResult) (rest : ResultRest) : List UInt8 :=
  encodeLE 8 r.taskId.toNat ++
    (encodeLE 4 (Int32.ofInt r.status).toUInt32.toNat ++ rest.toList)

/-- The message of `send_registration`. -/
def registrationMessage (caps : Capabilities) : Message :=
  builtMessage msgTypeWorkerRegister 0 (packRegistration caps)

/-- The message of `send_heartbeat`. -/
def heartbeatMessage : Message := builtMessage msgTypeHeartbeat 0 []

/-- The message of `send_result`. -/
def resultMessage (r : TaskResult) (rest : ResultRest) : Message :=
  builtMessage msgTypeTaskResult r.taskId (packResult r rest)

/-- The message of `send_task_batch`, with the id of the first task in the header. -/
def taskBatchMessage (batch : List Task) : Message :=
  builtMessage msgTypeTaskSubmit ((batch.head?.map Task.taskId).getD 0) (packBatch batch)

/-- The message that a worker sends. The last three cases do not occur; they are messages that are
read as such. -/
def Incoming.message (rest : ResultRest) : Incoming → Message
  | .register (some caps) => registrationMessage caps
  | .heartbeat => heartbeatMessage
  | .result (some r) => resultMessage r rest
  | .register none => builtMessage msgTypeWorkerRegister 0 []
  | .result none => builtMessage msgTypeTaskResult 0 []
  | .other => builtMessage 0 0 []

/-! ### Messages as they are read -/

/-- The batch that `run_worker` finds in a message, `behind` being what lies in memory behind the
payload. -/
def Message.taskBatch (msg : Message) (behind : ℕ → UInt8) : Option (List Task) :=
  if msg.header.msgType = msgTypeTaskSubmit then
    some <|
      if 4 ≤ msg.header.payloadLen.toNat then
        batchAt (memoryOf msg.payload behind) 0 msg.batchCount.toNat
      else []
  else none

/-- The loop of the worker enqueues this batch. -/
theorem run_unpackTaskSubmit_taskBatch {msg : Message}
    (hlen : msg.payload.length = msg.header.payloadLen.toNat)
    (htype : msg.header.msgType = msgTypeTaskSubmit) (q : ValidQueue) (behind : ℕ → UInt8) :
    ((unpackTaskSubmit q msg.header.payloadLen.toNat).run (memoryOf msg.payload behind)).1.1 =
      (q.enqueueAll ((msg.taskBatch behind).getD [])).1 := by
  rw [Message.taskBatch, if_pos htype]
  by_cases h4 : 4 ≤ msg.header.payloadLen.toNat
  · rw [run_unpackTaskSubmit hlen h4, run_enqueueBatch, if_pos h4]
    rfl
  · rw [unpackTaskSubmit, if_neg h4, if_neg h4]
    rfl

section Built

variable {msgType : UInt16} {taskId : UInt64} {payload : List UInt8}

theorem payloadLen_builtMessage (h : payload.length < 2 ^ 32) :
    (builtMessage msgType taskId payload).header.payloadLen.toNat = payload.length :=
  UInt32.toNat_ofNat_of_lt' h

theorem length_packRegistration (caps : Capabilities) : (packRegistration caps).length = 12 := by
  simp [packRegistration]

theorem length_packResult (r : TaskResult) (rest : ResultRest) :
    (packResult r rest).length = taskResultSize := by
  rw [packResult, List.length_append, List.length_append, Vector.length_toList, length_encodeLE,
    length_encodeLE]
  rfl

/-- **A registration** is read as it was meant. -/
theorem incoming_registrationMessage (caps : Capabilities) :
    (registrationMessage caps).incoming = .register (some caps) := by
  have htype : (registrationMessage caps).header.msgType = msgTypeWorkerRegister := rfl
  have hpayload : (registrationMessage caps).payload = packRegistration caps := rfl
  have hlen : 12 ≤ (registrationMessage caps).header.payloadLen.toNat := by
    rw [registrationMessage, payloadLen_builtMessage (by rw [length_packRegistration]; decide),
      length_packRegistration]
  have hranks : MessageHeader.field (packRegistration caps) 0 4 = caps.numLocalRanks.toNat :=
    MessageHeader.field_append [] _ rfl rfl caps.numLocalRanks.toNat_lt
  have hbatch : MessageHeader.field (packRegistration caps) 4 4 = caps.maxBatchSize.toNat :=
    MessageHeader.field_append (encodeLE 4 caps.numLocalRanks.toNat) _ rfl (length_encodeLE _ _)
      caps.maxBatchSize.toNat_lt
  have hcaps : MessageHeader.field (packRegistration caps) 8 4 = caps.capabilities.toNat :=
    MessageHeader.field_append
      (encodeLE 4 caps.numLocalRanks.toNat ++ encodeLE 4 caps.maxBatchSize.toNat) []
      (by rw [packRegistration, List.append_nil, List.append_assoc]) (by simp)
      caps.capabilities.toNat_lt
  rw [Message.incoming, if_pos htype, if_pos hlen, hpayload, hranks, hbatch, hcaps,
    UInt32.ofNat_toNat, UInt32.ofNat_toNat, UInt32.ofNat_toNat]

/-- **A result** is read as it was meant, if its status fits the field. -/
theorem incoming_resultMessage {r : TaskResult} (rest : ResultRest)
    (hstatus : (Int32.ofInt r.status).toInt = r.status) :
    (resultMessage r rest).incoming = .result (some r) := by
  have htype : (resultMessage r rest).header.msgType = msgTypeTaskResult := rfl
  have hpayload : (resultMessage r rest).payload = packResult r rest := rfl
  have hlen : ¬ (resultMessage r rest).header.payloadLen.toNat < taskResultSize := by
    rw [resultMessage, payloadLen_builtMessage (by rw [length_packResult]; decide),
      length_packResult]
    exact Nat.lt_irrefl _
  have hid : MessageHeader.field (packResult r rest) 0 8 = r.taskId.toNat :=
    MessageHeader.field_append [] _ rfl rfl r.taskId.toNat_lt
  have hcode : MessageHeader.field (packResult r rest) 8 4 =
      (Int32.ofInt r.status).toUInt32.toNat :=
    MessageHeader.field_append (encodeLE 8 r.taskId.toNat) _ rfl (length_encodeLE _ _)
      (Int32.ofInt r.status).toUInt32.toNat_lt
  rw [Message.incoming, if_neg (by rw [htype]; decide), if_neg (by rw [htype]; decide),
    if_pos htype, if_neg hlen, hpayload, hid, hcode, UInt64.ofNat_toNat]
  have hread : Int32.ofNat (Int32.ofInt r.status).toUInt32.toNat = Int32.ofInt r.status := by
    show (UInt32.ofNat _).toInt32 = _
    rw [UInt32.ofNat_toNat, Int32.toInt32_toUInt32]
  rw [hread, hstatus]

theorem length_packBatch_lt {batch : List Task} (h : batch.length ≤ Coordinator.batchCapacity) :
    (packBatch batch).length < 2 ^ 32 := by
  rw [length_packBatch]
  simp only [Coordinator.batchCapacity, taskSize] at h ⊢
  omega

/-- **A batch** is read as it was meant, whatever lies behind it. -/
theorem taskBatch_taskBatchMessage {batch : List Task}
    (hsize : batch.length ≤ Coordinator.batchCapacity) (behind : ℕ → UInt8) :
    (taskBatchMessage batch).taskBatch behind = some batch := by
  have htype : (taskBatchMessage batch).header.msgType = msgTypeTaskSubmit := rfl
  have hpayload : (taskBatchMessage batch).payload = packBatch batch := rfl
  have hlt : (packBatch batch).length < 2 ^ 32 := length_packBatch_lt hsize
  have hlen : (taskBatchMessage batch).header.payloadLen.toNat = (packBatch batch).length :=
    payloadLen_builtMessage hlt
  have hfield : MessageHeader.field (packBatch batch) 0 4 = (UInt32.ofNat batch.length).toNat :=
    MessageHeader.field_append [] _ rfl rfl (UInt32.toNat_lt _)
  have hcount : (taskBatchMessage batch).batchCount.toNat = batch.length := by
    rw [Message.batchCount, hpayload, hfield, UInt32.ofNat_toNat, UInt32.toNat_ofNat']
    exact Nat.mod_eq_of_lt (by simp only [Coordinator.batchCapacity] at hsize; omega)
  rw [Message.taskBatch, if_pos htype, if_pos (by rw [hlen, length_packBatch]; omega), hcount,
    hpayload, batchAt_packBatch]

end Built

/-! ### The system -/

/-- The coordinator, its workers and the messages between them. `down` is addressed by the receiving
worker, `up` by the sending one. -/
structure Wire where
  coordinator : Coordinator
  workers : List Worker
  down : List (UInt32 × Message) := []
  up : List (UInt32 × Message) := []

/-- What the environment chooses for a worker: a message, with what lies behind its payload in
memory, or anything else, with the other fields of a result. -/
inductive WireWorkerLabel
  | recv (msg : Option Message) (behind : ℕ → UInt8)
  | step (label : WorkerLabel) (rest : ResultRest)

/-- The label of the worker's loop. -/
def WireWorkerLabel.label : WireWorkerLabel → WorkerLabel
  | .recv msg behind => .recv (msg.bind fun m => m.taskBatch behind)
  | .step l _ => l

/-- The message that it takes. -/
def WireWorkerLabel.message : WireWorkerLabel → Option Message
  | .recv msg _ => msg
  | .step _ _ => none

/-- Batches only come as messages. -/
def WireWorkerLabel.valid : WireWorkerLabel → Bool
  | .step (.recv _) _ => false
  | _ => true

/-- The other fields of the results that it sends. -/
def WireWorkerLabel.rest : WireWorkerLabel → ResultRest
  | .recv _ _ => .replicate 1068 0
  | .step _ rest => rest

/-- The message that a step of the coordinator takes, with its sender. -/
def MessageLabel.message : MessageLabel → Option (UInt32 × Message)
  | .recv msg _ _ => msg
  | _ => none

/-- Whose step it is. -/
inductive WireLabel
  | coordinator (label : MessageLabel)
  | worker (id : UInt32) (label : WireWorkerLabel)

/-- The label of the system of values. -/
def WireLabel.label : WireLabel → SystemLabel
  | .coordinator l => .coordinator l.label
  | .worker i l => .worker i l.label

namespace Wire

/-- The system at the start, with any workers. -/
def init (workers : List (UInt32 × ℕ)) : Wire where
  coordinator := .init
  workers := workers.map fun w => .create w.1 w.2

/-- The messages left to the coordinator by its step. -/
def upAfter (up : List (UInt32 × Message)) (l : MessageLabel) : Option (List (UInt32 × Message)) :=
  receive l.message up

/-- The messages left to worker `i` by its step. -/
def downAfter (i : UInt32) (down : List (UInt32 × Message)) (l : WireWorkerLabel) :
    Option (List (UInt32 × Message)) :=
  receive (l.message.map fun m => (i, m)) down

/-- One step, with what it reports. -/
def step (s : Wire) : WireLabel → Option (Wire × List SystemEvent)
  | .coordinator l =>
    (upAfter s.up l).bind fun up =>
      (s.coordinator.step l.label).map fun r =>
        ({ s with
          coordinator := r.1
          up
          down := s.down ++ (sentBatches r.2).map fun b => (b.1, taskBatchMessage b.2) },
          r.2.map .coordinator)
  | .worker i l =>
    if l.valid then
      (lookup Worker.id i s.workers).bind fun w =>
        (downAfter i s.down l).bind fun down =>
          (w.step l.label).map fun r =>
            ({ s with
              workers := update Worker.id i (fun _ => r.1) s.workers
              down
              up := s.up ++ (sentMessages r.2).map fun m => (i, m.message l.rest) },
              r.2.map (.worker i))
    else none

/-- The values that the messages in flight stand for. -/
def system (s : Wire) : System where
  coordinator := s.coordinator
  workers := s.workers
  down := s.down.map fun m => (m.1, (m.2.taskBatch fun _ => 0).getD [])
  up := s.up.map fun m => (m.1, m.2.incoming)

/-- Every way in which a step can go. -/
inductive Transition : Wire → WireLabel → Wire → List SystemEvent → Prop
  | coordinator {s l c up es} (hup : upAfter s.up l = some up)
      (hstep : s.coordinator.step l.label = some (c, es)) :
      Transition s (.coordinator l)
        { s with
          coordinator := c
          up
          down := s.down ++ (sentBatches es).map fun b => (b.1, taskBatchMessage b.2) }
        (es.map .coordinator)
  | worker {s i l w w' down es} (hl : l.valid = true)
      (hw : lookup Worker.id i s.workers = some w) (hdown : downAfter i s.down l = some down)
      (hstep : w.step l.label = some (w', es)) :
      Transition s (.worker i l)
        { s with
          workers := update Worker.id i (fun _ => w') s.workers
          down
          up := s.up ++ (sentMessages es).map fun m => (i, m.message l.rest) } (es.map (.worker i))

variable {s s' : Wire} {l : WireLabel} {es : List SystemEvent}

/-- **Inversion of a step.** -/
theorem transition_of_step (h : s.step l = some (s', es)) : Transition s l s' es := by
  cases l with
  | coordinator l =>
    obtain ⟨up, hup, h⟩ := Option.bind_eq_some_iff.1 h
    obtain ⟨⟨c, es⟩, hstep, hs⟩ := Option.map_eq_some_iff.1 h
    cases hs
    exact .coordinator hup hstep
  | worker i l =>
    obtain ⟨hl, h⟩ := Option.ite_none_right_eq_some.1 h
    obtain ⟨w, hw, h⟩ := Option.bind_eq_some_iff.1 h
    obtain ⟨down, hdown, h⟩ := Option.bind_eq_some_iff.1 h
    obtain ⟨⟨w', es⟩, hstep, hs⟩ := Option.map_eq_some_iff.1 h
    cases hs
    exact .worker hl hw hdown hstep

/-! ### What is in flight -/

/-- The coordinator keeps the invariant of its loop, the results of a worker have a status that fits
its field, every batch in flight is one that the coordinator's array could hold, and messages say
how long they are. -/
structure Sendable (s : Wire) : Prop where
  coordinator : s.coordinator.LoopInv
  workers : ∀ w ∈ s.workers, w.ReserveInv ∧ ∀ r ∈ w.heldResults, r.status = 0
  down : ∀ m ∈ s.down, ∃ batch : List Task,
    batch.length ≤ Coordinator.batchCapacity ∧ m.2 = taskBatchMessage batch
  up : ∀ m ∈ s.up, m.2.header.payloadLen.toNat = m.2.payload.length

end Wire

namespace Coordinator

variable {c c' : Coordinator} {l : Label} {es : List Event}

/-- What the coordinator sends is at most what its array holds. -/
theorem LoopInv.sentBatches_le (h : c.LoopInv) (hs : Transition c l c' es) :
    ∀ b ∈ sentBatches es, b.2.length ≤ batchCapacity := by
  cases hs with
  | @recvMsg src m now registeredAt =>
    have hnone : sentBatches (c.sched.handle src now registeredAt m).2 = [] := by
      rcases m with caps | - | (- | r) | - <;> rfl
    rw [hnone]
    exact List.forall_mem_nil _
  | sendOk hpc =>
    have hle := h.inHand_le
    rw [hpc] at hle
    exact List.forall_mem_singleton.2 hle
  | _ => exact List.forall_mem_nil _

end Coordinator

namespace Worker

variable {w w' : Worker} {l : WorkerLabel} {es : List WorkerEvent}

theorem status_of_transition (hres : w.ReserveInv) (h : ∀ r ∈ w.heldResults, r.status = 0)
    (hs : Transition w l w' es) :
    (∀ r ∈ w'.heldResults, r.status = 0) ∧
      ∀ r ∈ (sentMessages es).flatMap Incoming.results, r.status = 0 := by
  have hfrom : ∀ r, 0 < w.heldResults.count r + ((executedTasks es).map executeTask).count r →
      r.status = 0 := by
    intro r hr
    rcases Nat.eq_zero_or_pos (w.heldResults.count r) with h0 | hpos
    · rw [h0, Nat.zero_add] at hr
      obtain ⟨t, -, rfl⟩ := List.mem_map.1 (List.count_pos_iff.1 hr)
      rfl
    · exact h r (List.count_pos_iff.1 hpos)
  constructor
  · intro r hr
    have hbal := hres.step_results hs r
    have hpos := List.count_pos_iff.2 hr
    exact hfrom r (by omega)
  · intro r hr
    have hbal := hres.step_results hs r
    have hpos := List.count_pos_iff.2 hr
    exact hfrom r (by omega)

end Worker

theorem incoming_message {m : Incoming} (hstatus : ∀ r ∈ m.results, r.status = 0)
    (rest : ResultRest) : (m.message rest).incoming = m := by
  rcases m with (- | caps) | - | (- | r) | -
  · rfl
  · exact incoming_registrationMessage caps
  · rfl
  · rfl
  · refine incoming_resultMessage rest ?_
    rw [hstatus r (List.mem_singleton.2 rfl)]
    rfl
  · rfl

theorem payloadLen_message (rest : ResultRest) (m : Incoming) :
    (m.message rest).header.payloadLen.toNat = (m.message rest).payload.length := by
  rcases m with (- | caps) | - | (- | r) | -
  · rfl
  · exact payloadLen_builtMessage (by rw [length_packRegistration]; decide)
  · rfl
  · rfl
  · exact payloadLen_builtMessage (by rw [length_packResult]; decide)
  · rfl

namespace Wire

variable {s s' : Wire} {l : WireLabel} {es : List SystemEvent}

theorem Sendable.taskBatch_eq (h : s.Sendable) {m : UInt32 × Message} (hm : m ∈ s.down)
    (behind : ℕ → UInt8) :
    m.2.taskBatch behind = some ((m.2.taskBatch fun _ => 0).getD []) := by
  obtain ⟨batch, hsize, hbatch⟩ := h.down m hm
  rw [hbatch, taskBatch_taskBatchMessage hsize, taskBatch_taskBatchMessage hsize]
  rfl

theorem Sendable.step (h : s.Sendable) (hs : Transition s l s' es) : s'.Sendable := by
  cases hs with
  | @coordinator l c up es hup hstep =>
    have ht := Coordinator.transition_of_step hstep
    refine ⟨h.coordinator.step ht, h.workers, fun m hm => ?_,
      fun m hm => h.up m (mem_of_receive hup hm)⟩
    rcases List.mem_append.1 hm with hm | hm
    · exact h.down m hm
    · obtain ⟨b, hb, rfl⟩ := List.mem_map.1 hm
      exact ⟨b.2, h.coordinator.sentBatches_le ht b hb, rfl⟩
  | @worker i l w w' down es hl hw hdown hstep =>
    have ht := Worker.transition_of_step hstep
    obtain ⟨hres, hstatus⟩ := h.workers w (mem_of_lookup hw)
    refine ⟨h.coordinator, forall_mem_update h.workers fun v _ => ?_,
      fun m hm => h.down m (mem_of_receive hdown hm), fun m hm => ?_⟩
    · exact ⟨hres.step ht, (Worker.status_of_transition hres hstatus ht).1⟩
    · rcases List.mem_append.1 hm with hm | hm
      · exact h.up m hm
      · obtain ⟨m, -, rfl⟩ := List.mem_map.1 hm
        exact payloadLen_message l.rest m

theorem sendable_init (workers : List (UInt32 × ℕ)) : (init workers).Sendable where
  coordinator := Coordinator.loopInv_init
  workers := by
    intro w hw
    obtain ⟨p, -, rfl⟩ := List.mem_map.1 hw
    exact ⟨Worker.reserveInv_create p.1 p.2, List.forall_mem_nil _⟩
  down := List.forall_mem_nil _
  up := List.forall_mem_nil _

theorem Sendable.logged_step {s t : Wire × List SystemEvent} (h : s.1.Sendable)
    (hs : logged Wire.step s l = some t) : t.1.Sendable := by
  obtain ⟨es, hstep, -⟩ := logged_eq_some_iff.1 hs
  exact h.step (transition_of_step hstep)

/-! ### The system of values follows -/

variable {workers : List (UInt32 × ℕ)} {labels : List WireLabel} {log : List SystemEvent}

theorem upAfter_system {up up' : List (UInt32 × Message)} {l : MessageLabel}
    (h : upAfter up l = some up') :
    System.upAfter (up.map fun m => (m.1, m.2.incoming)) l.label =
      some (up'.map fun m => (m.1, m.2.incoming)) := by
  cases l with
  | recv msg now registeredAt => cases msg <;> exact receive_map Message.incoming h
  | enqueue | internal | send | timeouts => exact receive_map Message.incoming h

theorem Sendable.downAfter_system (h : s.Sendable) {i : UInt32} {l : WireWorkerLabel}
    {down : List (UInt32 × Message)} (hl : l.valid = true)
    (hdown : downAfter i s.down l = some down) :
    System.downAfter i s.system.down l.label =
      some (down.map fun m => (m.1, (m.2.taskBatch fun _ => 0).getD [])) := by
  cases l with
  | step label rest =>
    cases label with
    | recv => cases hl
    | _ =>
      cases hdown
      rfl
  | recv msg behind =>
    cases msg with
    | none =>
      cases hdown
      rfl
    | some msg =>
      have hmem : (i, msg) ∈ s.down := (deliver_perm hdown).mem_iff.2 List.mem_cons_self
      show System.downAfter i s.system.down (.recv (msg.taskBatch behind)) = _
      rw [h.taskBatch_eq hmem behind]
      exact deliver_map (fun m => (m.taskBatch fun _ => 0).getD []) hdown

theorem map_taskBatch_sent {bs : List (UInt32 × List Task)}
    (h : ∀ b ∈ bs, b.2.length ≤ Coordinator.batchCapacity) :
    (bs.map fun b => (b.1, taskBatchMessage b.2)).map
      (fun m => (m.1, (m.2.taskBatch fun _ => 0).getD [])) = bs := by
  rw [List.map_map]
  refine (List.map_congr_left fun b hb => ?_).trans (List.map_id bs)
  refine Prod.ext rfl ?_
  show ((taskBatchMessage b.2).taskBatch fun _ => 0).getD [] = b.2
  rw [taskBatch_taskBatchMessage (h b hb)]
  rfl

/-- **Each step on the wire is a step of the system of values.** -/
theorem Sendable.step_system (h : s.Sendable) (hstep : s.step l = some (s', es)) :
    s.system.step l.label = some (s'.system, es) := by
  cases transition_of_step hstep with
  | @coordinator l c up es hup hc =>
    have hsent := h.coordinator.sentBatches_le (Coordinator.transition_of_step hc)
    have hdown : (s.down ++ (sentBatches es).map fun b => (b.1, taskBatchMessage b.2)).map
        (fun m => (m.1, (m.2.taskBatch fun _ => 0).getD [])) = s.system.down ++ sentBatches es := by
      rw [List.map_append, map_taskBatch_sent hsent]
      rfl
    show (System.upAfter (s.up.map fun m => (m.1, m.2.incoming)) l.label).bind _ = _
    rw [upAfter_system hup, Option.bind_some]
    show (s.coordinator.step l.label).map _ = _
    rw [hc, Option.map_some]
    refine congrArg (fun t => some (t, es.map SystemEvent.coordinator)) (Eq.symm ?_)
    rw [system, hdown]
    rfl
  | @worker i l w w' down es hl hw hdown hw' =>
    obtain ⟨hres, hstatus⟩ := h.workers w (mem_of_lookup hw)
    have hzero := (Worker.status_of_transition hres hstatus (Worker.transition_of_step hw')).2
    have hread : (sentMessages es).map (fun m => (i, (m.message l.rest).incoming)) =
        (sentMessages es).map (i, ·) := by
      refine List.map_congr_left fun m hm => congrArg (Prod.mk i) (incoming_message ?_ l.rest)
      exact fun r hr => hzero r (List.mem_flatMap.2 ⟨m, hm, hr⟩)
    have hup : (s.up ++ (sentMessages es).map fun m => (i, m.message l.rest)).map
        (fun m => (m.1, m.2.incoming)) = s.system.up ++ (sentMessages es).map (i, ·) := by
      rw [← hread, List.map_append, List.map_map]
      rfl
    show (lookup Worker.id i s.workers).bind _ = _
    rw [hw, Option.bind_some, h.downAfter_system hl hdown, Option.bind_some]
    show (w.step l.label).map _ = _
    rw [hw', Option.map_some]
    refine congrArg (fun t => some (t, es.map (SystemEvent.worker i))) (Eq.symm ?_)
    rw [system, hup]
    rfl

/-- **The messages mean what they should.** Every run on the wire is a run of the system of values,
with the same events: in its labels each message received is replaced by what the receiver reads of
it, and in its states each message in flight by what it stands for. -/
theorem wire_refines_system (h : Run (logged Wire.step) (init workers, []) labels (s, log)) :
    Run (logged System.step) (System.init workers, []) (labels.map WireLabel.label)
      (s.system, log) := by
  refine h.map (I := fun s => s.1.Sendable) (f := fun s => (s.1.system, s.2)) Sendable.logged_step
    (fun hs ht => ?_) (sendable_init workers)
  obtain ⟨es, hstep, hlog⟩ := logged_eq_some_iff.1 ht
  exact logged_eq_some_iff.2 ⟨es, hs.step_system hstep, hlog⟩

/-- Worker 5 registers, a task is enqueued and sent to it, and it takes the batch. -/
def oneBatch : List WireLabel :=
  [.worker 5 (.step (.register true 0) (.replicate 1068 0)),
    .coordinator (.recv (some (5, registrationMessage ⟨1, 10, 0⟩)) 0 0),
    .coordinator (.enqueue { taskId := 7 }), .coordinator .internal, .coordinator .internal,
    .coordinator .internal, .coordinator .internal, .coordinator (.send true fun _ => (0, 0)),
    .worker 5 (.step (.heartbeat 0 true) (.replicate 1068 0)),
    .worker 5 (.recv (some (taskBatchMessage [{ taskId := 7 }])) fun _ => 1)]

theorem wire_refines_system_oneBatch :
    ∃ s log, Run (logged Wire.step) (init [(5, 1)], []) oneBatch (s, log) ∧
      Run (logged System.step) (System.init [(5, 1)], []) (oneBatch.map WireLabel.label)
        (s.system, log) := by
  obtain ⟨⟨s, log⟩, hrun⟩ : ∃ s, Run (logged Wire.step) (init [(5, 1)], []) oneBatch s :=
    ⟨_, run_get (by decide)⟩
  exact ⟨s, log, hrun, wire_refines_system hrun⟩

/-- **No receiver reads outside a payload.** In every state of every run, the accesses of the
coordinator to a message in flight from a worker, and those of a worker to a message in flight from
the coordinator, are inside its payload, whatever is queued and whatever lies behind. -/
theorem wire_reads_inside (h : Run (logged Wire.step) (init workers, []) labels (s, log))
    (q : ValidQueue) (behind : ℕ → UInt8) :
    (∀ m ∈ s.down, ∀ a ∈ m.2.accesses .worker q behind, a.1 + a.2 ≤ m.2.payload.length) ∧
      ∀ m ∈ s.up, ∀ a ∈ m.2.accesses .coordinator q behind, a.1 + a.2 ≤ m.2.payload.length := by
  have hs : s.Sendable := h.invariant (I := fun s => s.1.Sendable) Sendable.logged_step
    (sendable_init workers)
  constructor
  · intro m hm
    obtain ⟨batch, hsize, hbatch⟩ := hs.down m hm
    have hlt := length_packBatch_lt hsize
    have hlen : (taskBatchMessage batch).header.payloadLen.toNat = (packBatch batch).length :=
      payloadLen_builtMessage hlt
    have htype : (taskBatchMessage batch).header.msgType = msgTypeTaskSubmit := rfl
    rw [length_packBatch] at hlt
    rw [hbatch, Message.accesses, if_pos htype, hlen]
    exact (run_unpackTaskSubmit_packBatch hlt q behind).2
  · intro m hm
    have hlen := hs.up m hm
    rw [Message.accesses, hlen]
    split
    · exact inBounds_decodeRegister
    · split
      · exact inBounds_decodeResult
      · exact List.forall_mem_nil _

/-- The batch of `oneBatch` while it is in flight. -/
theorem wire_reads_inside_oneBatch :
    ∃ s log, Run (logged Wire.step) (init [(5, 1)], []) (oneBatch.take 8) (s, log) ∧
      s.down.length = 1 ∧
      ∀ m ∈ s.down, ∀ a ∈ m.2.accesses .worker (.create Worker.queueConfig) (fun _ => 1),
        a.1 + a.2 ≤ m.2.payload.length := by
  obtain ⟨⟨s, log⟩, hrun, hone⟩ : ∃ s,
      Run (logged Wire.step) (init [(5, 1)], []) (oneBatch.take 8) s ∧ s.1.down.length = 1 :=
    ⟨_, run_get (by decide), by decide⟩
  exact ⟨s, log, hrun, hone, (wire_reads_inside hrun _ _).1⟩

end Wire

end DistributedComputing
