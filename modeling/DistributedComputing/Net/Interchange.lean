import DistributedComputing.Net.FrameSync
import DistributedComputing.Net.MpiTransport

/-!
# Delivery over either transport

The ZeroMQ transport sends a message in one piece: header and payload are frames of one multipart
message, which the coordinator's socket hands out behind the sender's identity. `ZmqNet` is the
workers' sends, on their way in the order of each sender, and the coordinator's receiver.

`delivered_along` puts the two transports side by side. Over both, a header never meets the payload
of another message. For ZeroMQ this rests on the receiver being at a message boundary before each
call, which messages that are sent keep (`conforms_frames`); for MPI on the pairing of the two
queues of a rank. Both need the same two things: that the coordinator finds memory for each message,
and that no payload has `2 ^ 31` bytes or more, which neither the counts of MPI nor the return value
of `zmq_recv` can express.
-/

namespace DistributedComputing

open FifoChannels StepRun

/-! ### Workers and coordinator over ZeroMQ -/

/-- The identity of a worker's socket. `generate_identity` writes it into a buffer of 64 bytes. -/
structure Identity where
  frame : Frame
  length_le : frame.length ≤ 63
  deriving DecidableEq

/-- The messages on their way from each worker, and the coordinator. -/
structure ZmqNet where
  outbox : Frame → List Multipart := fun _ => []
  receiver : Receiver

/-- A worker calls `transport_send`; one of its messages arrives at the coordinator; the coordinator
assigns its variable, or calls `transport_recv`. -/
inductive ZmqLabel
  | send (worker : Identity) (o : Outgoing)
  | arrive (worker : Identity)
  | assign (srcRank : Option ℤ)
  | recv (now : UInt64) (allocated : Bool)

/-- What is reported about the receiver. -/
def ReceiverEvent.event : ReceiverEvent → Event Frame Content
  | .returned sender message => .leave sender message.content

namespace ZmqNet

/-- A coordinator that has not received yet. -/
def start (srcRank : Option ℤ) : ZmqNet where
  receiver := .start .coordinator [] srcRank

/-- `transport_zmq_send` of a worker. -/
def send (s : ZmqNet) (worker : Identity) (o : Outgoing) : ZmqNet × List (Event Frame Content) :=
  if messageValidate o.message ≠ 0 then (s, [])
  else
    ({ s with
        outbox :=
          Function.update s.outbox worker.frame (s.outbox worker.frame ++ [o.message.frames]) },
      [.enter worker.frame o.content])

/-- A step of the receiver. -/
def receive (s : ZmqNet) (l : ReceiverLabel) : Option (ZmqNet × List (Event Frame Content)) :=
  (s.receiver.step l).map fun r => ({ s with receiver := r.1 }, r.2.map ReceiverEvent.event)

/-- One step. -/
def step (s : ZmqNet) : ZmqLabel → Option (ZmqNet × List (Event Frame Content))
  | .send worker o => some (s.send worker o)
  | .arrive worker =>
    match s.outbox worker.frame with
    | [] => none
    | m :: rest =>
      { s with outbox := Function.update s.outbox worker.frame rest }.receive
        (.arrive (m.from worker.frame))
  | .assign srcRank => s.receive (.assign srcRank)
  | .recv now allocated => s.receive (.recv now allocated)

/-- Nothing is on its way from a worker, or waits at the coordinator. -/
def Quiet (s : ZmqNet) (worker : Frame) : Prop :=
  s.outbox worker = [] ∧ ∀ m ∈ s.receiver.transport.socket.waiting, m.head ≠ worker

end ZmqNet

/-- Short payloads are sent, and every message can be allocated. -/
def ZmqLabel.Ordinary : ZmqLabel → Prop
  | .send _ o => o.payload.length < 2 ^ 31
  | .recv _ allocated => allocated = true
  | .arrive _ | .assign _ => True

/-! ### One call -/

namespace ZmqTransport

variable {z : ZmqTransport} {srcRank : Option ℤ} {now : UInt64} {socket : Socket}
  {identity : Frame} {o : Outgoing}

theorem deliverMessage_of_valid {msg : Message} (hvalid : messageValidate msg = 0) :
    (z.deliverMessage socket srcRank now identity msg).message = some msg ∧
      (z.deliverMessage socket srcRank now identity msg).transport.role = z.role := by
  rw [deliverMessage, if_neg (not_not_intro hvalid)]
  split
  · exact ⟨rfl, rfl⟩
  · exact ⟨rfl, rfl⟩

variable (z srcRank now identity) in
/-- The rest of a message is received as it was sent. -/
theorem recvPayload_of_sent (hshort : o.payload.length < 2 ^ 31) (waiting : List Multipart) :
    ∃ msg, msg.content = o.content ∧
      (z.recvPayload ⟨o.message.frames.more, waiting⟩ srcRank now identity
        o.message.header).message = some msg ∧
      (z.recvPayload ⟨o.message.frames.more, waiting⟩ srcRank now identity
        o.message.header).transport.role = z.role := by
  rcases eq_or_ne o.payload [] with hnil | hne
  · have hvalid : messageValidate ⟨o.message.header, [], 0⟩ = 0 :=
      o.messageValidate_eq_zero (by rw [hnil]; rfl)
    have hcontent : Message.content ⟨o.message.header, [], 0⟩ = o.content := by
      rw [Outgoing.content, hnil]
      rfl
    rw [recvPayload, if_pos (o.payloadLen_eq_zero_iff.2 hnil)]
    exact ⟨_, hcontent, deliverMessage_of_valid hvalid⟩
  · have hlen := mt o.payloadLen_eq_zero_iff.1 hne
    have hsize : ¬ recvSize o.payload ≠ o.payload.length :=
      not_not_intro (Nat.min_eq_left (Nat.le_sub_one_of_lt hshort))
    have hmore : o.message.frames.more = [o.payload] := if_pos hlen
    rw [recvPayload, if_neg hlen, hmore, o.toNat_payloadLen]
    dsimp only [Socket.recv]
    rw [if_neg hsize, List.take_length]
    exact ⟨_, rfl, deliverMessage_of_valid (o.messageValidate_eq_zero le_rfl)⟩

/-- **A call that finds a message** as it was sent returns its content. -/
theorem recv_of_sent (hrole : z.role = .coordinator) {waiting : List Multipart}
    (hs : z.socket = ⟨[], o.message.frames.from identity :: waiting⟩)
    (hid : identity.length ≤ 63) (hshort : o.payload.length < 2 ^ 31) :
    ∃ res msg, z.recv srcRank now true = some res ∧ res.transport.socket = ⟨[], waiting⟩ ∧
      res.transport.role = .coordinator ∧ res.message = some msg ∧ msg.content = o.content := by
  have hconf : (o.message.frames.from identity).Conforms true z.role :=
    hrole ▸ (conforms_frames o.message hid).2
  have hfound : ∃ res, z.recv srcRank now true = some res ∧ res.transport.socket = ⟨[], waiting⟩ :=
    recv_of_conforms hs hconf
  obtain ⟨res, hrecv, hsocket⟩ := hfound
  obtain ⟨msg, hcontent, hmsg, hrole'⟩ := recvPayload_of_sent z srcRank now identity hshort waiting
  have hres : z.recv srcRank now true = some (z.recvPayload ⟨o.message.frames.more, waiting⟩ srcRank
      now identity o.message.header) := by
    have hhead : o.message.frames.head = o.message.header.toBytes := rfl
    have hsize : ¬ o.message.header.toBytes.length ≠ MessageHeader.size :=
      not_not_intro o.message.header.length_toBytes
    rw [recv, hrole, hs]
    dsimp only [Socket.recv_waiting, Multipart.from]
    rw [if_neg (Nat.not_lt.2 hid), recvHeader]
    dsimp only [Socket.recv]
    rw [hhead, if_neg hsize, if_pos rfl, MessageHeader.ofBytes_toBytes]
  obtain rfl := Option.some.inj (hrecv.symm.trans hres)
  exact ⟨_, msg, hrecv, hsocket, hrole'.trans hrole, hmsg, hcontent⟩

end ZmqTransport

/-! ### Messages on their way -/

/-- The messages on their way from each worker: those that wait at the coordinator, and behind them
those that have not arrived. -/
def onTheWay (wait : List (Identity × Outgoing)) (out : Frame → List Outgoing) (worker : Frame) :
    List Outgoing :=
  (wait.filter fun p => p.1.frame = worker).map Prod.snd ++ out worker

section OnTheWay

variable {wait : List (Identity × Outgoing)} {out : Frame → List Outgoing} {worker : Identity}
  {o : Outgoing} {rest : List Outgoing}

theorem onTheWay_send :
    onTheWay wait (Function.update out worker.frame (out worker.frame ++ [o])) =
      Function.update (onTheWay wait out) worker.frame (onTheWay wait out worker.frame ++ [o]) := by
  funext w
  rcases eq_or_ne w worker.frame with rfl | hne
  · simp [onTheWay]
  · simp [onTheWay, hne]

theorem onTheWay_arrive (h : out worker.frame = o :: rest) :
    onTheWay (wait ++ [(worker, o)]) (Function.update out worker.frame rest) =
      onTheWay wait out := by
  funext w
  rcases eq_or_ne w worker.frame with rfl | hne
  · simp [onTheWay, h]
  · simp [onTheWay, hne, hne.symm]

variable (wait out worker o) in
/-- The first message that waits is the first on the way from its worker. -/
theorem fifo_recv :
    Fifo (fun w => (onTheWay ((worker, o) :: wait) out w).map (·.content))
      [.leave worker.frame o.content] fun w => (onTheWay wait out w).map (·.content) := by
  have hself : onTheWay ((worker, o) :: wait) out worker.frame =
      o :: onTheWay wait out worker.frame := by
    simp [onTheWay]
  have hrest : Function.update (onTheWay ((worker, o) :: wait) out) worker.frame
      (onTheWay wait out worker.frame) = onTheWay wait out := by
    funext w
    rcases eq_or_ne w worker.frame with rfl | hne
    · simp
    · simp [onTheWay, hne, hne.symm]
  have hfifo := fifo_leave (·.content) hself
  rwa [hrest] at hfifo

end OnTheWay

/-- The state carries these messages. -/
structure ZmqNet.Carries (s : ZmqNet) (wait : List (Identity × Outgoing))
    (out : Frame → List Outgoing) : Prop where
  synchronised : s.receiver.Synchronised
  role : s.receiver.transport.role = .coordinator
  waiting : s.receiver.transport.socket.waiting =
    wait.map fun p => p.2.message.frames.from p.1.frame
  outbox : ∀ worker, s.outbox worker = (out worker).map fun o => o.message.frames
  short_wait : ∀ p ∈ wait, p.2.payload.length < 2 ^ 31
  short_out : ∀ worker, ∀ o ∈ out worker, o.payload.length < 2 ^ 31

namespace ZmqNet

variable {s s' : ZmqNet} {wait : List (Identity × Outgoing)} {out : Frame → List Outgoing}

/-- The events lead from these messages to a state that carries the messages they leave on their
way. -/
def Leads (wait : List (Identity × Outgoing)) (out : Frame → List Outgoing)
    (r : ZmqNet × List (Event Frame Content)) : Prop :=
  ∃ wait' out', r.1.Carries wait' out' ∧
    Fifo (fun w => (onTheWay wait out w).map (·.content)) r.2
      fun w => (onTheWay wait' out' w).map (·.content)

theorem leads_send (h : s.Carries wait out) {worker : Identity} {o : Outgoing}
    (hshort : o.payload.length < 2 ^ 31) : Leads wait out (s.send worker o) := by
  have hvalid : ¬ messageValidate o.message ≠ 0 := not_not_intro (o.messageValidate_eq_zero o.fits)
  rw [send, if_neg hvalid]
  refine ⟨wait, Function.update out worker.frame (out worker.frame ++ [o]),
    ⟨h.synchronised, h.role, h.waiting, fun w => ?_, h.short_wait, fun w o' ho' => ?_⟩, ?_⟩
  · rcases eq_or_ne w worker.frame with rfl | hne
    · simp only [Function.update_self, h.outbox, List.map_append, List.map_singleton]
    · simp only [Function.update_of_ne hne, h.outbox]
  · rcases eq_or_ne w worker.frame with rfl | hne
    · rw [Function.update_self] at ho'
      rcases List.mem_append.1 ho' with hold | hnew
      · exact h.short_out _ o' hold
      · exact List.mem_singleton.1 hnew ▸ hshort
    · rw [Function.update_of_ne hne] at ho'
      exact h.short_out w o' ho'
  · rw [onTheWay_send]
    exact fifo_enter (·.content) _ worker.frame o

theorem leads_arrive (h : s.Carries wait out) {worker : Identity} {m : Multipart}
    {rest : List Multipart} (hout : s.outbox worker.frame = m :: rest)
    {r : ZmqNet × List (Event Frame Content)}
    (hs : { s with outbox := Function.update s.outbox worker.frame rest }.receive
      (.arrive (m.from worker.frame)) = some r) : Leads wait out r := by
  have hrun : ¬ s.receiver.faulted = true := Bool.eq_false_iff.1 h.synchronised.not_faulted
  rw [receive, Receiver.step, if_neg hrun] at hs
  obtain rfl := Option.some.inj hs
  obtain ⟨o, l, hl, rfl, rfl⟩ := List.map_eq_cons_iff.1 ((h.outbox worker.frame).symm.trans hout)
  have hshort : ∀ o' ∈ o :: l, o'.payload.length < 2 ^ 31 := hl ▸ h.short_out worker.frame
  refine ⟨wait ++ [(worker, o)], Function.update out worker.frame l,
    ⟨⟨h.synchronised.not_faulted, h.synchronised.current⟩, h.role, ?_, fun w => ?_, ?_, ?_⟩, ?_⟩
  · show s.receiver.transport.socket.waiting ++ [_] = _
    rw [h.waiting, List.map_append, List.map_singleton]
  · rcases eq_or_ne w worker.frame with rfl | hne
    · simp only [Function.update_self]
    · simp only [Function.update_of_ne hne, h.outbox]
  · intro p hp
    rcases List.mem_append.1 hp with hold | hnew
    · exact h.short_wait p hold
    · rw [List.mem_singleton.1 hnew]
      exact hshort o List.mem_cons_self
  · intro w o' ho'
    rcases eq_or_ne w worker.frame with rfl | hne
    · rw [Function.update_self] at ho'
      exact hshort o' (List.mem_cons_of_mem o ho')
    · rw [Function.update_of_ne hne] at ho'
      exact h.short_out w o' ho'
  · rw [onTheWay_arrive hl]
    exact fifo_nil _

theorem leads_recv (h : s.Carries wait out) {now : UInt64}
    {r : ZmqNet × List (Event Frame Content)}
    (hs : s.receive (.recv now true) = some r) : Leads wait out r := by
  have hrun : ¬ s.receiver.faulted = true := Bool.eq_false_iff.1 h.synchronised.not_faulted
  rw [receive, Receiver.step, if_neg hrun] at hs
  have hsocket : s.receiver.transport.socket =
      ⟨[], wait.map fun p => p.2.message.frames.from p.1.frame⟩ := by
    rw [← h.waiting, ← h.synchronised.current]
  rcases wait with - | ⟨⟨worker, o⟩, wait⟩
  · rw [ZmqTransport.recv_of_empty hsocket] at hs
    obtain rfl := Option.some.inj hs
    refine ⟨[], out, ⟨⟨h.synchronised.not_faulted, rfl⟩, h.role, rfl, h.outbox,
      List.forall_mem_nil _, h.short_out⟩, ?_⟩
    rw [Receiver.received, hsocket]
    exact fifo_nil _
  · have hcall : ∃ res msg, s.receiver.transport.recv s.receiver.srcRank now true = some res ∧
        res.transport.socket = ⟨[], wait.map fun p => p.2.message.frames.from p.1.frame⟩ ∧
        res.transport.role = .coordinator ∧ res.message = some msg ∧ msg.content = o.content :=
      ZmqTransport.recv_of_sent h.role hsocket worker.length_le (h.short_wait _ List.mem_cons_self)
    obtain ⟨res, msg, hrecv, hrest, hrole, hmsg, hcontent⟩ := hcall
    rw [hrecv] at hs
    obtain rfl := Option.some.inj hs
    refine ⟨wait, out, ⟨⟨h.synchronised.not_faulted, ?_⟩, hrole, ?_, h.outbox, ?_, h.short_out⟩, ?_⟩
    · exact congrArg Socket.current hrest
    · exact congrArg Socket.waiting hrest
    · exact fun p hp => h.short_wait p (List.mem_cons_of_mem _ hp)
    · rw [Receiver.received, hsocket, hmsg]
      show Fifo _ [.leave worker.frame msg.content] _
      rw [hcontent]
      exact fifo_recv wait out worker o

/-- **One step** moves the messages on their way as its events say. -/
theorem leads_step (h : s.Carries wait out) {l : ZmqLabel} (hl : l.Ordinary)
    {r : ZmqNet × List (Event Frame Content)} (hs : s.step l = some r) : Leads wait out r := by
  cases l with
  | send worker o => exact Option.some.inj hs ▸ leads_send h hl
  | arrive worker =>
    rcases hout : s.outbox worker.frame with - | ⟨m, rest⟩
    · simp only [step, hout] at hs
      exact absurd hs nofun
    · simp only [step, hout] at hs
      exact leads_arrive h hout hs
  | assign srcRank =>
    have hrun : ¬ s.receiver.faulted = true := Bool.eq_false_iff.1 h.synchronised.not_faulted
    rw [step, receive, Receiver.step, if_neg hrun] at hs
    obtain rfl := Option.some.inj hs
    exact ⟨wait, out, ⟨⟨h.synchronised.not_faulted, h.synchronised.current⟩, h.role, h.waiting,
      h.outbox, h.short_wait, h.short_out⟩, fifo_nil _⟩
  | recv now allocated =>
    obtain rfl : allocated = true := hl
    exact leads_recv h hs

/-- What runs keep: some messages are on their way, and the log leads to them. -/
def Carrying (s : ZmqNet × List (Event Frame Content)) : Prop :=
  ∃ wait out, s.1.Carries wait out ∧
    Fifo (fun _ => []) s.2 fun worker => (onTheWay wait out worker).map (·.content)

theorem Carrying.step {s t : ZmqNet × List (Event Frame Content)} {l : ZmqLabel} (h : Carrying s)
    (hl : l.Ordinary) (hs : logged ZmqNet.step s l = some t) : Carrying t := by
  obtain ⟨wait, out, hcarries, hfifo⟩ := h
  obtain ⟨es, hstep, hlog⟩ := logged_eq_some_iff.1 hs
  obtain ⟨wait', out', hcarries', hfifo'⟩ := leads_step hcarries hl hstep
  exact ⟨wait', out', hcarries', hlog ▸ hfifo.append hfifo'⟩

theorem Carrying.delivered {s : ZmqNet × List (Event Frame Content)} (h : Carrying s) :
    Delivered s.1.Quiet s.2 := by
  obtain ⟨wait, out, hcarries, hfifo⟩ := h
  refine hfifo.delivered fun worker ⟨hout, hwaiting⟩ => List.map_eq_nil_iff.2 ?_
  have hnone : wait.filter (fun p => p.1.frame = worker) = [] := by
    refine List.filter_eq_nil_iff.2 fun p hp heq => ?_
    refine hwaiting (p.2.message.frames.from p.1.frame) ?_ (of_decide_eq_true heq)
    rw [hcarries.waiting]
    exact List.mem_map_of_mem hp
  have hempty : out worker = [] :=
    List.map_eq_nil_iff.1 ((hcarries.outbox worker).symm.trans hout)
  rw [onTheWay, hnone, hempty]
  rfl

/-- **Delivery over ZeroMQ.** -/
theorem delivered_along_of_ordinary {srcRank : Option ℤ} {labels : List ZmqLabel}
    (hl : ∀ l ∈ labels, l.Ordinary) :
    Along (logged step) (fun s => Delivered s.1.Quiet s.2) (start srcRank, []) labels := by
  have hinit : Carrying (start srcRank, []) :=
    ⟨[], fun _ => [], ⟨⟨rfl, rfl⟩, rfl, rfl, fun _ => rfl, nofun, nofun⟩, fifo_nil _⟩
  exact (along_of_labels Carrying.step hinit hl).mono Carrying.delivered

end ZmqNet

/-! ### Both transports -/

/-- **Delivery over either transport.** For any number of workers, in every run in which the
payloads that are sent have less than `2 ^ 31` bytes and the coordinator can allocate each message,
and in every state of it, what was received from a sender is a beginning of what it sent, and all of
it when nothing is on its way from it. -/
theorem delivered_along {mpiLabels : List MpiLabel} {zmqLabels : List ZmqLabel}
    (srcRank : Option ℤ) (hmpi : ∀ l ∈ mpiLabels, l.Ordinary) (hzmq : ∀ l ∈ zmqLabels, l.Ordinary) :
    Along (logged MpiNet.step) (fun s => Delivered s.1.Quiet s.2) ({}, []) mpiLabels ∧
      Along (logged ZmqNet.step) (fun s => Delivered s.1.Quiet s.2) (ZmqNet.start srcRank, [])
        zmqLabels :=
  ⟨MpiNet.delivered_along_of_ordinary hmpi, ZmqNet.delivered_along_of_ordinary hzmq⟩

/-- The worker `A`. -/
def workerA : Identity := ⟨[65], by decide⟩

/-- A worker sends two results over either transport, and both are received. -/
theorem delivered_along_twoResults :
    Along (logged MpiNet.step) (fun s => Delivered s.1.Quiet s.2) ({}, [])
        (MpiNet.twoResults ++ [.recv 1 true, .recvPayload fun _ => 0, .recv 1 true,
          .recvPayload fun _ => 0]) ∧
      Along (logged ZmqNet.step) (fun s => Delivered s.1.Quiet s.2) (ZmqNet.start none, [])
        [.send workerA (MpiNet.oneByte 1 10), .send workerA (MpiNet.oneByte 2 20), .arrive workerA,
          .arrive workerA, .recv 0 true, .recv 0 true] :=
  delivered_along none
    (by simp [MpiNet.twoResults, MpiLabel.Ordinary, MpiNet.oneByte])
    (by simp [ZmqLabel.Ordinary, MpiNet.oneByte])

end DistributedComputing
