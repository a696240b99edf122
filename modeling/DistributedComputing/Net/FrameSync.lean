import DistributedComputing.Net.ZmqReceive

/-!
# Staying in step with the frames

`transport_zmq_recv` never asks the socket whether a message has more frames, and none of its early
returns skips the rest of the message it was reading. How many frames a call takes is decided by the
frames it reads (`framesTaken`), not by where the message ends. A message with more frames than the
call expects leaves the rest for the next call, and one with fewer makes the call read on in the
message behind it.

So a receiver that is at a message boundary is at one after the call exactly if the message it finds
has the number of frames that the call expects of it, or fewer with nothing behind it
(`Multipart.TakenWhole`). `synchronised_along_iff` says so for every sequence of calls on every
input.

Contents do not matter for it: bad magic, version or payload size are rejected with all frames read.
All that `transport_zmq_send` puts on the wire has the expected frames (`conforms_frames`). A
message with a short header and a payload does not, and its payload is taken for the next identity
(`synchronised_fails_on_short_header`).
-/

namespace DistributedComputing

open StepRun

/-! ### Frames in order -/

/-- The frames of a message. -/
def Multipart.frames (m : Multipart) : List Frame := m.head :: m.more

namespace Socket

/-- The unread frames. -/
def frames (s : Socket) : List Frame := s.current ++ s.waiting.flatMap Multipart.frames

/-- The socket after the next `n` frames, or after all there are. -/
def skip : Socket → ℕ → Socket
  | s, 0 => s
  | s, n + 1 =>
    match s.recv with
    | none => s
    | some (_, t) => t.skip n

variable {s t : Socket} {f : Frame}

theorem frames_of_recv_none (h : s.recv = none) : s.frames = [] := by
  obtain ⟨_ | ⟨f, current⟩, _ | ⟨m, waiting⟩⟩ := s
  · rfl
  · exact absurd h nofun
  · exact absurd h nofun
  · exact absurd h nofun

theorem frames_of_recv_some (h : s.recv = some (f, t)) : s.frames = f :: t.frames := by
  obtain ⟨_ | ⟨f, current⟩, _ | ⟨m, waiting⟩⟩ := s
  · exact absurd h nofun
  · obtain ⟨rfl, rfl⟩ := h
    rfl
  · obtain ⟨rfl, rfl⟩ := h
    rfl
  · obtain ⟨rfl, rfl⟩ := h
    rfl

theorem skip_of_recv_some (h : s.recv = some (f, t)) (n : ℕ) : s.skip (n + 1) = t.skip n := by
  rw [skip, h]

@[simp] theorem skip_nothing (n : ℕ) : skip ⟨[], []⟩ n = ⟨[], []⟩ := by
  cases n <;> rfl

theorem skip_current {current : List Frame} {n : ℕ} (h : n < current.length)
    (waiting : List Multipart) : skip ⟨current, waiting⟩ n = ⟨current.drop n, waiting⟩ := by
  induction n generalizing current with
  | zero => rfl
  | succ n ih =>
    obtain ⟨f, rest, rfl⟩ := List.exists_cons_of_length_pos (Nat.zero_lt_of_lt h)
    exact ih (Nat.lt_of_succ_lt_succ h)

theorem skip_length_add (current : List Frame) (waiting : List Multipart) (n : ℕ) :
    skip ⟨current, waiting⟩ (current.length + n) = skip ⟨[], waiting⟩ n := by
  induction current with
  | nil => rw [List.length_nil, Nat.zero_add]
  | cons f rest ih =>
    rw [List.length_cons, Nat.add_right_comm]
    exact ih

theorem length_waiting_skip_le (s : Socket) (n : ℕ) :
    (s.skip n).waiting.length ≤ s.waiting.length := by
  induction n generalizing s with
  | zero => exact Nat.le_refl _
  | succ n ih =>
    obtain ⟨_ | ⟨f, current⟩, _ | ⟨m, waiting⟩⟩ := s
    · exact Nat.le_refl _
    · exact (ih ⟨m.more, waiting⟩).trans (Nat.le_succ _)
    · exact ih ⟨current, []⟩
    · exact ih ⟨current, m :: waiting⟩

/-- **One message and no other.** Skipping `n` frames ends behind the message that was begun exactly
if it has `n` frames left, or fewer and nothing waits behind it. -/
theorem skip_eq_iff (current : List Frame) (waiting : List Multipart) (n : ℕ) :
    skip ⟨current, waiting⟩ n = ⟨[], waiting⟩ ↔
      current.length = n ∨ current.length < n ∧ waiting = [] := by
  rcases Nat.lt_or_ge n current.length with hlt | hge
  · rw [skip_current hlt]
    refine iff_of_false (fun h => ?_) (by omega)
    exact absurd (List.drop_eq_nil_iff.1 (congrArg Socket.current h)) (Nat.not_le.2 hlt)
  · obtain ⟨n, rfl⟩ := Nat.exists_eq_add_of_le hge
    rw [skip_length_add]
    cases n with
    | zero => exact iff_of_true rfl (.inl rfl)
    | succ n =>
      cases waiting with
      | nil => exact iff_of_true (skip_nothing _) (.inr ⟨by omega, rfl⟩)
      | cons m waiting =>
        refine iff_of_false (fun h => ?_) ?_
        · -- a frame of the message behind has been read
          rw [skip_of_recv_some (recv_waiting m waiting)] at h
          have hle := length_waiting_skip_le ⟨m.more, waiting⟩ n
          rw [h] at hle
          exact absurd hle (Nat.not_succ_le_self _)
        · rintro (h | ⟨-, h⟩)
          · omega
          · cases h

end Socket

/-! ### The frames a call takes -/

/-- The frames that are read after a header frame. -/
def framesAfterHeader (allocated : Bool) (frame : Frame) : ℕ :=
  if frame.length = MessageHeader.size ∧ allocated = true ∧
    (MessageHeader.ofBytes frame).payloadLen ≠ 0 then 1 else 0

/-- The frames that are read from the header frame on. -/
def framesFromHeader (allocated : Bool) : List Frame → ℕ
  | [] => 0
  | frame :: _ => framesAfterHeader allocated frame + 1

/-- The frames that a call reads, given the frames on the socket. -/
def framesTaken (allocated : Bool) : TransportRole → List Frame → ℕ
  | .worker, frames => framesFromHeader allocated frames
  | .coordinator, [] => 0
  | .coordinator, _ :: frames => framesFromHeader allocated frames + 1

/-- The identity frame does not fit the buffer. -/
def IdentityOverflows : TransportRole → List Frame → Prop
  | .coordinator, identity :: _ => 63 < identity.length
  | _, _ => False

namespace ZmqTransport

variable {z : ZmqTransport} {srcRank : Option ℤ} {now : UInt64} {allocated : Bool}
  {socket : Socket} {identity : Frame}

@[simp] theorem socket_deliverMessage (socket : Socket) (identity : Frame) (message : Message) :
    (z.deliverMessage socket srcRank now identity message).transport.socket = socket := by
  rw [deliverMessage]
  split
  · rfl
  · split <;> rfl

theorem socket_recvPayload {header : MessageHeader} :
    (z.recvPayload socket srcRank now identity header).transport.socket =
      socket.skip (if header.payloadLen ≠ 0 then 1 else 0) := by
  rw [recvPayload]
  split
  · next hzero =>
    rw [if_neg (not_not_intro hzero), socket_deliverMessage]
    rfl
  · rw [Socket.skip]
    rcases socket.recv with - | ⟨payload, rest⟩
    · rfl
    · dsimp only
      split
      · rfl
      · rw [socket_deliverMessage]
        rfl

theorem socket_recvHeader :
    (z.recvHeader socket srcRank now allocated identity).transport.socket =
      socket.skip (framesFromHeader allocated socket.frames) := by
  rw [recvHeader]
  rcases hr : socket.recv with - | ⟨frame, rest⟩
  · rw [Socket.frames_of_recv_none hr]
    rfl
  · rw [Socket.frames_of_recv_some hr, framesFromHeader, Socket.skip_of_recv_some hr,
      framesAfterHeader]
    dsimp only
    split
    · next hsize =>
      rw [if_neg fun hall => hsize hall.1]
      rfl
    · next hsize =>
      split
      · next halloc =>
        simp only [not_not.1 hsize, halloc, true_and]
        exact socket_recvPayload
      · next halloc =>
        rw [if_neg fun hall => halloc hall.2.1]
        rfl

/-- **One call** writes outside the identity buffer, or takes its frames off the socket. -/
theorem recv_cases (z : ZmqTransport) (srcRank : Option ℤ) (now : UInt64) (allocated : Bool) :
    (IdentityOverflows z.role z.socket.frames ∧ z.recv srcRank now allocated = none) ∨
      (¬ IdentityOverflows z.role z.socket.frames ∧
        ∃ res, z.recv srcRank now allocated = some res ∧
          res.transport.socket = z.socket.skip (framesTaken allocated z.role z.socket.frames)) := by
  rw [recv]
  rcases z.role with - | -
  · rcases hr : z.socket.recv with - | ⟨identity, rest⟩
    · rw [Socket.frames_of_recv_none hr]
      exact .inr ⟨id, _, rfl, rfl⟩
    · rw [Socket.frames_of_recv_some hr, framesTaken, Socket.skip_of_recv_some hr]
      dsimp only
      split
      · next hlong => exact .inl ⟨hlong, rfl⟩
      · next hfits => exact .inr ⟨hfits, _, rfl, socket_recvHeader⟩
  · refine .inr ⟨?_, _, rfl, socket_recvHeader⟩
    exact id

end ZmqTransport

/-! ### Messages that are taken as a whole -/

/-- The frames that a call expects behind the first frame of a message. -/
def Multipart.expected (m : Multipart) (allocated : Bool) : TransportRole → ℕ
  | .worker => framesAfterHeader allocated m.head
  | .coordinator =>
    match m.more with
    | [] => 1
    | frame :: _ => framesAfterHeader allocated frame + 1

/-- The identity frame, if the role has one, fits the buffer. -/
def Multipart.Fits (m : Multipart) (role : TransportRole) : Prop :=
  role = .coordinator → m.head.length ≤ 63

/-- The messages all of whose frames are read in one call, whatever waits behind them. -/
structure Multipart.Conforms (m : Multipart) (allocated : Bool) (role : TransportRole) : Prop where
  fits : m.Fits role
  length_more : m.more.length = m.expected allocated role

/-- The messages that are read in one call, with `waiting` behind them: the frames that a call
expects are there, or those that are missing are not looked for in another message. -/
structure Multipart.TakenWhole (m : Multipart) (waiting : List Multipart) (allocated : Bool)
    (role : TransportRole) : Prop where
  fits : m.Fits role
  length_more : m.more.length = m.expected allocated role ∨
    m.more.length < m.expected allocated role ∧ waiting = []

variable {m : Multipart} {allocated : Bool} {role : TransportRole}

theorem Multipart.Conforms.takenWhole (h : m.Conforms allocated role) (waiting : List Multipart) :
    m.TakenWhole waiting allocated role :=
  ⟨h.fits, .inl h.length_more⟩

theorem identityOverflows_iff (m : Multipart) (role : TransportRole) (frames : List Frame) :
    IdentityOverflows role (m.frames ++ frames) ↔ ¬ m.Fits role := by
  cases role with
  | worker => exact iff_of_false id fun h => h nofun
  | coordinator =>
    refine ⟨fun hlong hfits => absurd (hfits rfl) (Nat.not_le.2 hlong), fun h => ?_⟩
    exact Nat.not_le.1 fun hle => h fun _ => hle

/-- **The frames of one call** end behind the message it finds exactly if those expected are there,
or there are no others. -/
theorem skip_framesTaken_iff (m : Multipart) (waiting : List Multipart) (allocated : Bool)
    (role : TransportRole) :
    Socket.skip ⟨[], m :: waiting⟩ (framesTaken allocated role
        (m.frames ++ waiting.flatMap Multipart.frames)) = ⟨[], waiting⟩ ↔
      m.more.length = m.expected allocated role ∨
        m.more.length < m.expected allocated role ∧ waiting = [] := by
  obtain ⟨head, more⟩ := m
  cases role with
  | worker => exact Socket.skip_eq_iff more waiting _
  | coordinator =>
    cases more with
    | cons frame rest => exact Socket.skip_eq_iff (frame :: rest) waiting _
    | nil =>
      -- the header is looked for in the message behind
      cases waiting with
      | nil => exact iff_of_true rfl (.inr ⟨Nat.one_pos, rfl⟩)
      | cons m' waiting =>
        refine (Socket.skip_eq_iff [] (m' :: waiting) _).trans (iff_of_false ?_ ?_)
        · rintro (h | ⟨-, h⟩)
          · cases h
          · cases h
        · rintro (h | ⟨-, h⟩)
          · cases h
          · cases h

/-- The frames `transport_zmq_send` puts on the wire, for a message with a payload of the announced
length. A worker's messages reach the coordinator behind its identity. -/
def Message.frames (msg : Message) : Multipart :=
  ⟨msg.header.toBytes, if msg.header.payloadLen ≠ 0 then [msg.payload] else []⟩

/-- The message as the coordinator's socket hands it out. -/
def Multipart.from (m : Multipart) (identity : Frame) : Multipart := ⟨identity, m.head :: m.more⟩

theorem framesAfterHeader_toBytes (h : MessageHeader) :
    framesAfterHeader true h.toBytes = if h.payloadLen ≠ 0 then 1 else 0 := by
  rw [framesAfterHeader, MessageHeader.ofBytes_toBytes]
  simp only [h.length_toBytes, true_and]

theorem length_more_frames (msg : Message) :
    msg.frames.more.length = if msg.header.payloadLen ≠ 0 then 1 else 0 := by
  rw [Message.frames]
  split <;> rfl

/-- **What is sent conforms**, to a worker and, under an identity that fits the buffer, to the
coordinator. -/
theorem conforms_frames (msg : Message) {identity : Frame} (hid : identity.length ≤ 63) :
    msg.frames.Conforms true .worker ∧ (msg.frames.from identity).Conforms true .coordinator := by
  have hlen : msg.frames.more.length = framesAfterHeader true msg.header.toBytes := by
    rw [length_more_frames, framesAfterHeader_toBytes]
  exact ⟨⟨nofun, hlen⟩, ⟨fun _ => hid, congrArg (· + 1) hlen⟩⟩

namespace ZmqTransport

variable {z : ZmqTransport} {srcRank : Option ℤ} {now : UInt64} {waiting : List Multipart}

/-- **One call** of a receiver at a message boundary writes outside the identity buffer, or returns
behind the message it finds exactly if that has the expected frames. -/
theorem recv_of_waiting (srcRank : Option ℤ) (now : UInt64) (allocated : Bool)
    (hs : z.socket = ⟨[], m :: waiting⟩) :
    (¬ m.Fits z.role ∧ z.recv srcRank now allocated = none) ∨
      (m.Fits z.role ∧ ∃ res, z.recv srcRank now allocated = some res ∧
        (res.transport.socket = ⟨[], waiting⟩ ↔ m.TakenWhole waiting allocated z.role)) := by
  have hframes : z.socket.frames = m.frames ++ waiting.flatMap Multipart.frames := by rw [hs]; rfl
  have hcases := z.recv_cases srcRank now allocated
  rw [hframes, identityOverflows_iff, not_not] at hcases
  rcases hcases with hover | ⟨hfits, res, hrecv, hsocket⟩
  · exact .inl hover
  · refine .inr ⟨hfits, res, hrecv, ?_⟩
    rw [hsocket, hs, skip_framesTaken_iff]
    exact ⟨fun h => ⟨hfits, h⟩, fun h => h.length_more⟩

theorem recv_of_conforms (hs : z.socket = ⟨[], m :: waiting⟩) (hm : m.Conforms allocated z.role) :
    ∃ res, z.recv srcRank now allocated = some res ∧ res.transport.socket = ⟨[], waiting⟩ := by
  rcases recv_of_waiting srcRank now allocated hs with ⟨hlong, -⟩ | ⟨-, res, hrecv, hiff⟩
  · exact absurd hm.fits hlong
  · exact ⟨res, hrecv, hiff.2 (hm.takenWhole waiting)⟩

theorem recv_of_empty (hs : z.socket = ⟨[], []⟩) :
    z.recv srcRank now allocated = some (z.returnNull ⟨[], []⟩ srcRank) := by
  rw [recv, hs]
  rcases z.role with - | - <;> rfl

end ZmqTransport

/-! ### Calls in sequence -/

namespace Receiver

/-- The next unread frame, if there is one, is the first frame of a message. -/
structure Synchronised (r : Receiver) : Prop where
  not_faulted : r.faulted = false
  current : r.transport.socket.current = []

/-- A call finds no message, or one that it takes as a whole. -/
def NextTakenWhole (r : Receiver) : ReceiverLabel → Prop
  | .arrive _ | .assign _ => True
  | .recv _ allocated =>
    ∀ m waiting, r.transport.socket.waiting = m :: waiting →
      m.TakenWhole waiting allocated r.transport.role

/-- A call finds no message, or one that conforms. -/
def NextConforms (r : Receiver) : ReceiverLabel → Prop
  | .arrive _ | .assign _ => True
  | .recv _ allocated =>
    ∀ m ∈ r.transport.socket.waiting.head?, m.Conforms allocated r.transport.role

/-- A step without its report. -/
def next (r : Receiver) (l : ReceiverLabel) : Option Receiver := (r.step l).map Prod.fst

/-- A call takes frames of the next message only, if there is one. -/
def ReadsOneMessage (r : Receiver) : ReceiverLabel → Prop
  | .arrive _ | .assign _ => True
  | .recv now allocated => ∀ r', r.next (.recv now allocated) = some r' →
      r'.transport.socket.waiting = r.transport.socket.waiting.tail

variable {r r' : Receiver} {l : ReceiverLabel}

theorem Synchronised.socket_eq (h : r.Synchronised) :
    r.transport.socket = ⟨[], r.transport.socket.waiting⟩ := by
  rw [← h.current]

/-- **One step** of a synchronised receiver. -/
theorem Synchronised.next_iff (h : r.Synchronised) (hs : r.next l = some r') :
    r'.Synchronised ∧ r.ReadsOneMessage l ↔ r.NextTakenWhole l := by
  have hrun : ¬ r.faulted = true := Bool.eq_false_iff.1 h.not_faulted
  have hstep := hs
  rw [Receiver.next] at hstep
  cases l with
  | arrive | assign =>
    rw [step, if_neg hrun] at hstep
    obtain rfl := Option.some.inj hstep
    exact iff_of_true ⟨⟨h.not_faulted, h.current⟩, trivial⟩ trivial
  | recv now allocated =>
    rw [step, if_neg hrun] at hstep
    have hreads : r.ReadsOneMessage (.recv now allocated) ↔
        r'.transport.socket.waiting = r.transport.socket.waiting.tail := by
      simp only [ReadsOneMessage, hs, Option.some.injEq, forall_eq']
    rcases hw : r.transport.socket.waiting with - | ⟨m, waiting⟩
    · have hsocket := h.socket_eq
      rw [hw] at hsocket
      rw [ZmqTransport.recv_of_empty hsocket] at hstep
      obtain rfl := Option.some.inj hstep
      rw [hreads, hw]
      refine iff_of_true ⟨⟨h.not_faulted, rfl⟩, rfl⟩ fun m waiting hcons => ?_
      rw [hw] at hcons
      cases hcons
    · have hwhole : r.NextTakenWhole (.recv now allocated) ↔
          m.TakenWhole waiting allocated r.transport.role := by
        refine ⟨fun hall => hall m waiting hw, fun hm m' waiting' hw' => ?_⟩
        obtain ⟨rfl, rfl⟩ := List.cons.inj (hw.symm.trans hw')
        exact hm
      have hsocket := h.socket_eq
      rw [hw] at hsocket
      rw [hwhole, hreads, hw]
      rcases ZmqTransport.recv_of_waiting r.srcRank now allocated hsocket with
        ⟨hlong, hrecv⟩ | ⟨-, res, hrecv, hiff⟩
      · rw [hrecv] at hstep
        obtain rfl := Option.some.inj hstep
        exact iff_of_false (fun hsync => Bool.false_ne_true hsync.1.not_faulted.symm)
          fun hm => hlong hm.fits
      · rw [hrecv] at hstep
        obtain rfl := Option.some.inj hstep
        rw [← hiff]
        constructor
        · rintro ⟨hsync, hone⟩
          exact hsync.socket_eq.trans (congrArg (Socket.mk []) hone)
        · intro hsocket'
          exact ⟨⟨h.not_faulted, congrArg Socket.current hsocket'⟩,
            congrArg Socket.waiting hsocket'⟩

theorem NextConforms.takenWhole (hl : r.NextConforms l) : r.NextTakenWhole l := by
  cases l with
  | arrive | assign => trivial
  | recv now allocated =>
    intro m waiting hw
    exact (hl m (by rw [hw]; rfl)).takenWhole waiting

theorem Synchronised.next (h : r.Synchronised) (hl : r.NextConforms l) (hs : r.next l = some r') :
    r'.Synchronised :=
  ((h.next_iff hs).2 hl.takenWhole).1

/-- **Synchronisation.** Whatever waits on the socket of either role, whatever arrives later and
whatever can be allocated: a receiver is at a message boundary after every call, and no call reads
frames of two messages, exactly if every call takes the message it finds as a whole. -/
theorem synchronised_along_iff {role : TransportRole} {waiting : List Multipart}
    {srcRank : Option ℤ} {labels : List ReceiverLabel} :
    Along next Synchronised (start role waiting srcRank) labels ∧
        Meets next ReadsOneMessage (start role waiting srcRank) labels ↔
      Meets next NextTakenWhole (start role waiting srcRank) labels :=
  along_and_meets_iff (I := fun _ => True) (fun _ _ _ _ _ => trivial)
    (fun _ hsync _ hs => hsync.next_iff hs) meets_true trivial ⟨rfl, rfl⟩

/-- A registration with a payload, as a worker sends it. -/
def registerMessage : Message :=
  ⟨⟨messageMagic, envelopeVersion, msgTypeWorkerRegister, 0, 4⟩, [1, 0, 0, 0], 4⟩

/-- A header of three bytes, with a payload behind it. The call returns at the header, and the
payload is the next frame on the socket: the next call takes it for an identity. -/
theorem synchronised_fails_on_short_header :
    ¬ Along next Synchronised (start .coordinator [⟨[65], [[1, 2, 3], [66]]⟩] (some 0))
      [.recv 0 true] := by
  intro h
  exact absurd h.2.current (by decide)

end Receiver

end DistributedComputing
