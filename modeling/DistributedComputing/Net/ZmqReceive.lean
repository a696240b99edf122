import DistributedComputing.Foundations.KeyedTable
import DistributedComputing.Foundations.StepRun
import DistributedComputing.Net.Message

/-!
# Receiving over ZeroMQ

A model of `transport_zmq_recv` down to the frames it takes off the socket. A socket holds multipart
messages; `zmq_recv` takes the next frame, whatever message it belongs to, and fails if there is
none before the timeout. A call reads an identity frame (coordinator only), a header frame and, if
the header announces one, a payload frame; it can return early between any two of them, and then
leaves the rest of the message where it is.

Three points of the representation:

* `zmq_recv` copies what fits into the buffer and returns the **full** size of the frame, as far as
  an `int` can hold it (`recvSize`; of the three sizes only a payload's can be larger). The identity
  buffer has 64 bytes, and the terminating zero is written at the returned size, so an identity
  frame of more than 63 bytes writes outside the array: `recv` returns `none`, and the receiver is
  `faulted`;
* identities are compared with `strcmp` and stored with `strncpy`, so everything from the first zero
  byte on is cut off (`cString`);
* `src_rank` is the caller's variable, `none` for a null pointer. It keeps its value from call to
  call unless the caller assigns one, which the coordinator's loop never does.

The readings of the clock and the success of the allocation are arguments. Statistics are left out.
-/

namespace DistributedComputing

open Bytes StepRun

/-! ### The socket -/

/-- A message of one or more frames. -/
structure Multipart where
  head : Frame
  more : List Frame := []
  deriving DecidableEq, Repr

/-- The unread frames: those left of a message that was begun, and the messages behind it. -/
structure Socket where
  current : List Frame := []
  waiting : List Multipart := []
  deriving DecidableEq, Repr

/-- The size that `zmq_recv` returns for a frame. It is an `int`, and stays at `INT_MAX` for a
larger frame. -/
def recvSize (f : Frame) : ℕ := min f.length (2 ^ 31 - 1)

/-- `zmq_recv`: the next frame, if there is one. -/
def Socket.recv (s : Socket) : Option (Frame × Socket) :=
  match s.current, s.waiting with
  | f :: current, waiting => some (f, ⟨current, waiting⟩)
  | [], m :: waiting => some (m.head, ⟨m.more, waiting⟩)
  | [], [] => none

@[simp] theorem Socket.recv_waiting (m : Multipart) (waiting : List Multipart) :
    Socket.recv ⟨[], m :: waiting⟩ = some (m.head, ⟨m.more, waiting⟩) := rfl

/-! ### The registry -/

/-- `worker_entry_t`. -/
structure WorkerEntry where
  identity : List UInt8
  lastHeartbeat : UInt64
  active : Bool := true
  deriving DecidableEq, Repr

/-- The index of the first entry with the identity. -/
def registryIndex (workers : List WorkerEntry) (identity : List UInt8) : Option ℕ :=
  workers.findIdx? fun w => w.identity = identity

/-- `MAX_WORKERS` of the transport. -/
def maxRegistered : ℕ := 1024

/-- `zmq_register_worker`. -/
def registerIdentity (workers : List WorkerEntry) (identity : List UInt8) (now : UInt64) :
    ℤ × List WorkerEntry :=
  match registryIndex workers identity with
  | some i =>
    (i, KeyedTable.update WorkerEntry.identity identity
      (fun w => { w with lastHeartbeat := now, active := true }) workers)
  | none =>
    if maxRegistered ≤ workers.length then (-1, workers)
    else (workers.length, workers ++ [{ identity, lastHeartbeat := now }])

/-- `zmq_update_heartbeat`. -/
def updateIdentity (workers : List WorkerEntry) (identity : List UInt8) (now : UInt64) :
    List WorkerEntry :=
  KeyedTable.update WorkerEntry.identity identity (fun w => { w with lastHeartbeat := now }) workers

/-! ### One call -/

/-- `transport_role_t`. -/
inductive TransportRole
  | coordinator
  | worker
  deriving DecidableEq, Repr

/-- `struct zmq_transport`, the part that receiving reads and writes. -/
structure ZmqTransport where
  role : TransportRole
  workers : List WorkerEntry := []
  socket : Socket := {}
  deriving DecidableEq, Repr

/-- What a call leaves behind, and what it returns. -/
structure Received where
  transport : ZmqTransport
  srcRank : Option ℤ
  message : Option Message
  deriving DecidableEq, Repr

namespace ZmqTransport

/-- An early return. -/
def returnNull (z : ZmqTransport) (socket : Socket) (srcRank : Option ℤ) : Received :=
  ⟨{ z with socket }, srcRank, none⟩

/-- `*src_rank = i`, unless it is a null pointer. -/
def setRank (srcRank : Option ℤ) (i : ℤ) : Option ℤ := srcRank.map fun _ => i

/-- The message types that change the registry: a registration also sets `*src_rank`. -/
def noteSender (workers : List WorkerEntry) (identity : List UInt8) (msgType : UInt16)
    (now : UInt64) (srcRank : Option ℤ) : List WorkerEntry × Option ℤ :=
  if msgType = msgTypeWorkerRegister then
    let registered := registerIdentity workers identity now
    (registered.2, setRank srcRank registered.1)
  else if msgType = msgTypeHeartbeat then (updateIdentity workers identity now, srcRank)
  else (workers, srcRank)

/-- The registry and `*src_rank` after a valid message with a non-empty identity: the identity is
mapped to a worker id, if it is found. -/
def mapIdentity (workers : List WorkerEntry) (identity : List UInt8) (msgType : UInt16)
    (now : UInt64) (srcRank : Option ℤ) : List WorkerEntry × Option ℤ :=
  let noted := noteSender workers identity msgType now srcRank
  match registryIndex noted.1 identity with
  | some i => (noted.1, setRank noted.2 i)
  -- not registered: whatever `*src_rank` was is what the caller gets
  | none => noted

/-- The end of a call: the message is validated, and its sender looked up. -/
def deliverMessage (z : ZmqTransport) (socket : Socket) (srcRank : Option ℤ) (now : UInt64)
    (identity : Frame) (message : Message) : Received :=
  if messageValidate message ≠ 0 then z.returnNull socket srcRank
  else if z.role = .coordinator ∧ 0 < identity.length then
    let mapped := mapIdentity z.workers (cString identity) message.header.msgType now srcRank
    ⟨{ z with workers := mapped.1, socket }, mapped.2, some message⟩
  else ⟨{ z with socket }, srcRank, some message⟩

/-- The payload frame is received, if one is announced. -/
def recvPayload (z : ZmqTransport) (socket : Socket) (srcRank : Option ℤ) (now : UInt64)
    (identity : Frame) (header : MessageHeader) : Received :=
  if header.payloadLen = 0 then z.deliverMessage socket srcRank now identity ⟨header, [], 0⟩
  else
    match socket.recv with
    | none => z.returnNull socket srcRank
    | some (payload, socket) =>
      if recvSize payload ≠ header.payloadLen.toNat then z.returnNull socket srcRank
      else
        z.deliverMessage socket srcRank now identity
          ⟨header, payload.take header.payloadLen.toNat, header.payloadLen.toNat⟩

/-- The header frame is received, and the message allocated. -/
def recvHeader (z : ZmqTransport) (socket : Socket) (srcRank : Option ℤ) (now : UInt64)
    (allocated : Bool) (identity : Frame) : Received :=
  match socket.recv with
  | none => z.returnNull socket srcRank
  | some (frame, socket) =>
    if frame.length ≠ MessageHeader.size then z.returnNull socket srcRank
    else if allocated then
      z.recvPayload socket srcRank now identity (.ofBytes frame)
    else z.returnNull socket srcRank

/-- `transport_zmq_recv`, or `none` where it writes outside the identity buffer. -/
def recv (z : ZmqTransport) (srcRank : Option ℤ) (now : UInt64) (allocated : Bool) :
    Option Received :=
  match z.role with
  | .worker => some (z.recvHeader z.socket srcRank now allocated [])
  | .coordinator =>
    match z.socket.recv with
    | none => some (z.returnNull z.socket srcRank)
    | some (identity, socket) =>
      -- `identity[identity_len]` with the full size of the frame
      if 63 < identity.length then none
      else some (z.recvHeader socket srcRank now allocated identity)

end ZmqTransport

/-! ### Calls in sequence -/

/-- A transport with the caller's variable. -/
structure Receiver where
  transport : ZmqTransport
  srcRank : Option ℤ
  faulted : Bool := false
  deriving DecidableEq, Repr

/-- A message arrives at the socket, the caller assigns its variable, or the caller receives. -/
inductive ReceiverLabel
  | arrive (message : Multipart)
  | assign (srcRank : Option ℤ)
  | recv (now : UInt64) (allocated : Bool)
  deriving DecidableEq, Repr

/-- A message was returned, and the first frame of the message that was next on the socket. -/
inductive ReceiverEvent
  | returned (sender : Frame) (message : Message)
  deriving DecidableEq, Repr

namespace Receiver

/-- A receiver that has not received yet. -/
def start (role : TransportRole) (waiting : List Multipart) (srcRank : Option ℤ) : Receiver where
  transport := { role, socket := { waiting } }
  srcRank := srcRank

/-- The receiver after a call, with what is reported about it. -/
def received (r : Receiver) (res : Received) : Receiver × List ReceiverEvent :=
  ({ r with transport := res.transport, srcRank := res.srcRank },
    match r.transport.socket.waiting, res.message with
    | m :: _, some message => [.returned m.head message]
    | _, _ => [])

/-- The receiver with one more message waiting. -/
def arrived (r : Receiver) (m : Multipart) : Receiver :=
  { r with transport := { r.transport with
      socket := { r.transport.socket with waiting := r.transport.socket.waiting ++ [m] } } }

/-- One step. After a write outside the identity buffer there is none. -/
def step (r : Receiver) : ReceiverLabel → Option (Receiver × List ReceiverEvent)
  | .arrive m => if r.faulted then none else some (r.arrived m, [])
  | .assign srcRank => if r.faulted then none else some ({ r with srcRank }, [])
  | .recv now allocated =>
    if r.faulted then none
    else
      match r.transport.recv r.srcRank now allocated with
      | none => some ({ r with faulted := true }, [])
      | some res => some (r.received res)

end Receiver

end DistributedComputing
