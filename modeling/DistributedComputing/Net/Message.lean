import DistributedComputing.Foundations.Bytes

/-!
# Message headers

The envelope of every message: a packed structure of 20 bytes, copied to the wire as it lies in
memory (little-endian). `MessageHeader.ofBytes` reads a frame of that size the way the receiver's
`zmq_recv` into a `message_header_t` does, and `MessageHeader.toBytes` is what the sender puts on
the wire; `ofBytes_toBytes` says that they fit.
-/

namespace DistributedComputing

open Bytes

/-- One frame of a ZeroMQ message. -/
abbrev Frame := List UInt8

/-- `message_header_t`. -/
structure MessageHeader where
  magic : UInt32
  version : UInt16
  msgType : UInt16
  taskId : UInt64
  payloadLen : UInt32
  deriving DecidableEq, Repr

/-- `MESSAGE_MAGIC`. -/
def messageMagic : UInt32 := 0xDA7A1E00

/-- `ENVELOPE_VERSION`. -/
def envelopeVersion : UInt16 := 1

/-- `MSG_TYPE_HEARTBEAT`. -/
def msgTypeHeartbeat : UInt16 := 0x0001

/-- `MSG_TYPE_TASK_RESULT`. -/
def msgTypeTaskResult : UInt16 := 0x0011

/-- `MSG_TYPE_WORKER_REGISTER`. -/
def msgTypeWorkerRegister : UInt16 := 0x0020

/-- `MSG_TYPE_WORKER_SHUTDOWN`. -/
def msgTypeWorkerShutdown : UInt16 := 0x0021

namespace MessageHeader

/-- `sizeof(message_header_t)`. -/
def size : ℕ := 20

/-- The number in the `n` bytes from offset `i`. -/
def field (f : Frame) (i n : ℕ) : ℕ := decodeLE ((f.drop i).take n)

/-- A frame of 20 bytes, read as a header. -/
def ofBytes (f : Frame) : MessageHeader where
  magic := .ofNat (field f 0 4)
  version := .ofNat (field f 4 2)
  msgType := .ofNat (field f 6 2)
  taskId := .ofNat (field f 8 8)
  payloadLen := .ofNat (field f 16 4)

/-- The header as it lies in memory. -/
def toBytes (h : MessageHeader) : Frame :=
  encodeLE 4 h.magic.toNat ++ (encodeLE 2 h.version.toNat ++ (encodeLE 2 h.msgType.toNat ++
    (encodeLE 8 h.taskId.toNat ++ encodeLE 4 h.payloadLen.toNat)))

theorem length_toBytes (h : MessageHeader) : h.toBytes.length = size := by
  simp [toBytes, size]

/-- A field written after `pre` is found at its offset. -/
theorem field_append {f : Frame} {i n v : ℕ} (pre post : Frame)
    (hf : f = pre ++ (encodeLE n v ++ post)) (hi : pre.length = i) (hv : v < 256 ^ n) :
    field f i n = v := by
  rw [field, hf, List.drop_left' hi, List.take_left' (length_encodeLE n v),
    decodeLE_encodeLE_of_lt hv]

/-- **What is sent is what is read.** -/
theorem ofBytes_toBytes (h : MessageHeader) : ofBytes h.toBytes = h := by
  have hmagic : field h.toBytes 0 4 = h.magic.toNat :=
    field_append [] _ rfl rfl h.magic.toNat_lt
  have hversion : field h.toBytes 4 2 = h.version.toNat :=
    field_append (encodeLE 4 h.magic.toNat) _ rfl (length_encodeLE _ _) h.version.toNat_lt
  have hmsgType : field h.toBytes 6 2 = h.msgType.toNat :=
    field_append (encodeLE 4 h.magic.toNat ++ encodeLE 2 h.version.toNat)
      (encodeLE 8 h.taskId.toNat ++ encodeLE 4 h.payloadLen.toNat)
      (by simp only [toBytes, List.append_assoc]) (by simp) h.msgType.toNat_lt
  have htaskId : field h.toBytes 8 8 = h.taskId.toNat :=
    field_append (encodeLE 4 h.magic.toNat ++ encodeLE 2 h.version.toNat ++
      encodeLE 2 h.msgType.toNat) (encodeLE 4 h.payloadLen.toNat)
      (by simp only [toBytes, List.append_assoc]) (by simp) h.taskId.toNat_lt
  have hpayloadLen : field h.toBytes 16 4 = h.payloadLen.toNat :=
    field_append (encodeLE 4 h.magic.toNat ++ encodeLE 2 h.version.toNat ++
      encodeLE 2 h.msgType.toNat ++ encodeLE 8 h.taskId.toNat) []
      (by simp only [toBytes, List.append_assoc, List.append_nil]) (by simp) h.payloadLen.toNat_lt
  rw [ofBytes, hmagic, hversion, hmsgType, htaskId, hpayloadLen]
  simp only [UInt32.ofNat_toNat, UInt16.ofNat_toNat, UInt64.ofNat_toNat]

end MessageHeader

/-- A `message_t` with its payload. -/
structure Message where
  header : MessageHeader
  payload : List UInt8
  payloadCapacity : ℕ
  deriving DecidableEq, Repr

/-- `message_validate`. -/
def messageValidate (msg : Message) : ℤ :=
  if msg.header.magic ≠ messageMagic then -2
  else if msg.header.version ≠ envelopeVersion then -3
  else if msg.payloadCapacity < msg.header.payloadLen.toNat then -4
  else 0

/-! ### Building messages -/

/-- `message_alloc`, where the allocation succeeds. -/
def messageAlloc (payloadCapacity : ℕ) : Message where
  header := ⟨messageMagic, envelopeVersion, 0, 0, 0⟩
  payload := []
  payloadCapacity := payloadCapacity

/-- `message_set_header`. -/
def messageSetHeader (msg : Message) (msgType : UInt16) (taskId : UInt64) : Message :=
  { msg with header := { msg.header with msgType, taskId } }

/-- What a caller fills in: type, task, and a payload that fits the buffer and its length field. -/
structure Outgoing where
  msgType : UInt16
  taskId : UInt64
  payload : List UInt8
  capacity : ℕ
  fits : payload.length ≤ capacity
  length_lt : payload.length < 2 ^ 32

/-- What is to be told from a message: type, task and payload. -/
abbrev Content := UInt16 × UInt64 × List UInt8

/-- The content of a message. -/
def Message.content (msg : Message) : Content :=
  (msg.header.msgType, msg.header.taskId, msg.payload)

namespace Outgoing

variable (o : Outgoing)

/-- The message that is built and filled in. -/
def message : Message :=
  let msg := messageSetHeader (messageAlloc o.capacity) o.msgType o.taskId
  { msg with
    header := { msg.header with payloadLen := .ofNat o.payload.length }
    payload := o.payload }

/-- The content of the message. -/
def content : Content := (o.msgType, o.taskId, o.payload)

@[simp] theorem toNat_payloadLen : o.message.header.payloadLen.toNat = o.payload.length :=
  UInt32.toNat_ofNat_of_lt' o.length_lt

theorem payloadLen_eq_zero_iff : o.message.header.payloadLen = 0 ↔ o.payload = [] := by
  rw [← UInt32.toNat_inj, toNat_payloadLen]
  exact List.length_eq_zero_iff

/-- **Messages built so are valid**, as they are and as they are received: with any buffer that the
payload fits. -/
theorem messageValidate_eq_zero {payload : List UInt8} {capacity : ℕ}
    (hcap : o.payload.length ≤ capacity) :
    messageValidate ⟨o.message.header, payload, capacity⟩ = 0 := by
  have hmagic : ¬ o.message.header.magic ≠ messageMagic := not_not_intro rfl
  have hversion : ¬ o.message.header.version ≠ envelopeVersion := not_not_intro rfl
  have hlen : ¬ capacity < o.message.header.payloadLen.toNat := by
    rw [toNat_payloadLen]
    exact Nat.not_lt.2 hcap
  rw [messageValidate, if_neg hmagic, if_neg hversion, if_neg hlen]

end Outgoing

end DistributedComputing
