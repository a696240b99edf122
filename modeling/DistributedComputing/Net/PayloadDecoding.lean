import DistributedComputing.Coordinator.Departure
import DistributedComputing.Foundations.Codec
import DistributedComputing.Foundations.MemoryReads
import DistributedComputing.Net.ZmqReceive
import DistributedComputing.Worker.Loop

/-!
# What the receivers read of a payload

`transport_recv` returns messages whose payload has the length the header says, and that length is
all a receiver knows about it. The coordinator compares it with what it is going to read, for a
registration and for a result. The worker compares it with the size of the batch count only, and
then lets the count decide how many tasks it reads behind it.

The decoders are written as `Reading` programs, which read through offsets and do not know where the
payload ends; `task_queue_enqueue` is given a pointer into the payload, and what it reads there
depends on the queue (`enqueueAt`): nothing if the queue is full, only the id if it is a duplicate.
`accesses_inBounds_iff` says when all accesses of a receiver are inside the payload. What the
decoders yield is what the loops of the coordinator and of the worker work with
(`incoming_register`, `incoming_result`, `run_unpackTaskSubmit`), and a batch packed by
`send_task_batch` is unpacked as it was sent (`run_unpackTaskSubmit_packBatch`).
-/

namespace DistributedComputing

open Bytes

/-- `MSG_TYPE_TASK_SUBMIT`. -/
def msgTypeTaskSubmit : UInt16 := 0x0010

/-! ### Tasks in memory -/

/-- The first half of `task_t` as it lies in memory, with the gap before the first pointer:
`task_id`, `model_id`, `input`, `input_size`, `output` and `output_size`. -/
def taskHeadCodec : Codec (UInt64 × UInt32 × Unit × UInt64 × UInt64 × UInt64 × UInt64) :=
  .prod .uint64 <| .prod .uint32 <| .prod (.padding 4) <| .prod .uint64 <| .prod .uint64 <|
    .prod .uint64 .uint64

/-- The second half, with the gap at the end: `meta`, `meta_size`, `trace_id`, `api_version`,
`flags` and `timeout_secs`. -/
def taskTailCodec : Codec (UInt64 × UInt64 × UInt64 × UInt32 × UInt32 × Int32 × Unit) :=
  .prod .uint64 <| .prod .uint64 <| .prod .uint64 <| .prod .uint32 <| .prod .uint32 <|
    .prod .int32 (.padding 4)

/-- `task_t` in memory. -/
def taskCodec : Codec Task :=
  (taskHeadCodec.prod taskTailCodec).map
    (fun p =>
      { taskId := p.1.1
        modelId := p.1.2.1
        input := p.1.2.2.2.1
        inputSize := p.1.2.2.2.2.1
        output := p.1.2.2.2.2.2.1
        outputSize := p.1.2.2.2.2.2.2
        metaBuf := p.2.1
        metaSize := p.2.2.1
        traceId := p.2.2.2.1
        apiVersion := p.2.2.2.2.1
        flags := p.2.2.2.2.2.1
        timeoutSecs := p.2.2.2.2.2.2.1 })
    (fun t => ((t.taskId, t.modelId, (), t.input, t.inputSize, t.output, t.outputSize),
      t.metaBuf, t.metaSize, t.traceId, t.apiVersion, t.flags, t.timeoutSecs, ()))
    fun _ => rfl

/-- `sizeof(task_t)`. -/
def taskSize : ℕ := 88

theorem taskCodec_width : taskCodec.width = taskSize := rfl

/-- An item read through a pointer. -/
def readItem {α : Type} (c : Codec α) (offset : ℕ) : Reading α := c.decode <$> .bytes offset c.width

/-- The item that is found at an offset. -/
def itemAt {α : Type} (c : Codec α) (mem : ℕ → UInt8) (offset : ℕ) : α :=
  c.decode (bytesAt mem offset c.width)

@[simp] theorem run_readItem {α : Type} (c : Codec α) (mem : ℕ → UInt8) (offset : ℕ) :
    (readItem c offset).run mem = (itemAt c mem offset, [(offset, c.width)]) := rfl

/-! ### The decoders -/

/-- `handle_worker_register`, what it reads of the payload. -/
def decodeRegister (payloadLen : ℕ) : Reading (Option Capabilities) :=
  if 12 ≤ payloadLen then do
    let numLocalRanks ← readItem .uint32 0
    let maxBatchSize ← readItem .uint32 4
    let capabilities ← readItem .uint32 8
    return some ⟨numLocalRanks, maxBatchSize, capabilities⟩
  else return none

/-- `handle_task_result`, what it reads of the payload. The two times go to the metadata. -/
def decodeResult (payloadLen : ℕ) : Reading (Option TaskResult) :=
  if payloadLen < taskResultSize then return none
  else do
    let taskId ← readItem .uint64 0
    let status ← readItem .int32 8
    let _execTimeUs ← readItem .uint64 32
    let _queueTimeUs ← readItem .uint64 40
    return some ⟨taskId, status.toInt⟩

/-- `task_exists(queue, task->task_id)` where duplicates are not allowed. -/
def duplicateAt (q : ValidQueue) (offset : ℕ) : Reading Bool :=
  if q.1.allowDuplicates then return false
  else do
    let taskId ← readItem .uint64 offset
    return taskId ∈ q.tasks.map Task.taskId

/-- `task_queue_enqueue` of a task at an offset of the payload. The task is copied when nothing
speaks against it any more. -/
def enqueueAt (q : ValidQueue) (offset : ℕ) : Reading ValidQueue :=
  if q.1.isFull then return q
  else do
    if ← duplicateAt q offset then return q
    let task ← readItem taskCodec offset
    return (q.enqueue task).2

/-- The loop of `run_worker` over the tasks of a batch, from the `i`-th on, with the number of calls
of `task_queue_enqueue` made. -/
def enqueueBatch (q : ValidQueue) (i : ℕ) : ℕ → Reading (ValidQueue × ℕ)
  | 0 => return (q, 0)
  | n + 1 => do
    let q' ← enqueueAt q (4 + i * taskSize)
    let r ← enqueueBatch q' (i + 1) n
    return (r.1, r.2 + 1)

/-- The unpacking of a `MSG_TYPE_TASK_SUBMIT` by `run_worker`: the queue afterwards, and the number
of tasks it was asked to take. -/
def unpackTaskSubmit (q : ValidQueue) (payloadLen : ℕ) : Reading (ValidQueue × ℕ) :=
  if 4 ≤ payloadLen then do
    let batchCount ← readItem .uint32 0
    enqueueBatch q 0 batchCount.toNat
  else return (q, 0)

/-! ### What they yield -/

variable {q : ValidQueue} {mem : ℕ → UInt8} {len : ℕ}

/-- Enqueueing through the pointer is enqueueing what it points to. -/
theorem run_enqueueAt (q : ValidQueue) (mem : ℕ → UInt8) (offset : ℕ) :
    ((enqueueAt q offset).run mem).1 = (q.enqueue (itemAt taskCodec mem offset)).2 := by
  have hrefuse : ¬ q.Accepts (itemAt taskCodec mem offset) →
      q = (q.enqueue (itemAt taskCodec mem offset)).2 := fun h =>
    (ValidQueue.enqueue_of_not_accepts h).2.symm
  rw [enqueueAt]
  split
  · next hfull =>
    refine hrefuse fun hacc => ?_
    exact Bool.false_ne_true (hacc.1.symm.trans hfull)
  · rw [Reading.run_bind]
    dsimp only
    split
    · next hdup =>
      refine hrefuse fun hacc => ?_
      rw [duplicateAt] at hdup
      split at hdup
      · cases hdup
      · next hallow =>
        exact hacc.2 (Bool.eq_false_iff.2 hallow) (of_decide_eq_true hdup)
    · rfl

/-- The `n` tasks from the `i`-th on. -/
def batchAt (mem : ℕ → UInt8) (i n : ℕ) : List Task :=
  (List.range' i n).map fun j => itemAt taskCodec mem (4 + j * taskSize)

/-- **The loop** enqueues the tasks it finds one after the other, however many there are. -/
theorem run_enqueueBatch (q : ValidQueue) (mem : ℕ → UInt8) (i n : ℕ) :
    ((enqueueBatch q i n).run mem).1 = ((q.enqueueAll (batchAt mem i n)).1, n) := by
  induction n generalizing q i with
  | zero => rfl
  | succ n ih =>
    rw [enqueueBatch, Reading.run_bind, Reading.run_bind, run_enqueueAt, ih]
    rfl

/-! ### What they access -/

theorem inBounds_readItem {α : Type} {c : Codec α} {offset : ℕ} :
    (readItem c offset).InBounds len mem ↔ offset + c.width ≤ len :=
  Reading.inBounds_map.trans Reading.inBounds_bytes

theorem inBounds_enqueueAt {offset : ℕ} (h : offset + taskSize ≤ len) :
    (enqueueAt q offset).InBounds len mem := by
  have hid : offset + Codec.uint64.width ≤ len := Nat.le_trans (Nat.add_le_add_left (by decide) _) h
  have hdup : (duplicateAt q offset).InBounds len mem := by
    rw [duplicateAt]
    split
    · exact Reading.inBounds_pure _
    · exact Reading.inBounds_bind.2 ⟨inBounds_readItem.2 hid, Reading.inBounds_pure _⟩
  rw [enqueueAt]
  split
  · exact Reading.inBounds_pure _
  · refine Reading.inBounds_bind.2 ⟨hdup, ?_⟩
    split
    · exact Reading.inBounds_pure _
    · exact Reading.inBounds_bind.2 ⟨inBounds_readItem.2 h, Reading.inBounds_pure _⟩

theorem inBounds_enqueueBatch {i n : ℕ} (h : 4 + (i + n) * taskSize ≤ len) :
    (enqueueBatch q i n).InBounds len mem := by
  induction n generalizing q i with
  | zero => exact Reading.inBounds_pure _
  | succ n ih =>
    refine Reading.inBounds_bind.2 ⟨inBounds_enqueueAt ?_, Reading.inBounds_bind.2 ⟨ih ?_, ?_⟩⟩
    · have hmul : (i + 1) * taskSize ≤ (i + (n + 1)) * taskSize :=
        Nat.mul_le_mul_right _ (by omega)
      rw [Nat.succ_mul] at hmul
      omega
    · rwa [show i + 1 + n = i + (n + 1) by omega]
    · exact Reading.inBounds_pure _

/-- **A registration** is only read if it is long enough. -/
theorem inBounds_decodeRegister : (decodeRegister len).InBounds len mem := by
  rw [decodeRegister]
  split
  · next h =>
    refine Reading.inBounds_bind.2 ⟨inBounds_readItem.2 (Nat.le_trans (by decide) h), ?_⟩
    refine Reading.inBounds_bind.2 ⟨inBounds_readItem.2 (Nat.le_trans (by decide) h), ?_⟩
    exact Reading.inBounds_bind.2 ⟨inBounds_readItem.2 (Nat.le_trans (by decide) h),
      Reading.inBounds_pure _⟩
  · exact Reading.inBounds_pure _

/-- **A result** is only read if it is long enough. -/
theorem inBounds_decodeResult : (decodeResult len).InBounds len mem := by
  rw [decodeResult]
  split
  · exact Reading.inBounds_pure _
  · next hlt =>
    have h : taskResultSize ≤ len := Nat.le_of_not_lt hlt
    refine Reading.inBounds_bind.2 ⟨inBounds_readItem.2 (Nat.le_trans (by decide) h), ?_⟩
    refine Reading.inBounds_bind.2 ⟨inBounds_readItem.2 (Nat.le_trans (by decide) h), ?_⟩
    refine Reading.inBounds_bind.2 ⟨inBounds_readItem.2 (Nat.le_trans (by decide) h), ?_⟩
    exact Reading.inBounds_bind.2 ⟨inBounds_readItem.2 (Nat.le_trans (by decide) h),
      Reading.inBounds_pure _⟩

/-! ### The receivers -/

/-- `batch_count`. -/
def Message.batchCount (msg : Message) : UInt32 := .ofNat (MessageHeader.field msg.payload 0 4)

/-- The accesses to the payload of a message that the receiver makes, in the `switch` of the
coordinator or in the loop of the worker. -/
def Message.accesses (msg : Message) (role : TransportRole) (q : ValidQueue) (behind : ℕ → UInt8) :
    List (ℕ × ℕ) :=
  match role with
  | .coordinator =>
    if msg.header.msgType = msgTypeWorkerRegister then
      ((decodeRegister msg.header.payloadLen.toNat).run (memoryOf msg.payload behind)).2
    else if msg.header.msgType = msgTypeTaskResult then
      ((decodeResult msg.header.payloadLen.toNat).run (memoryOf msg.payload behind)).2
    else []
  | .worker =>
    if msg.header.msgType = msgTypeTaskSubmit then
      ((unpackTaskSubmit q msg.header.payloadLen.toNat).run (memoryOf msg.payload behind)).2
    else []

/-- The number of calls of `task_queue_enqueue` that the worker makes for a batch. -/
def Message.enqueueCalls (msg : Message) (q : ValidQueue) (behind : ℕ → UInt8) : ℕ :=
  ((unpackTaskSubmit q msg.header.payloadLen.toNat).run (memoryOf msg.payload behind)).1.2

variable {msg : Message} {behind : ℕ → UInt8}

/-- In bounds, a number is read as the frame has it. -/
theorem itemAt_uint32 {buffer : List UInt8} {offset : ℕ} (h : offset + 4 ≤ buffer.length) :
    itemAt .uint32 (memoryOf buffer behind) offset =
      .ofNat (MessageHeader.field buffer offset 4) := by
  show UInt32.ofNat (decodeLE (bytesAt _ offset 4)) = _
  rw [bytesAt_memoryOf h]
  rfl

theorem run_unpackTaskSubmit (hlen : msg.payload.length = msg.header.payloadLen.toNat)
    (h : 4 ≤ msg.header.payloadLen.toNat) :
    (unpackTaskSubmit q msg.header.payloadLen.toNat).run (memoryOf msg.payload behind) =
      (((enqueueBatch q 0 msg.batchCount.toNat).run (memoryOf msg.payload behind)).1,
        (0, 4) ::
          ((enqueueBatch q 0 msg.batchCount.toNat).run (memoryOf msg.payload behind)).2) := by
  rw [unpackTaskSubmit, if_pos h, Reading.run_bind, run_readItem,
    itemAt_uint32 (by rw [hlen]; exact h)]
  rfl

/-- A payload without a count is not read, and one that holds its batch is not left. -/
theorem inBounds_unpackTaskSubmit (hlen : msg.payload.length = msg.header.payloadLen.toNat)
    (hfits : 4 ≤ msg.header.payloadLen.toNat →
      4 + msg.batchCount.toNat * taskSize ≤ msg.header.payloadLen.toNat) :
    (unpackTaskSubmit q msg.header.payloadLen.toNat).InBounds msg.header.payloadLen.toNat
      (memoryOf msg.payload behind) := by
  rcases Nat.lt_or_ge msg.header.payloadLen.toNat 4 with h4 | h4
  · rw [unpackTaskSubmit, if_neg (Nat.not_le.2 h4)]
    exact List.forall_mem_nil _
  · rw [Reading.InBounds, run_unpackTaskSubmit hlen h4]
    refine List.forall_mem_cons.2 ⟨h4, inBounds_enqueueBatch ?_⟩
    rw [Nat.zero_add]
    exact hfits h4

/-- **When the accesses stay inside the payload.** Whoever receives the message, whatever is queued
and whatever lies behind the payload: the accesses are inside the payload, and the worker enqueues
as many tasks as the count says only if they are all there, exactly if the message is no batch for a
worker, or one that holds no count, or one that holds as many tasks as it announces. -/
theorem accesses_inBounds_iff (hlen : msg.payload.length = msg.header.payloadLen.toNat)
    (role : TransportRole) (q : ValidQueue) (behind : ℕ → UInt8) :
    ((∀ a ∈ msg.accesses role q behind, a.1 + a.2 ≤ msg.header.payloadLen.toNat) ∧
        (role = .worker → msg.header.msgType = msgTypeTaskSubmit →
          4 ≤ msg.header.payloadLen.toNat →
          msg.enqueueCalls q behind = msg.batchCount.toNat →
            4 + msg.batchCount.toNat * taskSize ≤ msg.header.payloadLen.toNat)) ↔
      (role = .worker → msg.header.msgType = msgTypeTaskSubmit →
        4 ≤ msg.header.payloadLen.toNat →
          4 + msg.batchCount.toNat * taskSize ≤ msg.header.payloadLen.toNat) := by
  constructor
  · rintro ⟨-, hcalls⟩ hrole htype h4
    refine hcalls hrole htype h4 ?_
    rw [Message.enqueueCalls, run_unpackTaskSubmit hlen h4, run_enqueueBatch]
  · intro hfits
    refine ⟨?_, fun hrole htype h4 _ => hfits hrole htype h4⟩
    cases role with
    | coordinator =>
      rw [Message.accesses]
      split
      · exact inBounds_decodeRegister
      · split
        · exact inBounds_decodeResult
        · exact List.forall_mem_nil _
    | worker =>
      rw [Message.accesses]
      split
      · next htype => exact inBounds_unpackTaskSubmit hlen (hfits rfl htype)
      · exact List.forall_mem_nil _

/-- A message with the type, and the payload with its length. -/
def plainMessage (msgType : UInt16) (payload : List UInt8) : Message where
  header := ⟨messageMagic, envelopeVersion, msgType, 0, .ofNat payload.length⟩
  payload := payload
  payloadCapacity := payload.length

/-- A batch of one task, as the coordinator sends it. -/
theorem accesses_inBounds_oneTask :
    ((plainMessage msgTypeTaskSubmit
        (Codec.uint32.encode 1 ++ taskCodec.encode { taskId := 5 })).accesses .worker
          (.create Worker.queueConfig) fun _ => 0).all (fun a => a.1 + a.2 ≤ 92) = true := by
  have hlen : (plainMessage msgTypeTaskSubmit
      (Codec.uint32.encode 1 ++ taskCodec.encode { taskId := 5 })).payload.length = 92 := by decide
  have hinside := ((accesses_inBounds_iff hlen .worker (.create Worker.queueConfig) fun _ => 0).2
    fun _ _ _ => by decide).1
  exact List.all_eq_true.2 fun a ha => decide_eq_true (hinside a ha)

/-- A payload of four bytes that announces one task: the worker reads the 88 bytes behind it. -/
theorem accesses_behind_payload :
    (plainMessage msgTypeTaskSubmit [1, 0, 0, 0]).accesses .worker (.create Worker.queueConfig)
        (fun _ => 0) = [(0, 4), (4, 8), (4, 88)] ∧
      (plainMessage msgTypeTaskSubmit [1, 0, 0, 0]).enqueueCalls (.create Worker.queueConfig)
        (fun _ => 0) = 1 := by
  decide

/-! ### The decoders in their place -/

theorem incoming_register (hlen : msg.payload.length = msg.header.payloadLen.toNat)
    (htype : msg.header.msgType = msgTypeWorkerRegister) :
    msg.incoming = .register
      ((decodeRegister msg.header.payloadLen.toNat).run (memoryOf msg.payload behind)).1 := by
  rw [Message.incoming, if_pos htype, decodeRegister]
  split
  · next h =>
    simp only [Reading.run_bind, Reading.run_pure, run_readItem]
    rw [itemAt_uint32 (by omega), itemAt_uint32 (by omega), itemAt_uint32 (by omega)]
  · rfl

/-- It gets what the result holds. -/
theorem incoming_result (hlen : msg.payload.length = msg.header.payloadLen.toNat)
    (htype : msg.header.msgType = msgTypeTaskResult) :
    msg.incoming = .result
      ((decodeResult msg.header.payloadLen.toNat).run (memoryOf msg.payload behind)).1 := by
  rw [Message.incoming, if_neg (by rw [htype]; decide), if_neg (by rw [htype]; decide),
    if_pos htype, decodeResult]
  split
  · rfl
  · next h =>
    have h64 : itemAt .uint64 (memoryOf msg.payload behind) 0 =
        .ofNat (MessageHeader.field msg.payload 0 8) := by
      show UInt64.ofNat (decodeLE (bytesAt _ 0 8)) = _
      rw [bytesAt_memoryOf (by rw [hlen]; simp [taskResultSize] at h; omega)]
      rfl
    have h32 : itemAt .int32 (memoryOf msg.payload behind) 8 =
        .ofNat (MessageHeader.field msg.payload 8 4) := by
      show (UInt32.ofNat (decodeLE (bytesAt _ 8 4))).toInt32 = _
      rw [bytesAt_memoryOf (by rw [hlen]; simp [taskResultSize] at h; omega)]
      rfl
    simp only [Reading.run_bind, Reading.run_pure, run_readItem]
    rw [h64, h32]

/-- The payload that `send_task_batch` packs. -/
def packBatch (batch : List Task) : List UInt8 :=
  Codec.uint32.encode (.ofNat batch.length) ++ batch.flatMap taskCodec.encode

theorem length_packBatch (batch : List Task) :
    (packBatch batch).length = 4 + batch.length * taskSize := by
  rw [packBatch, List.length_append, Codec.length_encode, Codec.length_flatMap_encode]
  rfl

/-- The tasks of a packed batch are found at their places. -/
theorem batchAt_packBatch (batch : List Task) (behind : ℕ → UInt8) :
    batchAt (memoryOf (packBatch batch) behind) 0 batch.length = batch := by
  refine List.ext_getElem (by simp [batchAt]) fun i hi hi' => ?_
  have hmul : (i + 1) * taskSize ≤ batch.length * taskSize := Nat.mul_le_mul_right _ hi'
  rw [Nat.succ_mul] at hmul
  have hfour : (Codec.uint32.encode (.ofNat batch.length)).length = 4 := Codec.length_encode _ _
  simp only [batchAt, List.getElem_map, List.getElem_range', Nat.zero_add, Nat.one_mul]
  rw [itemAt, taskCodec_width, bytesAt_memoryOf (by rw [length_packBatch]; omega), packBatch,
    ← List.drop_drop, List.drop_left' hfour, ← taskCodec_width,
    taskCodec.take_drop_flatMap_encode hi', taskCodec.decode_encode]

/-- **A batch is unpacked as it was packed**, inside its payload. -/
theorem run_unpackTaskSubmit_packBatch {batch : List Task}
    (hsize : 4 + batch.length * taskSize < 2 ^ 32) (q : ValidQueue) (behind : ℕ → UInt8) :
    ((unpackTaskSubmit q (packBatch batch).length).run (memoryOf (packBatch batch) behind)).1 =
        ((q.enqueueAll batch).1, batch.length) ∧
      (unpackTaskSubmit q (packBatch batch).length).InBounds (packBatch batch).length
        (memoryOf (packBatch batch) behind) := by
  have hlen := length_packBatch batch
  have hcount : itemAt .uint32 (memoryOf (packBatch batch) behind) 0 = .ofNat batch.length := by
    have hbytes : bytesAt (memoryOf (packBatch batch) behind) 0 Codec.uint32.width =
        Codec.uint32.encode (.ofNat batch.length) := by
      rw [bytesAt_memoryOf (by rw [hlen]; exact Nat.le_add_right _ _), List.drop_zero, packBatch,
        List.take_left' (Codec.length_encode _ _)]
    rw [itemAt, hbytes, Codec.decode_encode]
  have htoNat : (UInt32.ofNat batch.length).toNat = batch.length := by
    rw [UInt32.toNat_ofNat', Nat.mod_eq_of_lt]
    have : batch.length * 1 ≤ batch.length * taskSize := Nat.mul_le_mul_left _ (by decide)
    omega
  rw [unpackTaskSubmit, if_pos (by rw [hlen]; exact Nat.le_add_right _ _)]
  constructor
  · rw [Reading.run_bind, run_readItem, hcount, htoNat, run_enqueueBatch, batchAt_packBatch]
  · refine Reading.inBounds_bind.2 ⟨inBounds_readItem.2 ?_, ?_⟩
    · rw [hlen]
      exact Nat.le_add_right _ _
    · rw [run_readItem, hcount, htoNat]
      exact inBounds_enqueueBatch (by rw [hlen, Nat.zero_add])

end DistributedComputing
