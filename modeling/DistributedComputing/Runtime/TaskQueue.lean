import Mathlib.Data.Int.Basic
import DistributedComputing.Foundations.LinkedHeap

/-!
# The task queue

A model of `task_queue.c`: one linked list of nodes with a head and a tail pointer, high-priority
nodes in front of normal ones, a size limit, an optional check for duplicate ids, and statistics.

The functions work on the pointers, as the source does: `none` is a fault (a read or a write through
a pointer that holds no node), which the proofs have to rule out and the definitions do not. Every
public function runs under `queue->mutex`, so a call is one atomic step; `malloc` is taken to
succeed, and the arguments are taken to be non-`NULL`.

* Addresses and `size` are natural numbers: a node occupies more than one byte of a 64-bit address
  space, so the number of queued nodes stays below `2 ^ 64`. The statistics are 64-bit and wrap.
* The bodies of `task_queue_dequeue` and `task_queue_dequeue_wait` from `Remove head node` on are
  the same text twice; here they are `takeHead`.
* `task_queue_dequeue_wait` is cut at its wait loop: `waitEnter` up to the loop, `mustWait` the loop
  condition, `waitLeave` what follows the loop. `dequeueWait` is the call that never has to wait.
-/

namespace DistributedComputing

open LinkedHeap

/-- `task_t`. The buffers stay where they are; the queue copies the pointers. -/
structure Task where
  taskId : UInt64
  modelId : UInt32 := 0
  input : UInt64 := 0
  inputSize : UInt64 := 0
  output : UInt64 := 0
  outputSize : UInt64 := 0
  metaBuf : UInt64 := 0
  metaSize : UInt64 := 0
  traceId : UInt64 := 0
  apiVersion : UInt32 := 0
  flags : UInt32 := 0
  timeoutSecs : Int32 := 0
  deriving DecidableEq, Repr

/-- `TASK_FLAG_HIGH_PRIORITY`. -/
def taskFlagHighPriority : UInt32 := (1 : UInt32) <<< (1 : UInt32)

/-- `(task->flags & TASK_FLAG_HIGH_PRIORITY) ? 1 : 0`. -/
def Task.isHigh (t : Task) : Bool := t.flags &&& taskFlagHighPriority ≠ 0

/-- `task_node_t`, less the link, which the heap cell holds. `priority` is 1 (`true`) for high. -/
structure TaskNode where
  task : Task
  priority : Bool
  deriving DecidableEq, Repr

/-- `task_queue_config_t`. A `max_size` of 0 means unlimited. -/
structure TaskQueueConfig where
  maxSize : ℕ
  allowDuplicates : Bool
  deriving DecidableEq, Repr

/-- `struct task_queue` with the heap its nodes live in, less the mutex and the two condition
variables. -/
structure TaskQueue where
  heap : Heap TaskNode := .empty
  head : Addr := 0
  tail : Addr := 0
  size : ℕ := 0
  maxSize : ℕ
  allowDuplicates : Bool
  shuttingDown : Bool := false
  totalEnqueued : UInt64 := 0
  totalDequeued : UInt64 := 0
  highPriorityCount : UInt64 := 0
  blockedThreads : UInt64 := 0

namespace TaskQueue

/-- `task_queue_create`. -/
def create (config : TaskQueueConfig) : TaskQueue where
  maxSize := config.maxSize
  allowDuplicates := config.allowDuplicates

/-! ### Adding -/

/-- `task_exists`. -/
def taskExists (q : TaskQueue) (taskId : UInt64) : Option Bool :=
  (walk q.heap (fun n => n.task.taskId ≠ taskId) q.heap.brk 0 q.head).map fun r => r.2 ≠ 0

/-- `!queue->head || queue->head->priority == 0`. -/
def noHighPriority (q : TaskQueue) : Option Bool :=
  if q.head = 0 then some true else (q.heap.read q.head).map fun c => !c.val.priority

/-- A high-priority node goes behind the last high-priority node, or to the head. -/
def insertHigh (q : TaskQueue) (node : Addr) : Option TaskQueue := do
  if ← q.noHighPriority then
    let heap ← q.heap.setNext node q.head
    return { q with heap, head := node, tail := if q.tail = 0 then node else q.tail }
  else
    -- behind the last high-priority node; the list may end there
    let (prev, curr) ← walk q.heap TaskNode.priority q.heap.brk 0 q.head
    let heap ← q.heap.setNext node curr
    let heap ← if prev = 0 then some heap else heap.setNext prev node
    return { q with heap, tail := if curr = 0 then node else q.tail }

/-- A normal node goes to the tail. -/
def insertNormal (q : TaskQueue) (node : Addr) : Option TaskQueue :=
  if q.head = 0 then some { q with head := node, tail := node }
  else (q.heap.setNext q.tail node).map fun heap => { q with heap, tail := node }

/-- The new node allocated, linked in and counted. -/
def insertNode (q : TaskQueue) (task : Task) : Option TaskQueue := do
  let node := q.heap.brk
  let q := { q with heap := q.heap.alloc ⟨⟨task, task.isHigh⟩, 0⟩ }
  let q ←
    if task.isHigh then
      (q.insertHigh node).map fun q => { q with highPriorityCount := q.highPriorityCount + 1 }
    else q.insertNormal node
  return { q with size := q.size + 1, totalEnqueued := q.totalEnqueued + 1 }

/-- `!queue->allow_duplicates && task_exists(queue, task_id)`. -/
def isDuplicate (q : TaskQueue) (taskId : UInt64) : Option Bool :=
  if q.allowDuplicates then some false else q.taskExists taskId

/-- `task_queue_enqueue`. -/
def enqueue (q : TaskQueue) (task : Task) : Option (ℤ × TaskQueue) := do
  if q.shuttingDown then return (-1, q)
  -- the queue is checked for room before it is searched for the id
  if 0 < q.maxSize ∧ q.maxSize ≤ q.size then return (-2, q)
  if ← q.isDuplicate task.taskId then return (-3, q)
  let q ← q.insertNode task
  return (0, q)

/-! ### Taking -/

/-- The head node unlinked, copied out and freed. -/
def takeHead (q : TaskQueue) : Option (Task × TaskQueue) :=
  (q.heap.read q.head).map fun c =>
    (c.val.task,
      { q with
        heap := q.heap.free q.head
        head := c.next
        tail := if c.next = 0 then 0 else q.tail
        highPriorityCount :=
          if c.val.priority then q.highPriorityCount - 1 else q.highPriorityCount
        size := q.size - 1
        totalDequeued := q.totalDequeued + 1 })

/-- `task_queue_dequeue`, with the task it copies out on success. -/
def dequeue (q : TaskQueue) : Option (ℤ × Option Task × TaskQueue) :=
  if q.head = 0 then some (-1, none, q)
  else q.takeHead.map fun r => (0, some r.1, r.2)

/-- `task_queue_dequeue_wait` up to its wait loop. -/
def waitEnter (q : TaskQueue) : TaskQueue := { q with blockedThreads := q.blockedThreads + 1 }

/-- The condition of the wait loop. -/
def mustWait (q : TaskQueue) : Bool := q.head = 0 ∧ q.shuttingDown = false

/-- `queue->blocked_threads--`, after the wait loop. -/
def waitExit (q : TaskQueue) : TaskQueue := { q with blockedThreads := q.blockedThreads - 1 }

/-- `task_queue_dequeue_wait` from the end of its wait loop on. -/
def waitLeave (q : TaskQueue) : Option (ℤ × Option Task × TaskQueue) :=
  if q.shuttingDown then some (-2, none, q.waitExit)
  else q.waitExit.takeHead.map fun r => (0, some r.1, r.2)

/-- `task_queue_dequeue_wait` called when it does not have to wait; `none` if it would block. -/
def dequeueWait (q : TaskQueue) : Option (ℤ × Option Task × TaskQueue) :=
  if q.waitEnter.mustWait then none else q.waitEnter.waitLeave

/-- `task_queue_peek`. -/
def peek (q : TaskQueue) : Option (ℤ × Option Task) :=
  if q.head = 0 then some (-1, none)
  else (q.heap.read q.head).map fun c => (0, some c.val.task)

/-- `task_queue_remove_by_id`. The search stops at the first match, with `prev` one node behind. -/
def removeById (q : TaskQueue) (taskId : UInt64) : Option (ℤ × TaskQueue) := do
  let (prev, curr) ← walk q.heap (fun n => n.task.taskId ≠ taskId) q.heap.brk 0 q.head
  if curr = 0 then return (-1, q)
  let c ← q.heap.read curr
  let heap ← if prev = 0 then some q.heap else q.heap.setNext prev c.next
  return (0,
    { q with
      heap := heap.free curr
      head := if prev = 0 then c.next else q.head
      tail := if curr = q.tail then prev else q.tail
      highPriorityCount := if c.val.priority then q.highPriorityCount - 1 else q.highPriorityCount
      size := q.size - 1 })

/-- `task_queue_clear`, with the number of tasks it freed. -/
def clear (q : TaskQueue) : Option (ℕ × TaskQueue) :=
  (freeAll q.heap.brk q.heap q.head 0).map fun r =>
    (r.2, { q with heap := r.1, head := 0, tail := 0, size := 0, highPriorityCount := 0 })

/-! ### Asking -/

/-- `task_queue_is_empty`. -/
def isEmpty (q : TaskQueue) : Bool := q.size = 0

/-- `task_queue_is_full`. An unlimited queue is never full. -/
def isFull (q : TaskQueue) : Bool := q.maxSize ≠ 0 ∧ q.maxSize ≤ q.size

end TaskQueue

end DistributedComputing
