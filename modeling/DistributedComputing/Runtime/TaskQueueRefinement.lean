import DistributedComputing.Runtime.TaskQueueNodes

/-!
# The task queue is a two-level FIFO

The header of the task queue promises *FIFO ordering within priority levels*, with high-priority
tasks ahead of normal ones, under a capacity and an optional check for duplicates. `PriorityFifo` is
that promise as a machine of its own: two lists of tasks and no pointers. The linked list refines it
(`replies_eq`). The step lemma is `Simulates.exec`.

For the programs that use a queue, `ValidQueue` packs a queue with the fact that it represents some
nodes. Its operations are total — nothing can fault — and are specified by what they do to the list
of its tasks, `ValidQueue.tasks`.
-/

namespace DistributedComputing

/-- The queue as its header describes it: two lists of tasks, a capacity (none if unlimited) and
whether duplicate ids are allowed. -/
structure PriorityFifo where
  high : List Task := []
  normal : List Task := []
  capacity : Option ℕ
  allowDuplicates : Bool
  deriving DecidableEq, Repr

/-- A call of one of the functions of the queue. -/
inductive QueueOp
  | enqueue (task : Task)
  | dequeue
  | dequeueWait (timeoutMs : ℤ)
  | peek
  | removeById (taskId : UInt64)
  | clear
  | size
  | isEmpty
  | isFull
  deriving DecidableEq, Repr

/-- What a call returns: its return value, and the task it copies out. -/
structure QueueReply where
  code : ℤ
  task : Option Task := none
  deriving DecidableEq, Repr

namespace PriorityFifo

/-- The empty queue of a configuration, in which a maximal size of 0 means unlimited. -/
def create (config : TaskQueueConfig) : PriorityFifo where
  capacity := if config.maxSize = 0 then none else some config.maxSize
  allowDuplicates := config.allowDuplicates

/-- All tasks, in the order in which they are handed out. -/
def tasks (a : PriorityFifo) : List Task := a.high ++ a.normal

/-- The total is at the capacity. -/
def full (a : PriorityFifo) : Bool :=
  match a.capacity with
  | none => false
  | some n => n ≤ a.tasks.length

/-- Append to the list selected by the priority flag. -/
def append (a : PriorityFifo) (t : Task) : PriorityFifo :=
  if t.isHigh then { a with high := a.high ++ [t] } else { a with normal := a.normal ++ [t] }

/-- The queue without its first task. -/
def tail (a : PriorityFifo) : PriorityFifo :=
  match a.high with
  | [] => { a with normal := a.normal.drop 1 }
  | _ :: high => { a with high }

/-- The queue without the first task that has the id. -/
def erase (a : PriorityFifo) (taskId : UInt64) : PriorityFifo :=
  if a.high.any (·.taskId = taskId) then
    { a with high := a.high.eraseP (·.taskId = taskId) }
  else { a with normal := a.normal.eraseP (·.taskId = taskId) }

/-- The head of the queue, or -1 without one. -/
def headReply (a : PriorityFifo) : QueueReply :=
  match a.tasks with
  | [] => { code := -1 }
  | t :: _ => { code := 0, task := some t }

/-- The reply to a call and the queue after it. -/
def exec (a : PriorityFifo) : QueueOp → QueueReply × PriorityFifo
  | .enqueue t =>
    if a.full then ({ code := -2 }, a)
    else if !a.allowDuplicates && a.tasks.any (·.taskId = t.taskId) then ({ code := -3 }, a)
    else ({ code := 0 }, a.append t)
  | .dequeue => (a.headReply, a.tail)
  | .dequeueWait _ => (a.headReply, a.tail)
  | .peek => (a.headReply, a)
  | .removeById taskId =>
    if a.tasks.any (·.taskId = taskId) then ({ code := 0 }, a.erase taskId)
    else ({ code := -1 }, a)
  | .clear => ({ code := a.tasks.length }, { a with high := [], normal := [] })
  | .size => ({ code := a.tasks.length }, a)
  | .isEmpty => ({ code := if a.tasks = [] then 1 else 0 }, a)
  | .isFull => ({ code := if a.full then 1 else 0 }, a)

/-- The replies to a history of calls. -/
def replies (a : PriorityFifo) : List QueueOp → List QueueReply
  | [] => []
  | op :: ops => (a.exec op).1 :: (a.exec op).2.replies ops

/-- The histories in which the waiting dequeue is only called on a non-empty queue. -/
def WaitsOnlyWhenNonempty (a : PriorityFifo) : List QueueOp → Prop
  | [] => True
  | op :: ops =>
    (∀ timeoutMs, op = .dequeueWait timeoutMs → a.tasks ≠ []) ∧
      (a.exec op).2.WaitsOnlyWhenNonempty ops

end PriorityFifo

namespace TaskQueue

/-- The reply to a call and the queue after it; `none` is a fault, or a wait. -/
def exec (q : TaskQueue) : QueueOp → Option (QueueReply × TaskQueue)
  | .enqueue t => (q.enqueue t).map fun r => ({ code := r.1 }, r.2)
  | .dequeue => q.dequeue.map fun r => ({ code := r.1, task := r.2.1 }, r.2.2)
  | .dequeueWait _ => q.dequeueWait.map fun r => ({ code := r.1, task := r.2.1 }, r.2.2)
  | .peek => q.peek.map fun r => ({ code := r.1, task := r.2 }, q)
  | .removeById taskId => (q.removeById taskId).map fun r => ({ code := r.1 }, r.2)
  | .clear => q.clear.map fun r => ({ code := r.1 }, r.2)
  | .size => some ({ code := q.size }, q)
  | .isEmpty => some ({ code := if q.isEmpty then 1 else 0 }, q)
  | .isFull => some ({ code := if q.isFull then 1 else 0 }, q)

/-- The replies to a history of calls; `none` if one of the calls faults or has to wait. -/
def replies (q : TaskQueue) : List QueueOp → Option (List QueueReply)
  | [] => some []
  | op :: ops =>
    match q.exec op with
    | none => none
    | some (r, q') => (q'.replies ops).map (r :: ·)

/-- The queue holds the tasks of the two lists, under the same configuration. -/
structure Simulates (q : TaskQueue) (a : PriorityFifo) : Prop where
  nodes : ∃ hs ns, q.Represents hs ns ∧ a.high = hs.map QueueNode.task ∧
    a.normal = ns.map QueueNode.task
  capacity : a.capacity = if q.maxSize = 0 then none else some q.maxSize
  allowDuplicates : a.allowDuplicates = q.allowDuplicates

theorem simulates_create (config : TaskQueueConfig) :
    (create config).Simulates (PriorityFifo.create config) :=
  ⟨⟨[], [], represents_create config, rfl, rfl⟩, rfl, rfl⟩

variable {q : TaskQueue} {a : PriorityFifo} {hs ns : List QueueNode}

theorem any_taskId_map (l : List QueueNode) (taskId : UInt64) :
    (l.map QueueNode.task).any (·.taskId = taskId) = l.any (hasId taskId) := by
  rw [List.any_map]
  rfl

theorem Simulates.length_tasks (h : q.Simulates a) : a.tasks.length = q.size := by
  obtain ⟨hs, ns, hr, hhigh, hnormal⟩ := h.nodes
  rw [hr.size, PriorityFifo.tasks, hhigh, hnormal]
  simp

/-- Both machines have the same notion of being full. -/
theorem Simulates.full_eq (h : q.Simulates a) : a.full = q.isFull := by
  rw [PriorityFifo.full, h.capacity, isFull, h.length_tasks]
  by_cases h0 : q.maxSize = 0 <;> simp [h0]

theorem Simulates.tasks_eq_nil_iff (h : q.Simulates a) : a.tasks = [] ↔ q.head = 0 := by
  obtain ⟨hs, ns, hr, hhigh, hnormal⟩ := h.nodes
  rw [hr.chain.head_eq_zero_iff, PriorityFifo.tasks, hhigh, hnormal, ← List.map_append,
    List.map_eq_nil_iff]

theorem Simulates.of_sameConfig {q' : TaskQueue} {a' : PriorityFifo} (h : q.Simulates a)
    (hcfg : SameConfig q q') (hr : q'.Represents hs ns) (hhigh : a'.high = hs.map QueueNode.task)
    (hnormal : a'.normal = ns.map QueueNode.task) (hcap : a'.capacity = a.capacity)
    (hdup : a'.allowDuplicates = a.allowDuplicates) : q'.Simulates a' where
  nodes := ⟨hs, ns, hr, hhigh, hnormal⟩
  capacity := by rw [hcap, h.capacity, hcfg.maxSize]
  allowDuplicates := by rw [hdup, h.allowDuplicates, hcfg.allowDuplicates]

/-! ### The calls, one by one -/

theorem Simulates.enqueue (h : q.Simulates a) (t : Task) :
    ∃ q', q.exec (.enqueue t) = some ((a.exec (.enqueue t)).1, q') ∧
      q'.Simulates (a.exec (.enqueue t)).2 := by
  obtain ⟨hs, ns, hr, hhigh, hnormal⟩ := h.nodes
  have hany : a.tasks.any (·.taskId = t.taskId) = (hs ++ ns).any (hasId t.taskId) := by
    rw [PriorityFifo.tasks, hhigh, hnormal, ← List.map_append, any_taskId_map]
  rw [PriorityFifo.exec, h.full_eq, h.allowDuplicates, hany, exec]
  rcases hfull : q.isFull with - | -
  · rcases hdup : (!q.allowDuplicates && (hs ++ ns).any (hasId t.taskId)) with - | -
    · obtain ⟨q', hrun, hr', hcfg⟩ := hr.enqueue_of_new hfull hdup
      rw [hrun]
      refine ⟨q', rfl, ?_⟩
      show q'.Simulates (a.append t)
      rw [PriorityFifo.append]
      rcases ht : t.isHigh with - | -
      · refine h.of_sameConfig hcfg hr' ?_ ?_ rfl rfl
        · simp [highAfter, ht, hhigh]
        · simp [normalAfter, ht, hnormal, newNode, QueueNode.task]
      · refine h.of_sameConfig hcfg hr' ?_ ?_ rfl rfl
        · simp [highAfter, ht, hhigh, newNode, QueueNode.task]
        · simp [normalAfter, ht, hnormal]
    · rw [hr.enqueue_of_duplicate hfull hdup]
      exact ⟨q, rfl, h⟩
  · rw [hr.enqueue_of_full hfull]
    exact ⟨q, rfl, h⟩

/-- Both dequeue functions take the head of a non-empty queue, once they get to it. -/
theorem Simulates.takeHead (h : q.Simulates a) (hne : a.tasks ≠ []) :
    ∃ q' t, q.takeHead = some (t, q') ∧ a.headReply = { code := 0, task := some t } ∧
      q'.Simulates a.tail := by
  obtain ⟨hs, ns, hr, hhigh, hnormal⟩ := h.nodes
  have htasks : a.tasks = (hs ++ ns).map QueueNode.task := by
    rw [PriorityFifo.tasks, hhigh, hnormal, List.map_append]
  rcases hl : hs ++ ns with - | ⟨n, l⟩
  · rw [htasks, hl] at hne
    exact absurd rfl hne
  · obtain ⟨q', hrun, hr', hcfg⟩ := hr.takeHead hl
    refine ⟨q', n.task, hrun, ?_, ?_⟩
    · rw [PriorityFifo.headReply, htasks, hl]
      rfl
    · rw [PriorityFifo.tail]
      rcases hs with - | ⟨m, hs⟩
      · rw [hhigh]
        refine h.of_sameConfig hcfg hr' ?_ ?_ rfl rfl
        · rfl
        · rw [List.map_drop, ← hnormal]
          rfl
      · rw [hhigh]
        refine h.of_sameConfig hcfg hr' rfl ?_ rfl rfl
        simp [hnormal]

theorem Simulates.dequeue (h : q.Simulates a) :
    ∃ q', q.exec .dequeue = some (a.headReply, q') ∧ q'.Simulates a.tail := by
  by_cases hnil : a.tasks = []
  · -- Nothing to take: the queue stays as it is, and so do the two empty lists.
    have hstay : a.tail = a := by
      obtain ⟨high, normal, capacity, allowDuplicates⟩ := a
      obtain ⟨rfl, rfl⟩ := List.append_eq_nil_iff.1 hnil
      rfl
    refine ⟨q, ?_, hstay.symm ▸ h⟩
    rw [exec, TaskQueue.dequeue, if_pos (h.tasks_eq_nil_iff.1 hnil), PriorityFifo.headReply, hnil]
    rfl
  · obtain ⟨q', t, hrun, hreply, hq'⟩ := h.takeHead hnil
    refine ⟨q', ?_, hq'⟩
    rw [exec, TaskQueue.dequeue, if_neg fun h0 => hnil (h.tasks_eq_nil_iff.2 h0), hrun, hreply]
    rfl

theorem Simulates.of_blockedThreads (h : q.Simulates a) (n : UInt64) :
    Simulates { q with blockedThreads := n } a := by
  obtain ⟨hs, ns, hr, hhigh, hnormal⟩ := h.nodes
  have hr' : Represents { q with blockedThreads := n } hs ns :=
    ⟨hr.chain, hr.tail, hr.size, hr.high, hr.normal, hr.flag, hr.highCount, hr.alive⟩
  exact ⟨⟨hs, ns, hr', hhigh, hnormal⟩, h.capacity, h.allowDuplicates⟩

theorem Simulates.dequeueWait (h : q.Simulates a) (hne : a.tasks ≠ []) (timeoutMs : ℤ) :
    ∃ q', q.exec (.dequeueWait timeoutMs) = some (a.headReply, q') ∧ q'.Simulates a.tail := by
  obtain ⟨hs, ns, hr, -, -⟩ := h.nodes
  have hhead : q.head ≠ 0 := fun h0 => hne (h.tasks_eq_nil_iff.2 h0)
  have hw : q.waitEnter.waitExit.Simulates a := (h.of_blockedThreads _).of_blockedThreads _
  obtain ⟨q', t, hrun, hreply, hq'⟩ := hw.takeHead hne
  refine ⟨q', ?_, hq'⟩
  have hmust : q.waitEnter.mustWait = false := by simp [mustWait, waitEnter, hhead]
  have halive : ¬ q.waitEnter.shuttingDown = true := by simp [waitEnter, hr.alive]
  rw [exec, TaskQueue.dequeueWait, hmust, if_neg Bool.false_ne_true, waitLeave, if_neg halive, hrun,
    hreply]
  rfl

theorem Simulates.peek (h : q.Simulates a) : q.exec .peek = some (a.headReply, q) := by
  by_cases hnil : a.tasks = []
  · rw [exec, TaskQueue.peek, if_pos (h.tasks_eq_nil_iff.1 hnil), PriorityFifo.headReply, hnil]
    rfl
  · obtain ⟨q', t, hrun, hreply, -⟩ := h.takeHead hnil
    obtain ⟨c, hread, hc⟩ := Option.map_eq_some_iff.1 hrun
    obtain rfl : c.val.task = t := (Prod.ext_iff.1 hc).1
    rw [exec, TaskQueue.peek, if_neg fun h0 => hnil (h.tasks_eq_nil_iff.2 h0), hread, hreply]
    rfl

theorem map_task_eraseP (l : List QueueNode) (taskId : UInt64) :
    (l.eraseP (hasId taskId)).map QueueNode.task =
      (l.map QueueNode.task).eraseP (·.taskId = taskId) := by
  rw [List.eraseP_map]
  rfl

theorem Simulates.removeById (h : q.Simulates a) (taskId : UInt64) :
    ∃ q', q.exec (.removeById taskId) = some ((a.exec (.removeById taskId)).1, q') ∧
      q'.Simulates (a.exec (.removeById taskId)).2 := by
  obtain ⟨hs, ns, hr, hhigh, hnormal⟩ := h.nodes
  have hany : a.tasks.any (·.taskId = taskId) = (hs ++ ns).any (hasId taskId) := by
    rw [PriorityFifo.tasks, hhigh, hnormal, ← List.map_append, any_taskId_map]
  have hanyHigh : a.high.any (·.taskId = taskId) = hs.any (hasId taskId) := by
    rw [hhigh, any_taskId_map]
  rw [exec, PriorityFifo.exec, hany, List.any_append, PriorityFifo.erase, hanyHigh]
  rcases hhs : hs.any (hasId taskId) with - | -
  · have hnone : ∀ n ∈ hs, ¬ hasId taskId n := List.any_eq_false.1 hhs
    rcases hns : ns.any (hasId taskId) with - | -
    · have hall : ∀ n ∈ hs ++ ns, ¬ hasId taskId n := fun n hn =>
        (List.mem_append.1 hn).elim (hnone n) (List.any_eq_false.1 hns n)
      rw [hr.removeById_of_not_mem hall]
      exact ⟨q, rfl, h⟩
    · obtain ⟨q', hrun, hr', hcfg⟩ := hr.removeById_of_normal hnone (List.any_eq_true.1 hns)
      rw [hrun]
      refine ⟨q', rfl, h.of_sameConfig hcfg hr' hhigh ?_ rfl rfl⟩
      rw [map_task_eraseP, ← hnormal]
      rfl
  · obtain ⟨q', hrun, hr', hcfg⟩ := hr.removeById_of_high (List.any_eq_true.1 hhs)
    rw [hrun]
    refine ⟨q', rfl, h.of_sameConfig hcfg hr' ?_ hnormal rfl rfl⟩
    rw [map_task_eraseP, ← hhigh]
    rfl

/-- **The refinement step.** On a queue that simulates the two lists, every call gives the same
reply as on the two lists, and leads to a queue that simulates them again. -/
theorem Simulates.exec (h : q.Simulates a) (op : QueueOp)
    (hwait : ∀ timeoutMs, op = .dequeueWait timeoutMs → a.tasks ≠ []) :
    ∃ q', q.exec op = some ((a.exec op).1, q') ∧ q'.Simulates (a.exec op).2 := by
  cases op with
  | enqueue t => exact h.enqueue t
  | dequeue => exact h.dequeue
  | dequeueWait timeoutMs => exact h.dequeueWait (hwait timeoutMs rfl) timeoutMs
  | peek => exact ⟨q, h.peek, h⟩
  | removeById taskId => exact h.removeById taskId
  | clear =>
    obtain ⟨hs, ns, hr, hhigh, hnormal⟩ := h.nodes
    obtain ⟨q', hrun, hr', hcfg⟩ := hr.clear
    refine ⟨q', ?_, h.of_sameConfig hcfg hr' rfl rfl rfl rfl⟩
    rw [TaskQueue.exec, hrun, PriorityFifo.exec, h.length_tasks, hr.size]
    rfl
  | size => exact ⟨q, by rw [TaskQueue.exec, PriorityFifo.exec, h.length_tasks], h⟩
  | isEmpty =>
    refine ⟨q, ?_, h⟩
    have hempty : q.isEmpty = true ↔ a.tasks = [] := by
      rw [isEmpty, decide_eq_true_iff, ← h.length_tasks, List.length_eq_zero_iff]
    rw [TaskQueue.exec, PriorityFifo.exec, if_congr hempty rfl rfl]
  | isFull => exact ⟨q, by rw [TaskQueue.exec, PriorityFifo.exec, h.full_eq], h⟩

/-- By induction on the history, the queue being any that simulates the two lists. -/
theorem Simulates.replies (h : q.Simulates a) (ops : List QueueOp)
    (hwait : a.WaitsOnlyWhenNonempty ops) : q.replies ops = some (a.replies ops) := by
  induction ops generalizing q a with
  | nil => rfl
  | cons op ops ih =>
    obtain ⟨q', hrun, hq'⟩ := h.exec op hwait.1
    rw [TaskQueue.replies, hrun]
    dsimp only
    rw [ih hq' hwait.2]
    rfl

/-- **The queue refines the two-level FIFO.** For every configuration and every history in which the
waiting dequeue is called on non-empty queues only, no call faults, and every return code and every
task handed out is that of the two lists. -/
theorem replies_eq (config : TaskQueueConfig) (ops : List QueueOp)
    (hwait : (PriorityFifo.create config).WaitsOnlyWhenNonempty ops) :
    (create config).replies ops = some ((PriorityFifo.create config).replies ops) :=
  (simulates_create config).replies ops hwait

/-- A high-priority task overtakes a normal one, in a queue of capacity 2. -/
theorem replies_eq_overtaking :
    (create ⟨2, false⟩).replies
        [.enqueue { taskId := 1 }, .enqueue { taskId := 2, flags := 2 }, .enqueue { taskId := 3 },
          .dequeueWait 100, .enqueue { taskId := 1 }, .dequeue, .dequeue] =
      some [⟨0, none⟩, ⟨0, none⟩, ⟨-2, none⟩, ⟨0, some { taskId := 2, flags := 2 }⟩, ⟨-3, none⟩,
        ⟨0, some { taskId := 1 }⟩, ⟨-1, none⟩] :=
  replies_eq ⟨2, false⟩ _ ⟨nofun, nofun, nofun, fun _ _ => by decide, nofun, nofun, nofun, trivial⟩

/-! ### Queues without pointers -/

/-- The queue represents some nodes. -/
def Valid (q : TaskQueue) : Prop := ∃ hs ns, q.Represents hs ns

end TaskQueue

open TaskQueue

/-- A queue that represents some nodes; the operations below lead from such queues to such queues.
-/
abbrev ValidQueue := { q : TaskQueue // q.Valid }

namespace ValidQueue

/-- `task_queue_create`. -/
def create (config : TaskQueueConfig) : ValidQueue :=
  ⟨TaskQueue.create config, [], [], represents_create config⟩

/-- The tasks in the order in which they are handed out. -/
def tasks (q : ValidQueue) : List Task :=
  (LinkedHeap.collect q.1.heap q.1.heap.brk q.1.head).map TaskNode.task

variable {q : ValidQueue} {t : Task} {hs ns : List QueueNode}

theorem tasks_eq (hr : q.1.Represents hs ns) : q.tasks = (hs ++ ns).map QueueNode.task := by
  rw [tasks, LinkedHeap.collect_eq hr.chain.seg hr.chain.length_lt, List.map_map]
  rfl

theorem length_tasks (q : ValidQueue) : q.tasks.length = q.1.size := by
  obtain ⟨hs, ns, hr⟩ := q.2
  rw [tasks_eq hr, List.length_map, hr.size]

/-- The conditions under which a task is accepted. -/
def Accepts (q : ValidQueue) (t : Task) : Prop :=
  q.1.isFull = false ∧ (q.1.allowDuplicates = false → t.taskId ∉ q.tasks.map Task.taskId)

theorem not_duplicate_iff (hr : q.1.Represents hs ns) :
    (!q.1.allowDuplicates && (hs ++ ns).any (hasId t.taskId)) = false ↔
      (q.1.allowDuplicates = false → t.taskId ∉ q.tasks.map Task.taskId) := by
  have hany : (hs ++ ns).any (hasId t.taskId) = true ↔ t.taskId ∈ q.tasks.map Task.taskId := by
    rw [tasks_eq hr, List.any_eq_true, List.map_map, List.mem_map]
    simp only [hasId_iff]
    rfl
  rw [← hany]
  cases q.1.allowDuplicates <;> simp

/-- An empty queue accepts every task, whatever its limit. -/
theorem accepts_of_nil (q : ValidQueue) (h : q.tasks = []) (t : Task) : q.Accepts t := by
  refine ⟨Bool.eq_false_iff.2 fun hfull => ?_, fun _ => by simp [h]⟩
  have hsize : q.1.size = 0 := by
    rw [← q.length_tasks, h]
    rfl
  obtain ⟨hpos, hle⟩ := (TaskQueue.isFull_iff q.1).1 hfull
  omega

/-- What is queued before, with the new task behind its priority level. -/
def insertTask (t : Task) (l : List Task) : List Task :=
  l.filter Task.isHigh ++ (if t.isHigh then [t] else []) ++ l.filter (fun u => !u.isHigh) ++
    (if t.isHigh then [] else [t])

@[simp] theorem insertTask_nil (t : Task) : insertTask t [] = [t] := by
  rw [insertTask]
  cases t.isHigh <;> rfl

theorem filter_isHigh (hr : q.1.Represents hs ns) :
    q.tasks.filter Task.isHigh = hs.map QueueNode.task ∧
      q.tasks.filter (fun u => !u.isHigh) = ns.map QueueNode.task := by
  have hhigh : ∀ u ∈ hs.map QueueNode.task, u.isHigh = true := by
    intro u hu
    obtain ⟨n, hn, rfl⟩ := List.mem_map.1 hu
    rw [← hr.flag n (List.mem_append_left ns hn), hr.high n hn]
  have hnormal : ∀ u ∈ ns.map QueueNode.task, u.isHigh = false := by
    intro u hu
    obtain ⟨n, hn, rfl⟩ := List.mem_map.1 hu
    rw [← hr.flag n (List.mem_append_right hs hn), hr.normal n hn]
  rw [tasks_eq hr, List.map_append, List.filter_append, List.filter_append]
  constructor
  · have hnil : (ns.map QueueNode.task).filter Task.isHigh = [] :=
      List.filter_eq_nil_iff.2 fun u hu => by simp [hnormal u hu]
    rw [List.filter_eq_self.2 hhigh, hnil, List.append_nil]
  · have hnil : (hs.map QueueNode.task).filter (fun u => !u.isHigh) = [] :=
      List.filter_eq_nil_iff.2 fun u hu => by simp [hhigh u hu]
    rw [hnil, List.nil_append]
    exact List.filter_eq_self.2 fun u hu => by simp [hnormal u hu]

/-- High-priority tasks are in front. -/
theorem tasks_eq_filter_append (q : ValidQueue) :
    q.tasks = q.tasks.filter Task.isHigh ++ q.tasks.filter fun u => !u.isHigh := by
  obtain ⟨hs, ns, hr⟩ := q.2
  obtain ⟨h1, h2⟩ := filter_isHigh hr
  rw [h1, h2, tasks_eq hr, List.map_append]

theorem enqueue_returns (q : ValidQueue) (t : Task) :
    ∃ rc q', q.1.enqueue t = some (rc, q') ∧ q'.Valid := by
  obtain ⟨hs, ns, hr⟩ := q.2
  rcases hfull : q.1.isFull with - | -
  · rcases hdup : (!q.1.allowDuplicates && (hs ++ ns).any (hasId t.taskId)) with - | -
    · obtain ⟨q', hrun, hr', -⟩ := hr.enqueue_of_new hfull hdup
      exact ⟨0, q', hrun, _, _, hr'⟩
    · exact ⟨-3, q.1, hr.enqueue_of_duplicate hfull hdup, q.2⟩
  · exact ⟨-2, q.1, hr.enqueue_of_full hfull, q.2⟩

theorem isSome_enqueue (q : ValidQueue) (t : Task) : (q.1.enqueue t).isSome := by
  obtain ⟨rc, q', hrun, -⟩ := q.enqueue_returns t
  rw [hrun]
  rfl

theorem valid_enqueue (q : ValidQueue) (t : Task) :
    ((q.1.enqueue t).get (q.isSome_enqueue t)).2.Valid := by
  obtain ⟨rc, q', hrun, hq'⟩ := q.enqueue_returns t
  simpa only [hrun, Option.get_some] using hq'

/-- `task_queue_enqueue`. -/
def enqueue (q : ValidQueue) (t : Task) : ℤ × ValidQueue :=
  (((q.1.enqueue t).get (q.isSome_enqueue t)).1, ⟨_, q.valid_enqueue t⟩)

theorem enqueue_eq {rc : ℤ} {q' : TaskQueue} (hrun : q.1.enqueue t = some (rc, q'))
    (hq' : q'.Valid) : q.enqueue t = (rc, ⟨q', hq'⟩) := by
  simp only [enqueue, hrun, Option.get_some]

/-- **An accepted task** is behind its priority level, and nothing else moves. -/
theorem enqueue_of_accepts (h : q.Accepts t) :
    (q.enqueue t).1 = 0 ∧ (q.enqueue t).2.tasks = insertTask t q.tasks ∧
      SameConfig q.1 (q.enqueue t).2.1 := by
  obtain ⟨hs, ns, hr⟩ := q.2
  obtain ⟨q', hrun, hr', hcfg⟩ := hr.enqueue_of_new h.1 ((not_duplicate_iff hr).2 h.2)
  obtain ⟨h1, h2⟩ := filter_isHigh hr
  rw [enqueue_eq hrun ⟨_, _, hr'⟩]
  refine ⟨rfl, ?_, hcfg⟩
  rw [tasks_eq hr', insertTask, h1, h2, highAfter, normalAfter]
  rcases t.isHigh with - | - <;> simp [newNode, QueueNode.task]

/-- **A refused task** changes nothing. -/
theorem enqueue_of_not_accepts (h : ¬ q.Accepts t) :
    (q.enqueue t).1 ≠ 0 ∧ (q.enqueue t).2 = q := by
  obtain ⟨hs, ns, hr⟩ := q.2
  rcases hfull : q.1.isFull with - | -
  · have hdup : (!q.1.allowDuplicates && (hs ++ ns).any (hasId t.taskId)) = true := by
      by_contra hne
      exact h ⟨hfull, (not_duplicate_iff hr).1 (Bool.eq_false_iff.2 hne)⟩
    rw [enqueue_eq (hr.enqueue_of_duplicate hfull hdup) q.2]
    exact ⟨Int.neg_ne_zero.2 (by decide), rfl⟩
  · rw [enqueue_eq (hr.enqueue_of_full hfull) q.2]
    exact ⟨Int.neg_ne_zero.2 (by decide), rfl⟩

theorem insertTask_perm (t : Task) (l : List Task) : (insertTask t l).Perm (t :: l) := by
  have hsplit : (l.filter Task.isHigh ++ l.filter fun u => !u.isHigh).Perm l :=
    List.filter_append_perm Task.isHigh l
  rw [insertTask]
  rcases t.isHigh with - | -
  · simp only [Bool.false_eq_true, if_false, List.append_nil]
    exact (List.perm_append_singleton t _).trans (hsplit.cons t)
  · simp only [if_true, List.append_nil, List.append_assoc, List.singleton_append]
    exact List.perm_middle.trans (hsplit.cons t)

theorem count_enqueue (hacc : q.Accepts t) (u : Task) :
    (q.enqueue t).2.tasks.count u = [t].count u + q.tasks.count u := by
  rw [(enqueue_of_accepts hacc).2.1, (insertTask_perm t _).count_eq, ← List.singleton_append,
    List.count_append]

theorem dequeue_returns (q : ValidQueue) :
    ∃ rc t q', q.1.dequeue = some (rc, t, q') ∧ q'.Valid := by
  obtain ⟨hs, ns, hr⟩ := q.2
  rw [TaskQueue.dequeue]
  split
  · exact ⟨-1, none, q.1, rfl, q.2⟩
  · next hne =>
    rcases hl : hs ++ ns with - | ⟨n, l⟩
    · exact absurd (hr.chain.head_eq_zero_iff.2 hl) hne
    · obtain ⟨q', hrun, hr', -⟩ := hr.takeHead hl
      exact ⟨0, some n.task, q', by rw [hrun]; rfl, _, _, hr'⟩

theorem isSome_dequeue (q : ValidQueue) : q.1.dequeue.isSome := by
  obtain ⟨rc, t, q', hrun, -⟩ := q.dequeue_returns
  rw [hrun]
  rfl

theorem valid_dequeue (q : ValidQueue) : (q.1.dequeue.get q.isSome_dequeue).2.2.Valid := by
  obtain ⟨rc, t, q', hrun, hq'⟩ := q.dequeue_returns
  simpa only [hrun, Option.get_some] using hq'

/-- `task_queue_dequeue`: the task copied out, if there is one (the return code is then 0). -/
def dequeue (q : ValidQueue) : Option Task × ValidQueue :=
  ((q.1.dequeue.get q.isSome_dequeue).2.1, ⟨_, q.valid_dequeue⟩)

theorem dequeue_eq {rc : ℤ} {u : Option Task} {q' : TaskQueue}
    (hrun : q.1.dequeue = some (rc, u, q')) (hq' : q'.Valid) : q.dequeue = (u, ⟨q', hq'⟩) := by
  simp only [dequeue, hrun, Option.get_some]

theorem tasks_eq_nil_iff (hr : q.1.Represents hs ns) : q.tasks = [] ↔ q.1.head = 0 := by
  rw [hr.chain.head_eq_zero_iff, tasks_eq hr, List.map_eq_nil_iff]

theorem dequeue_of_nil (h : q.tasks = []) : q.dequeue = (none, q) := by
  obtain ⟨hs, ns, hr⟩ := q.2
  have hrun : q.1.dequeue = some (-1, none, q.1) := by
    rw [TaskQueue.dequeue, if_pos ((tasks_eq_nil_iff hr).1 h)]
  exact dequeue_eq hrun q.2

/-- **Dequeueing** hands out the first task. -/
theorem dequeue_of_cons {l : List Task} (h : q.tasks = t :: l) :
    q.dequeue.1 = some t ∧ q.dequeue.2.tasks = l ∧ SameConfig q.1 q.dequeue.2.1 := by
  obtain ⟨hs, ns, hr⟩ := q.2
  have hmap := (tasks_eq hr).symm.trans h
  rcases hl : hs ++ ns with - | ⟨n, k⟩
  · rw [hl] at hmap
    exact absurd hmap nofun
  · rw [hl] at hmap
    obtain ⟨hn, hk⟩ := List.cons.inj hmap
    obtain ⟨q', hrun, hr', hcfg⟩ := hr.takeHead hl
    have hhead : q.1.head ≠ 0 := fun h0 => absurd (hl ▸ hr.chain.head_eq_zero_iff.1 h0) nofun
    have hdeq : q.1.dequeue = some (0, some t, q') := by
      rw [TaskQueue.dequeue, if_neg hhead, hrun, hn]
      rfl
    rw [dequeue_eq hdeq ⟨_, _, hr'⟩]
    refine ⟨rfl, ?_, hcfg⟩
    rw [tasks_eq hr', ← List.drop_append, hl]
    exact hk

theorem count_dequeue {l : List Task} (h : q.tasks = t :: l) (u : Task) :
    q.tasks.count u = [t].count u + q.dequeue.2.tasks.count u := by
  rw [(dequeue_of_cons h).2.1, h, ← List.singleton_append, List.count_append]

/-- `task_queue_is_empty`. -/
def isEmpty (q : ValidQueue) : Bool := q.1.isEmpty

theorem isEmpty_iff : q.isEmpty = true ↔ q.tasks = [] := by
  obtain ⟨hs, ns, hr⟩ := q.2
  rw [isEmpty, TaskQueue.isEmpty, decide_eq_true_iff, hr.size, tasks_eq hr,
    List.length_eq_zero_iff, List.map_eq_nil_iff]

end ValidQueue

end DistributedComputing
