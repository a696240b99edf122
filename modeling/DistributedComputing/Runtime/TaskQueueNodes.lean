import Mathlib.Data.List.TakeWhile
import DistributedComputing.Runtime.TaskQueue

/-!
# What the queue's functions do to the linked list

`Represents q hs ns`: the nodes `hs ++ ns`, high-priority ones first, are the chain from `q.head`,
`q.tail` is the last of them and `q.size` their number. Each function of the source has one lemma
that runs it on a represented queue — in particular it does not fault and its loops end — and gives
the nodes represented afterwards.

The insertion cases of `task_queue_enqueue` are kept apart as in the source: at the head
(`insertHigh_of_nil`), behind the last high-priority node (`insertHigh_of_concat`), into an empty
list and at the tail (`insertNormal_of_concat`). `insertNode` puts them together.
-/

namespace DistributedComputing

open LinkedHeap

/-- A node of the list: its address and what it holds. -/
abbrev QueueNode := Addr × TaskNode

/-- The task a node holds. -/
def QueueNode.task (n : QueueNode) : Task := n.2.task

namespace TaskQueue

/-- The queue holds the high-priority nodes `hs` and then the normal nodes `ns`. -/
structure Represents (q : TaskQueue) (hs ns : List QueueNode) : Prop where
  chain : Chain q.heap q.head (hs ++ ns)
  tail : q.tail = lastAddr 0 (hs ++ ns)
  size : q.size = (hs ++ ns).length
  high : ∀ n ∈ hs, n.2.priority = true
  normal : ∀ n ∈ ns, n.2.priority = false
  flag : ∀ n ∈ hs ++ ns, n.2.priority = n.task.isHigh
  highCount : q.highPriorityCount = UInt64.ofNat hs.length
  alive : q.shuttingDown = false

theorem represents_create (config : TaskQueueConfig) : (create config).Represents [] [] where
  chain := chain_nil _
  tail := rfl
  size := rfl
  high := List.forall_mem_nil _
  normal := List.forall_mem_nil _
  flag := List.forall_mem_nil _
  highCount := rfl
  alive := rfl

variable {q : TaskQueue} {hs ns : List QueueNode}

/-! ### Searching -/

/-- The node holds the task with the given id. -/
def hasId (taskId : UInt64) (n : QueueNode) : Bool := n.task.taskId = taskId

theorem hasId_iff {taskId : UInt64} {n : QueueNode} :
    hasId taskId n = true ↔ n.2.task.taskId = taskId :=
  decide_eq_true_iff

/-- The search for an id ends behind the nodes with other ids. -/
theorem Represents.walk_taskId (h : q.Represents hs ns) (taskId : UInt64) :
    walk q.heap (fun n => n.task.taskId ≠ taskId) q.heap.brk 0 q.head =
      some (lastAddr 0 ((hs ++ ns).takeWhile fun n => n.2.task.taskId ≠ taskId),
        headAddr ((hs ++ ns).dropWhile fun n => n.2.task.taskId ≠ taskId)) :=
  walk_eq h.chain.seg h.chain.length_lt 0

theorem Represents.headAddr_dropWhile_eq_zero_iff (h : q.Represents hs ns)
    (p : QueueNode → Bool) :
    headAddr ((hs ++ ns).dropWhile p) = 0 ↔ (hs ++ ns).dropWhile p = [] := by
  have hc := h.chain
  rw [← List.takeWhile_append_dropWhile (p := p) (l := hs ++ ns)] at hc
  exact hc.headAddr_eq_zero_iff

theorem Represents.taskExists_eq (h : q.Represents hs ns) (taskId : UInt64) :
    q.taskExists taskId = some ((hs ++ ns).any (hasId taskId)) := by
  rw [taskExists, h.walk_taskId, Option.map_some, Option.some_inj, Bool.eq_iff_iff,
    decide_eq_true_iff, ne_eq, h.headAddr_dropWhile_eq_zero_iff, List.dropWhile_eq_nil_iff,
    List.any_eq_true]
  simp only [hasId_iff, decide_eq_true_iff, ne_eq, not_forall, not_not, exists_prop]

theorem Represents.isDuplicate_eq (h : q.Represents hs ns) (taskId : UInt64) :
    q.isDuplicate taskId = some (!q.allowDuplicates && (hs ++ ns).any (hasId taskId)) := by
  rw [isDuplicate, h.taskExists_eq]
  cases q.allowDuplicates <;> rfl

/-! ### Adding -/

/-- The node `task_queue_enqueue` makes for a task. -/
def newNode (q : TaskQueue) (t : Task) : QueueNode := (q.heap.brk, ⟨t, t.isHigh⟩)

/-- The queue with the new node allocated and not yet linked in. -/
def withNode (q : TaskQueue) (t : Task) : TaskQueue :=
  { q with heap := q.heap.alloc ⟨⟨t, t.isHigh⟩, 0⟩ }

/-- There are no high-priority nodes exactly if the head is `NULL` or normal. -/
theorem Represents.noHighPriority_withNode (h : q.Represents hs ns) (t : Task) :
    (q.withNode t).noHighPriority = some (decide (hs = [])) := by
  have hc : Chain (q.withNode t).heap q.head (hs ++ ns) := h.chain.alloc _
  rw [noHighPriority]
  show (if q.head = 0 then _ else _) = _
  split
  · next h0 =>
    have hnil := hc.head_eq_zero_iff.1 h0
    simp [(List.append_eq_nil_iff.1 hnil).1]
  · next h0 =>
    have hne : hs ++ ns ≠ [] := fun hnil => h0 (hc.head_eq_zero_iff.2 hnil)
    rcases hs with - | ⟨⟨a, v⟩, hs⟩
    · rcases ns with - | ⟨⟨a, v⟩, ns⟩
      · exact absurd rfl hne
      · obtain ⟨ha, -, n, hr, -⟩ := hc.seg
        show ((q.withNode t).heap.read q.head).map _ = _
        rw [ha, hr]
        simpa using h.normal (a, v) List.mem_cons_self
    · obtain ⟨ha, -, n, hr, -⟩ := hc.seg
      show ((q.withNode t).heap.read q.head).map _ = _
      rw [ha, hr]
      simpa using h.high (a, v) List.mem_cons_self

/-- **Insertion at the head**, into a queue without high-priority nodes. -/
theorem Represents.insertHigh_of_nil (h : q.Represents [] ns) (t : Task) :
    (q.withNode t).insertHigh q.heap.brk =
      some { q with
        heap := q.heap.alloc ⟨⟨t, t.isHigh⟩, q.head⟩
        head := q.heap.brk
        tail := lastAddr 0 (q.newNode t :: ns) } := by
  have htail : (if q.tail = 0 then q.heap.brk else q.tail) = lastAddr 0 (q.newNode t :: ns) := by
    rw [h.tail]
    rcases List.eq_nil_or_concat ns with rfl | ⟨l, ⟨a, v⟩, rfl⟩
    · rfl
    · have ha : a ≠ 0 := h.chain.seg.ne_zero (by simp)
      rw [List.nil_append, List.concat_eq_append, lastAddr_concat, if_neg ha, ← List.cons_append,
        lastAddr_concat]
  rw [insertHigh, h.noHighPriority_withNode]
  simp only [withNode, decide_true, Option.bind_eq_bind, Option.bind_some, if_true,
    Heap.setNext_alloc]
  rw [← htail]
  rfl

/-- **Insertion behind the last high-priority node.** -/
theorem Represents.insertHigh_of_concat {b : Addr} {w : TaskNode}
    (h : q.Represents (hs ++ [(b, w)]) ns) (t : Task) :
    (q.withNode t).insertHigh q.heap.brk =
      some { q with
        heap := (q.heap.alloc ⟨⟨t, t.isHigh⟩, headAddr ns⟩).write b ⟨w, q.heap.brk⟩
        tail := if headAddr ns = 0 then q.heap.brk else q.tail } := by
  have hc : Chain (q.withNode t).heap q.head (hs ++ [(b, w)] ++ ns) := h.chain.alloc _
  have htake : (hs ++ [(b, w)] ++ ns).takeWhile (fun n => n.2.priority) = hs ++ [(b, w)] :=
    List.takeWhile_append_of_pos h.high |>.trans <| by
      cases ns with
      | nil => simp
      | cons n ns => simp [h.normal n List.mem_cons_self]
  have hdrop : (hs ++ [(b, w)] ++ ns).dropWhile (fun n => n.2.priority) = ns :=
    List.dropWhile_append_of_pos h.high |>.trans <| by
      cases ns with
      | nil => rfl
      | cons n ns => simp [h.normal n List.mem_cons_self]
  have hwalk : walk (q.withNode t).heap TaskNode.priority (q.withNode t).heap.brk 0 q.head =
      some (b, headAddr ns) := by
    rw [walk_eq hc.seg hc.length_lt, htake, hdrop, lastAddr_concat]
  -- The walk stops with `prev` at the last high-priority node, which gets the new link.
  have hb : b ≠ 0 := hc.seg.ne_zero (by simp)
  have hbrk : b ≠ q.heap.brk := Nat.ne_of_lt (h.chain.below b (by simp))
  have hread : (q.heap.alloc ⟨⟨t, t.isHigh⟩, headAddr ns⟩).read b = some ⟨w, headAddr ns⟩ := by
    rw [Heap.read_alloc_of_ne _ hbrk]
    exact (List.append_cons hs (b, w) ns ▸ h.chain).read_middle
  rw [insertHigh, h.noHighPriority_withNode]
  show (if decide (hs ++ [(b, w)] = []) = true then _ else
    (walk (q.withNode t).heap TaskNode.priority (q.withNode t).heap.brk 0 q.head).bind _) = _
  rw [hwalk]
  simp only [withNode, List.append_eq_nil_iff, List.cons_ne_self, and_false, decide_false,
    Bool.false_eq_true, if_false, Option.bind_eq_bind, Option.bind_some, Heap.setNext_alloc, hb,
    Heap.setNext_of_read hread]
  rfl

/-- **Insertion at the tail.** -/
theorem Represents.insertNormal_of_concat {l : List QueueNode} {b : Addr} {w : TaskNode}
    (h : q.Represents hs ns) (hl : hs ++ ns = l ++ [(b, w)]) (t : Task) :
    (q.withNode t).insertNormal q.heap.brk =
      some { q with
        heap := (q.heap.alloc ⟨⟨t, t.isHigh⟩, 0⟩).write b ⟨w, q.heap.brk⟩
        tail := q.heap.brk } := by
  have hc := h.chain
  rw [hl] at hc
  have hhead : q.head ≠ 0 := fun h0 => absurd (hc.head_eq_zero_iff.1 h0) (by simp)
  have htail : q.tail = b := by rw [h.tail, hl, lastAddr_concat]
  have hbrk : b ≠ q.heap.brk := Nat.ne_of_lt (hc.below b (by simp))
  have hread : (q.heap.alloc ⟨⟨t, t.isHigh⟩, 0⟩).read b = some ⟨w, 0⟩ := by
    rw [Heap.read_alloc_of_ne _ hbrk]
    exact hc.read_middle
  rw [insertNormal]
  show (if q.head = 0 then _ else ((q.withNode t).heap.setNext q.tail q.heap.brk).map _) = _
  rw [if_neg hhead, htail, withNode, Heap.setNext_of_read hread]
  rfl

/-- The node lists after a task was added. -/
def highAfter (q : TaskQueue) (t : Task) (hs : List QueueNode) : List QueueNode :=
  if t.isHigh then hs ++ [q.newNode t] else hs

@[inherit_doc highAfter]
def normalAfter (q : TaskQueue) (t : Task) (ns : List QueueNode) : List QueueNode :=
  if t.isHigh then ns else ns ++ [q.newNode t]

/-- What linking in the new node has to achieve; the counters are common to all cases. -/
theorem Represents.of_chain (h : q.Represents hs ns) (t : Task) {q' : TaskQueue}
    (hchain : Chain q'.heap q'.head (q.highAfter t hs ++ q.normalAfter t ns))
    (htail : q'.tail = lastAddr 0 (q.highAfter t hs ++ q.normalAfter t ns))
    (hsize : q'.size = q.size + 1)
    (hcount : q'.highPriorityCount =
      if t.isHigh then q.highPriorityCount + 1 else q.highPriorityCount)
    (halive : q'.shuttingDown = q.shuttingDown) :
    q'.Represents (q.highAfter t hs) (q.normalAfter t ns) := by
  have hmem : ∀ n ∈ q.highAfter t hs ++ q.normalAfter t ns,
      n ∈ hs ++ ns ∨ n = q.newNode t := by
    intro n hn
    rw [highAfter, normalAfter] at hn
    split at hn <;> simp at hn ⊢ <;> tauto
  refine ⟨hchain, htail, ?_, ?_, ?_, ?_, ?_, halive.trans h.alive⟩
  · rw [hsize, h.size, highAfter, normalAfter]
    split <;> simp <;> omega
  · intro n hn
    rw [highAfter] at hn
    split at hn
    · next ht =>
      rcases List.mem_append.1 hn with hn | hn
      · exact h.high n hn
      · rw [List.mem_singleton.1 hn]; exact ht
    · exact h.high n hn
  · intro n hn
    rw [normalAfter] at hn
    split at hn
    · exact h.normal n hn
    · next ht =>
      rcases List.mem_append.1 hn with hn | hn
      · exact h.normal n hn
      · rw [List.mem_singleton.1 hn]; exact Bool.eq_false_iff.2 ht
  · intro n hn
    rcases hmem n hn with hn | rfl
    · exact h.flag n hn
    · rfl
  · rw [hcount, h.highCount, highAfter]
    split
    · rw [List.length_append]
      simp
    · rfl

/-- The fields that no call changes. -/
structure SameConfig (q q' : TaskQueue) : Prop where
  maxSize : q'.maxSize = q.maxSize
  allowDuplicates : q'.allowDuplicates = q.allowDuplicates

theorem Represents.insertNode_high (h : q.Represents hs ns) {t : Task} (ht : t.isHigh = true) :
    ∃ q', q.insertNode t = some q' ∧ q'.Represents (q.highAfter t hs) (q.normalAfter t ns) ∧
      SameConfig q q' := by
  have hinsert : q.insertNode t =
      ((q.withNode t).insertHigh q.heap.brk).map fun q =>
        { q with
          highPriorityCount := q.highPriorityCount + 1
          size := q.size + 1
          totalEnqueued := q.totalEnqueued + 1 } := by
    rw [insertNode, if_pos ht, withNode]
    cases insertHigh _ _ <;> rfl
  have hafter : q.highAfter t hs ++ q.normalAfter t ns = hs ++ q.newNode t :: ns := by
    rw [highAfter, normalAfter, if_pos ht, if_pos ht, ← List.append_cons]
  rw [hinsert]
  rcases List.eq_nil_or_concat hs with rfl | ⟨hs, ⟨b, w⟩, rfl⟩
  · rw [h.insertHigh_of_nil]
    refine ⟨_, rfl, h.of_chain t ?_ (hafter ▸ rfl) rfl (if_pos ht).symm rfl, rfl, rfl⟩
    rw [hafter]
    exact h.chain.push _
  · rw [List.concat_eq_append] at h hafter ⊢
    rw [h.insertHigh_of_concat]
    have hc := h.chain
    refine ⟨_, rfl, h.of_chain t ?_ ?_ rfl (if_pos ht).symm rfl, rfl, rfl⟩
    · rw [hafter, ← List.append_cons]
      exact Chain.insertAfter (List.append_cons hs (b, w) ns ▸ hc) _
    · show (if headAddr ns = 0 then q.heap.brk else q.tail) = _
      rw [hafter, h.tail]
      -- the tail moves only if no normal node follows
      rcases List.eq_nil_or_concat ns with rfl | ⟨ns, ⟨a, v⟩, rfl⟩
      · rw [newNode, lastAddr_concat]
        rfl
      · rw [List.concat_eq_append] at hc ⊢
        have hne : headAddr (ns ++ [(a, v)]) ≠ 0 := fun h0 => absurd (hc.headAddr_eq_zero_iff.1 h0)
          (by simp)
        rw [if_neg hne, ← List.append_assoc, lastAddr_concat, ← List.cons_append,
          ← List.append_assoc, lastAddr_concat]

theorem Represents.insertNode_normal (h : q.Represents hs ns) {t : Task} (ht : t.isHigh = false) :
    ∃ q', q.insertNode t = some q' ∧ q'.Represents (q.highAfter t hs) (q.normalAfter t ns) ∧
      SameConfig q q' := by
  have hne : ¬ t.isHigh = true := by simp [ht]
  have hinsert : q.insertNode t =
      ((q.withNode t).insertNormal q.heap.brk).map fun q =>
        { q with size := q.size + 1, totalEnqueued := q.totalEnqueued + 1 } := by
    rw [insertNode, if_neg hne, withNode]
    cases insertNormal _ _ <;> rfl
  have hafter : q.highAfter t hs ++ q.normalAfter t ns = (hs ++ ns) ++ [q.newNode t] := by
    rw [highAfter, normalAfter, if_neg hne, if_neg hne, List.append_assoc]
  rw [hinsert]
  have hc := h.chain
  rcases List.eq_nil_or_concat (hs ++ ns) with hnil | ⟨l, ⟨b, w⟩, hl⟩
  · -- The first node of the list.
    rw [hnil] at hafter hc
    have hhead : q.head = 0 := hc.head_eq_zero_iff.2 rfl
    have hnormal : (q.withNode t).insertNormal q.heap.brk =
        some { q.withNode t with head := q.heap.brk, tail := q.heap.brk } :=
      if_pos hhead
    rw [hnormal]
    refine ⟨_, rfl, h.of_chain t ?_ (hafter ▸ rfl) rfl (if_neg hne).symm rfl, rfl, rfl⟩
    rw [hhead] at hc
    rw [hafter]
    exact hc.push ⟨t, t.isHigh⟩
  · rw [List.concat_eq_append] at hl
    rw [h.insertNormal_of_concat hl]
    rw [hl] at hafter hc
    refine ⟨_, rfl, h.of_chain t ?_ ?_ rfl (if_neg hne).symm rfl, rfl, rfl⟩
    · rw [hafter, List.append_assoc]
      exact hc.insertAfter ⟨t, t.isHigh⟩
    · rw [hafter, newNode, lastAddr_concat]

/-- **Adding a node** never faults, and appends it to the list of its priority. -/
theorem Represents.insertNode (h : q.Represents hs ns) (t : Task) :
    ∃ q', q.insertNode t = some q' ∧ q'.Represents (q.highAfter t hs) (q.normalAfter t ns) ∧
      SameConfig q q' := by
  rcases ht : t.isHigh with - | -
  · exact h.insertNode_normal ht
  · exact h.insertNode_high ht

theorem isFull_iff (q : TaskQueue) :
    q.isFull = true ↔ 0 < q.maxSize ∧ q.maxSize ≤ q.size := by
  rw [isFull, decide_eq_true_iff, Nat.pos_iff_ne_zero]

theorem Represents.enqueue_of_full (h : q.Represents hs ns) {t : Task} (hfull : q.isFull = true) :
    q.enqueue t = some (-2, q) := by
  simp [enqueue, h.alive, (isFull_iff q).1 hfull]

theorem Represents.enqueue_of_duplicate (h : q.Represents hs ns) {t : Task}
    (hfull : q.isFull = false)
    (hdup : (!q.allowDuplicates && (hs ++ ns).any (hasId t.taskId)) = true) :
    q.enqueue t = some (-3, q) := by
  have hroom : ¬ (0 < q.maxSize ∧ q.maxSize ≤ q.size) := by
    rw [← isFull_iff, hfull]
    exact Bool.false_ne_true
  simp only [enqueue, h.alive, hroom, h.isDuplicate_eq, hdup, if_false, Bool.false_eq_true,
    Option.bind_eq_bind, Option.bind_some, if_true]
  rfl

theorem Represents.enqueue_of_new (h : q.Represents hs ns) {t : Task} (hfull : q.isFull = false)
    (hdup : (!q.allowDuplicates && (hs ++ ns).any (hasId t.taskId)) = false) :
    ∃ q', q.enqueue t = some (0, q') ∧ q'.Represents (q.highAfter t hs) (q.normalAfter t ns) ∧
      SameConfig q q' := by
  have hroom : ¬ (0 < q.maxSize ∧ q.maxSize ≤ q.size) := by
    rw [← isFull_iff, hfull]
    exact Bool.false_ne_true
  obtain ⟨q', hrun, hr, hcfg⟩ := h.insertNode t
  refine ⟨q', ?_, hr, hcfg⟩
  simp only [enqueue, h.alive, hroom, h.isDuplicate_eq, hdup, if_false, Bool.false_eq_true,
    Option.bind_eq_bind, Option.bind_some, hrun]
  rfl

/-! ### Taking -/

theorem ofNat_length_cons {α : Type*} (a : α) (l : List α) :
    UInt64.ofNat (a :: l).length - 1 = UInt64.ofNat l.length := by
  rw [List.length_cons, UInt64.ofNat_add]
  exact UInt64.add_sub_cancel _ _

theorem Represents.of_sublist {hs' ns' : List QueueNode} (h : q.Represents hs ns)
    (hhs : hs'.Sublist hs) (hns : ns'.Sublist ns) {q' : TaskQueue}
    (hchain : Chain q'.heap q'.head (hs' ++ ns')) (htail : q'.tail = lastAddr 0 (hs' ++ ns'))
    (hsize : q'.size = (hs' ++ ns').length)
    (hcount : q'.highPriorityCount = UInt64.ofNat hs'.length)
    (halive : q'.shuttingDown = q.shuttingDown) : q'.Represents hs' ns' where
  chain := hchain
  tail := htail
  size := hsize
  high := fun m hm => h.high m (hhs.subset hm)
  normal := fun m hm => h.normal m (hns.subset hm)
  flag := fun m hm => h.flag m ((hhs.append hns).subset hm)
  highCount := hcount
  alive := halive.trans h.alive

theorem lastAddr_drop_middle (l₁ l₂ : List QueueNode) (n : QueueNode) (hne : l₂ ≠ []) :
    lastAddr 0 (l₁ ++ n :: l₂) = lastAddr 0 (l₁ ++ l₂) := by
  rcases List.eq_nil_or_concat l₂ with rfl | ⟨l, ⟨a, v⟩, rfl⟩
  · exact absurd rfl hne
  · rw [List.concat_eq_append, ← List.append_assoc, lastAddr_concat, ← List.cons_append,
      ← List.append_assoc, lastAddr_concat]

/-- **Taking the head** of a non-empty queue. -/
theorem Represents.takeHead {n : QueueNode} {l : List QueueNode} (h : q.Represents hs ns)
    (hl : hs ++ ns = n :: l) :
    ∃ q', q.takeHead = some (n.task, q') ∧ q'.Represents (hs.drop 1) (ns.drop (1 - hs.length)) ∧
      SameConfig q q' := by
  obtain ⟨a, v⟩ := n
  have hc := h.chain
  rw [hl] at hc
  have hsplit : Chain q.heap q.head ([] ++ (a, v) :: l) := hc
  have hhead : q.head = a := hc.head_eq
  have hread : q.heap.read q.head = some ⟨v, headAddr l⟩ := hhead ▸ hsplit.read_middle
  have hrest : hs.drop 1 ++ ns.drop (1 - hs.length) = l := by
    rw [← List.drop_append, hl]
    rfl
  rw [TaskQueue.takeHead, hread, hhead]
  refine ⟨_, rfl, h.of_sublist (List.drop_sublist ..) (List.drop_sublist ..) ?_ ?_ ?_ ?_ rfl,
    rfl, rfl⟩
  · rw [hrest]
    exact hc.pop
  · show (if headAddr l = 0 then 0 else q.tail) = _
    rw [hrest, h.tail, hl]
    by_cases hnil : l = []
    · rw [hnil]
      rfl
    · have hsplit : Chain q.heap q.head ([(a, v)] ++ l) := hc
      have hne : headAddr l ≠ 0 := fun h0 => hnil (hsplit.headAddr_eq_zero_iff.1 h0)
      rw [if_neg hne]
      exact lastAddr_drop_middle [] l (a, v) hnil
  · show q.size - 1 = _
    rw [hrest, h.size, hl]
    rfl
  · -- The head is a high-priority node exactly if there are high-priority nodes.
    show (if v.priority then q.highPriorityCount - 1 else q.highPriorityCount) = _
    rw [h.highCount]
    rcases hs with - | ⟨m, hs⟩
    · obtain rfl : ns = (a, v) :: l := hl
      have hv : v.priority = false := h.normal (a, v) List.mem_cons_self
      rw [hv]
      rfl
    · obtain ⟨rfl, -⟩ := List.cons.inj hl
      have hv : v.priority = true := h.high (a, v) List.mem_cons_self
      rw [if_pos hv, ofNat_length_cons]
      rfl

/-- **Unlinking the first match.** The node may be the first or the last of the list, or both. -/
theorem Represents.removeById_of_split {l₁ l₂ : List QueueNode} {a : Addr} {v : TaskNode}
    (h : q.Represents hs ns) (hl : hs ++ ns = l₁ ++ (a, v) :: l₂)
    (hno : ∀ n ∈ l₁, n.2.task.taskId ≠ v.task.taskId) :
    ∃ q', q.removeById v.task.taskId = some (0, q') ∧ Chain q'.heap q'.head (l₁ ++ l₂) ∧
      q'.tail = lastAddr 0 (l₁ ++ l₂) ∧ q'.size = (l₁ ++ l₂).length ∧
      q'.highPriorityCount =
        (if v.priority then q.highPriorityCount - 1 else q.highPriorityCount) ∧
      q'.shuttingDown = q.shuttingDown ∧ SameConfig q q' := by
  have hc := h.chain
  rw [hl] at hc
  have hno' : ∀ n ∈ l₁, decide (n.2.task.taskId ≠ v.task.taskId) = true := by simpa using hno
  have hwalk := h.walk_taskId v.task.taskId
  rw [hl, List.takeWhile_append_of_pos hno', List.dropWhile_append_of_pos hno'] at hwalk
  simp only [ne_eq, not_true_eq_false, decide_false, Bool.false_eq_true, not_false_eq_true,
    List.takeWhile_cons_of_neg, List.append_nil, List.dropWhile_cons_of_neg, headAddr] at hwalk
  have ha : a ≠ 0 := hc.seg.ne_zero (by simp)
  have htail : (if a = q.tail then lastAddr 0 l₁ else q.tail) = lastAddr 0 (l₁ ++ l₂) := by
    rw [h.tail, hl]
    by_cases hnil : l₂ = []
    · rw [if_pos ((hc.eq_lastAddr_iff 0).2 hnil), hnil, List.append_nil]
    · rw [if_neg fun heq => hnil ((hc.eq_lastAddr_iff 0).1 heq), lastAddr_drop_middle l₁ l₂ _ hnil]
  have hsize : q.size - 1 = (l₁ ++ l₂).length := by
    rw [h.size, hl]
    simp
  rw [removeById]
  simp only [ne_eq, hwalk, Option.bind_eq_bind, Option.bind_some, ha, if_false, hc.read_middle]
  -- `prev` is null exactly if the match is the head.
  rcases List.eq_nil_or_concat l₁ with rfl | ⟨l, ⟨b, w⟩, rfl⟩
  · exact ⟨_, rfl, hc.pop, htail, hsize, rfl, rfl, rfl, rfl⟩
  · rw [List.concat_eq_append, List.append_assoc] at hc
    have hb : b ≠ 0 := hc.seg.ne_zero (by simp)
    have hread : q.heap.read b = some ⟨w, a⟩ := hc.read_middle
    simp only [List.concat_eq_append, lastAddr_concat, hb, if_false, Heap.setNext_of_read hread,
      Option.bind_some] at htail ⊢
    refine ⟨_, rfl, ?_, htail, by simpa using hsize, rfl, rfl, rfl, rfl⟩
    rw [List.append_assoc]
    exact hc.removeAfter

theorem Represents.removeById_of_high {taskId : UInt64} (h : q.Represents hs ns)
    (hmem : ∃ n ∈ hs, hasId taskId n) :
    ∃ q', q.removeById taskId = some (0, q') ∧ q'.Represents (hs.eraseP (hasId taskId)) ns ∧
      SameConfig q q' := by
  obtain ⟨n, hn, hid⟩ := hmem
  obtain ⟨⟨a, v⟩, k₁, k₂, hno, hv, rfl, herase⟩ := List.exists_of_eraseP hn hid
  obtain rfl : v.task.taskId = taskId := hasId_iff.1 hv
  obtain ⟨q', hrun, hchain, htail, hsize, hcount, halive, hcfg⟩ :=
    h.removeById_of_split
      (show k₁ ++ (a, v) :: k₂ ++ ns = k₁ ++ (a, v) :: (k₂ ++ ns) from List.append_assoc ..)
      fun m hm => mt hasId_iff.2 (hno m hm)
  rw [← List.append_assoc] at hchain htail hsize
  rw [herase]
  refine ⟨q', hrun, h.of_sublist ?_ (List.Sublist.refl ns) hchain htail hsize ?_ halive, hcfg⟩
  · exact (List.Sublist.refl k₁).append (List.sublist_cons_self _ k₂)
  · have hprio : v.priority = true := h.high (a, v) (by simp)
    rw [hcount, if_pos hprio, h.highCount, List.length_append, List.length_append,
      List.length_cons, ← Nat.add_assoc, UInt64.ofNat_add]
    exact UInt64.add_sub_cancel _ _

theorem Represents.removeById_of_normal {taskId : UInt64} (h : q.Represents hs ns)
    (hnone : ∀ n ∈ hs, ¬ hasId taskId n) (hmem : ∃ n ∈ ns, hasId taskId n) :
    ∃ q', q.removeById taskId = some (0, q') ∧ q'.Represents hs (ns.eraseP (hasId taskId)) ∧
      SameConfig q q' := by
  obtain ⟨n, hn, hid⟩ := hmem
  obtain ⟨⟨a, v⟩, k₁, k₂, hno, hv, rfl, herase⟩ := List.exists_of_eraseP hn hid
  obtain rfl : v.task.taskId = taskId := hasId_iff.1 hv
  obtain ⟨q', hrun, hchain, htail, hsize, hcount, halive, hcfg⟩ :=
    h.removeById_of_split (List.append_assoc hs k₁ ((a, v) :: k₂)).symm fun m hm =>
      mt hasId_iff.2 ((List.mem_append.1 hm).elim (hnone m) (hno m))
  rw [List.append_assoc] at hchain htail hsize
  rw [herase]
  refine ⟨q', hrun, h.of_sublist (List.Sublist.refl hs) ?_ hchain htail hsize ?_ halive, hcfg⟩
  · exact (List.Sublist.refl k₁).append (List.sublist_cons_self _ k₂)
  · have hprio : v.priority = false := h.normal (a, v) (by simp)
    rw [hcount, hprio, if_neg Bool.false_ne_true, h.highCount]

theorem Represents.removeById_of_not_mem {taskId : UInt64} (h : q.Represents hs ns)
    (hnone : ∀ n ∈ hs ++ ns, ¬ hasId taskId n) : q.removeById taskId = some (-1, q) := by
  have hdrop : (hs ++ ns).dropWhile (fun n => n.2.task.taskId ≠ taskId) = [] := by
    rw [List.dropWhile_eq_nil_iff]
    intro n hn
    exact decide_eq_true (mt hasId_iff.2 (hnone n hn))
  rw [removeById, h.walk_taskId, hdrop]
  rfl

/-- **Clearing** frees every node and reports their number. -/
theorem Represents.clear (h : q.Represents hs ns) :
    ∃ q', q.clear = some ((hs ++ ns).length, q') ∧ q'.Represents [] [] ∧ SameConfig q q' := by
  obtain ⟨heap, hfree⟩ := freeAll_eq h.chain h.chain.length_lt 0
  rw [TaskQueue.clear, hfree, Nat.zero_add]
  exact ⟨_, rfl, ⟨chain_nil _, rfl, rfl, List.forall_mem_nil _, List.forall_mem_nil _,
    List.forall_mem_nil _, rfl, h.alive⟩, rfl, rfl⟩

end TaskQueue

end DistributedComputing
