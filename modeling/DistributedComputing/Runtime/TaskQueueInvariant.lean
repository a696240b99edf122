import Mathlib.Algebra.Ring.Nat
import DistributedComputing.Runtime.TaskQueueThreads

/-!
# The representation invariant of the task queue, and its statistics

Head, tail and three counters are kept up by hand over insertions and removals at every place of the
list. `WellLinked` says what they have to be, and `exists_wellLinked` that they are, in every state
that any number of threads can bring about with any calls — waiting calls included — short of
destroying the queue.

The pointers are the business of `TaskQueueNodes` and the refinement of the two lists; what is added
here are the two facts about the **contents** that the refinement does not need, the bound on their
number and the distinctness of their ids. They are invariants of the two lists
(`PriorityFifo.Sound`) and come down to the linked list along the simulation.

The statistics are the other topic. One lemma, `Simulated.step`, says for every step how the
counters and the size move together. The documented balance leaves out the tasks that
`task_queue_remove_by_id` and `task_queue_clear` throw away (`stats_balance_iff`).
-/

namespace DistributedComputing

open LinkedHeap KeyedTable StepRun

/-! ### The contents -/

namespace PriorityFifo

/-- The contents are within the capacity, and have distinct ids if they have to. -/
structure Sound (a : PriorityFifo) : Prop where
  length_le : ∀ n, a.capacity = some n → a.tasks.length ≤ n
  nodup : a.allowDuplicates = false → (a.tasks.map Task.taskId).Nodup

/-- The two lists under the same configuration. -/
structure SameLimits (a a' : PriorityFifo) : Prop where
  capacity : a'.capacity = a.capacity
  allowDuplicates : a'.allowDuplicates = a.allowDuplicates

theorem sound_create (config : TaskQueueConfig) : (create config).Sound :=
  ⟨fun _ _ => Nat.zero_le _, fun _ => List.nodup_nil⟩

variable {a a' : PriorityFifo}

theorem Sound.of_sublist (h : a.Sound) (hlim : SameLimits a a')
    (hsub : a'.tasks.Sublist a.tasks) : a'.Sound where
  length_le := fun n hn => hsub.length_le.trans (h.length_le n (hlim.capacity ▸ hn))
  nodup := fun hdup => (h.nodup (hlim.allowDuplicates ▸ hdup)).sublist (hsub.map _)

theorem sameLimits_append (a : PriorityFifo) (t : Task) : SameLimits a (a.append t) := by
  rw [append]
  split <;> exact ⟨rfl, rfl⟩

theorem append_perm (a : PriorityFifo) (t : Task) : (a.append t).tasks.Perm (t :: a.tasks) := by
  rw [append]
  split
  · simp only [tasks, List.append_assoc, List.singleton_append]
    exact List.perm_middle
  · simp only [tasks, ← List.append_assoc]
    exact List.perm_append_singleton t _

theorem Sound.append {t : Task} (h : a.Sound) (hfull : a.full = false)
    (hdup : (!a.allowDuplicates && a.tasks.any (·.taskId = t.taskId)) = false) :
    (a.append t).Sound where
  length_le := by
    intro n hn
    rw [(sameLimits_append a t).capacity] at hn
    rw [full, hn] at hfull
    rw [length_append]
    exact Nat.lt_of_not_le (of_decide_eq_false hfull)
  nodup := by
    intro hd
    rw [(sameLimits_append a t).allowDuplicates] at hd
    rw [hd, Bool.not_false, Bool.true_and, List.any_eq_false] at hdup
    rw [((append_perm a t).map _).nodup_iff, List.map_cons, List.nodup_cons]
    refine ⟨fun hmem => ?_, h.nodup hd⟩
    obtain ⟨u, hu, hid⟩ := List.mem_map.1 hmem
    exact hdup u hu (decide_eq_true hid)

theorem sameLimits_tail (a : PriorityFifo) : SameLimits a a.tail := by
  rw [tail]
  split <;> exact ⟨rfl, rfl⟩

theorem tasks_tail (a : PriorityFifo) : a.tail.tasks = a.tasks.drop 1 := by
  rw [tail, tasks, tasks]
  rcases a.high with - | ⟨t, high⟩ <;> rfl

theorem Sound.tail (h : a.Sound) : a.tail.Sound :=
  h.of_sublist (sameLimits_tail a) (tasks_tail a ▸ List.drop_sublist 1 _)

theorem sameLimits_erase (a : PriorityFifo) (taskId : UInt64) : SameLimits a (a.erase taskId) := by
  rw [erase]
  split <;> exact ⟨rfl, rfl⟩

theorem tasks_erase_sublist (a : PriorityFifo) (taskId : UInt64) :
    (a.erase taskId).tasks.Sublist a.tasks := by
  rw [erase]
  split
  · exact (List.eraseP_sublist ..).append (List.Sublist.refl _)
  · exact (List.Sublist.refl _).append (List.eraseP_sublist ..)

/-- **Every call keeps the contents sound**, and the configuration. -/
theorem Sound.exec (h : a.Sound) (op : QueueOp) :
    (a.exec op).2.Sound ∧ SameLimits a (a.exec op).2 := by
  cases op with
  | enqueue t =>
    rw [PriorityFifo.exec]
    split
    · exact ⟨h, rfl, rfl⟩
    · next hfull =>
      split
      · exact ⟨h, rfl, rfl⟩
      · next hdup =>
        exact ⟨h.append (Bool.eq_false_iff.2 hfull) (Bool.eq_false_iff.2 hdup),
          sameLimits_append a t⟩
  | dequeue | dequeueWait => exact ⟨h.tail, sameLimits_tail a⟩
  | removeById taskId =>
    rw [PriorityFifo.exec]
    split
    · exact ⟨h.of_sublist (sameLimits_erase a taskId) (tasks_erase_sublist a taskId),
        sameLimits_erase a taskId⟩
    · exact ⟨h, rfl, rfl⟩
  | clear => exact ⟨h.of_sublist ⟨rfl, rfl⟩ (List.nil_sublist _), rfl, rfl⟩
  | peek | size | isEmpty | isFull => exact ⟨h, rfl, rfl⟩

end PriorityFifo

/-! ### Every step -/

/-- The number of tasks thrown away. -/
def discardedTasks (log : List QueueEvent) : ℕ :=
  (log.map fun
    | .discarded n => n
    | .returned .. => 0).sum

theorem discardedTasks_append (log log' : List QueueEvent) :
    discardedTasks (log ++ log') = discardedTasks log + discardedTasks log' := by
  rw [discardedTasks, List.map_append, List.sum_append]
  rfl

/-- The number of calls of `task_queue_enqueue` in a step. -/
def QueueLabel.enqueues : QueueLabel → ℕ
  | .call (.enqueue _) _ => 1
  | _ => 0

namespace SharedQueue

variable {s s' : SharedQueue} {l : QueueLabel} {es log : List QueueEvent} {config : TaskQueueConfig}

/-- The linked list holds the contents of two sound lists of the configuration. -/
structure Simulated (config : TaskQueueConfig) (s : SharedQueue) (a : PriorityFifo) : Prop where
  simulates : s.queue.Simulates a
  sound : a.Sound
  limits : PriorityFifo.SameLimits (.create config) a

theorem simulated_create (config : TaskQueueConfig) :
    Simulated config (create config) (.create config) :=
  ⟨TaskQueue.simulates_create config, PriorityFifo.sound_create config, rfl, rfl⟩

/-- How the counters and the size move in a step: `m` tasks are added and `n` are handed out. -/
structure Moves (s s' : SharedQueue) (es : List QueueEvent) (m n : ℕ) : Prop where
  totalEnqueued : s'.queue.totalEnqueued = s.queue.totalEnqueued + UInt64.ofNat m
  totalDequeued : s'.queue.totalDequeued = s.queue.totalDequeued + UInt64.ofNat n
  size : s'.queue.size + n + discardedTasks es = s.queue.size + m

/-- A step that leaves the list and its counters alone. -/
theorem Simulated.of_stay {a : PriorityFifo} {n : UInt64} (h : s.Simulated config a)
    (hq : s'.queue = { s.queue with blockedThreads := n }) (hes : discardedTasks es = 0) :
    ∃ a', s'.Simulated config a' ∧ ∃ m n, Moves s s' es m n ∧ m ≤ l.enqueues := by
  have hsim : s'.queue.Simulates a := hq ▸ h.simulates.of_blockedThreads n
  refine ⟨a, ⟨hsim, h.sound, h.limits⟩, 0, 0, ⟨?_, ?_, ?_⟩, Nat.zero_le _⟩
  · rw [hq]
    exact (UInt64.add_zero _).symm
  · rw [hq]
    exact (UInt64.add_zero _).symm
  · rw [hes, hq]

theorem Simulated.call {a : PriorityFifo} {op : QueueOp} {r : QueueReply} {queue : TaskQueue}
    (h : s.Simulated config a) (hrun : s.queue.exec op = some (r, queue)) :
    r = (a.exec op).1 ∧ queue.Simulates (a.exec op).2 := by
  obtain ⟨hs, ns, hr, -, -⟩ := h.simulates.nodes
  have hwait : ∀ timeoutMs, op = .dequeueWait timeoutMs → a.tasks ≠ [] := by
    rintro timeoutMs rfl hnil
    have hmust : s.queue.waitEnter.mustWait = true := by
      simp [TaskQueue.mustWait, TaskQueue.waitEnter, h.simulates.tasks_eq_nil_iff.1 hnil, hr.alive]
    rw [TaskQueue.exec, TaskQueue.dequeueWait, if_pos hmust] at hrun
    cases hrun
  obtain ⟨q', hrun', hq'⟩ := h.simulates.exec op hwait
  obtain ⟨rfl, rfl⟩ := Prod.mk.inj (Option.some.inj (hrun'.symm.trans hrun))
  exact ⟨rfl, hq'⟩

theorem Simulated.moves_call {a : PriorityFifo} {op : QueueOp} {r : QueueReply} {queue : TaskQueue}
    {ws : List Waiter} (h : s.Simulated config a) (hrun : s.queue.exec op = some (r, queue)) :
    Simulated config ⟨queue, ws⟩ (a.exec op).2 ∧
      Moves s ⟨queue, ws⟩ [.discarded (op.discarded r)] (op.added r) (op.taken r) := by
  obtain ⟨rfl, hq⟩ := h.call hrun
  obtain ⟨hsound, hlim⟩ := h.sound.exec op
  have hcounts := TaskQueue.counts_exec hrun
  refine ⟨⟨hq, hsound, ?_, ?_⟩, hcounts.totalEnqueued, hcounts.totalDequeued, ?_⟩
  · rw [hlim.capacity, h.limits.capacity]
  · rw [hlim.allowDuplicates, h.limits.allowDuplicates]
  · show queue.size + op.taken (a.exec op).1 + (op.discarded (a.exec op).1 + 0) = _
    rw [← hq.length_tasks, ← h.simulates.length_tasks, Nat.add_zero]
    exact a.length_tasks_exec op

theorem Simulated.leave {a : PriorityFifo} {i : ℕ} {rc : ℤ} {t : Option Task} {queue : TaskQueue}
    (h : s.Simulated config a) (hwait : s.queue.mustWait = false)
    (hrun : s.queue.waitLeave = some (rc, t, queue)) :
    Simulated config ⟨queue, leave i s.waiters⟩ a.tail ∧
      Moves s ⟨queue, leave i s.waiters⟩ [.returned i rc t] 0 1 := by
  obtain ⟨hs, ns, hr, -, -⟩ := h.simulates.nodes
  have hne : a.tasks ≠ [] := fun hnil => by
    have hmust : s.queue.mustWait = true := by
      simp [TaskQueue.mustWait, h.simulates.tasks_eq_nil_iff.1 hnil, hr.alive]
    exact Bool.false_ne_true (hwait.symm.trans hmust)
  have hexit : s.queue.waitExit.Simulates a := h.simulates.of_blockedThreads _
  obtain ⟨q', u, htake, -, hq'⟩ := hexit.takeHead hne
  have hcounts := TaskQueue.counts_waitLeave hrun
  rw [TaskQueue.waitLeave, if_neg (by simp [hr.alive]), htake] at hrun
  cases hrun
  have hlim := PriorityFifo.sameLimits_tail a
  refine ⟨⟨hq', h.sound.tail, hlim.capacity.trans h.limits.capacity,
    hlim.allowDuplicates.trans h.limits.allowDuplicates⟩, hcounts.totalEnqueued,
    hcounts.totalDequeued, ?_⟩
  show q'.size + 1 + 0 = s.queue.size
  have hpos := List.length_pos_iff.2 hne
  rw [← hq'.length_tasks, ← h.simulates.length_tasks, PriorityFifo.length_tail]
  omega

/-- **One step**, short of destroying the queue. -/
theorem Simulated.step {a : PriorityFifo} (h : s.Simulated config a) (hs : Transition s l s' es)
    (hl : l ≠ .destroy) :
    ∃ a', s'.Simulated config a' ∧ ∃ m n, Moves s s' es m n ∧ m ≤ l.enqueues := by
  cases hs with
  | call hrun hadd =>
    obtain ⟨h', hm⟩ := h.moves_call hrun
    exact ⟨_, h', _, _, hm, hadd ▸ Nat.zero_le _⟩
  | enqueued hrun =>
    obtain ⟨h', hm⟩ := h.moves_call hrun
    exact ⟨_, h', 1, 0, ⟨hm.totalEnqueued, hm.totalDequeued, hm.size⟩, Nat.le_refl 1⟩
  | enqueueNoMemory | spurious | timeout | resumeWait | wakeAll | enter | resumeTimedOut =>
    exact h.of_stay rfl rfl
  | resumeLeave _ _ hwait hrun =>
    obtain ⟨h', hm⟩ := h.leave hwait hrun
    exact ⟨_, h', 0, 1, hm, Nat.zero_le _⟩
  | destroy => exact absurd rfl hl

/-- The queue is not destroyed on the way. -/
theorem exists_simulated {ls : List QueueLabel} (h : Run next (create config) ls s)
    (hls : .destroy ∉ ls) : ∃ a, s.Simulated config a := by
  have hstep : ∀ {s : SharedQueue} {l : QueueLabel} {s' : SharedQueue},
      (∃ a, s.Simulated config a) → l ≠ .destroy → s.next l = some s' →
        ∃ a, s'.Simulated config a := by
    rintro s l s' ⟨a, ha⟩ hl hs
    obtain ⟨es, ht⟩ := transition_of_next hs
    obtain ⟨a', ha', -⟩ := ha.step ht hl
    exact ⟨a', ha'⟩
  refine h.invariant_of_labels hstep (fun l hl heq => ?_) ⟨_, simulated_create config⟩
  exact hls (heq ▸ hl)

/-! ### The representation invariant -/

end SharedQueue

/-- What the functions of the queue keep up by hand: following `next` from `head` visits exactly the
nodes, `size` many, and ends; `tail` is the last of them; high-priority nodes come first and are
counted; and the contents obey the configuration. -/
structure TaskQueue.WellLinked (config : TaskQueueConfig) (q : TaskQueue) (nodes : List QueueNode) :
    Prop where
  chain : Chain q.heap q.head nodes
  size : q.size = nodes.length
  tail : q.tail = lastAddr 0 nodes
  tail_null : q.tail = 0 ↔ q.head = 0
  priorities : nodes.Pairwise fun m n => n.2.priority = true → m.2.priority = true
  highCount : q.highPriorityCount = UInt64.ofNat (nodes.countP fun n => n.2.priority)
  size_le : 0 < config.maxSize → q.size ≤ config.maxSize
  nodup : config.allowDuplicates = false → (nodes.map fun n => n.task.taskId).Nodup

namespace TaskQueue

variable {q : TaskQueue} {hs ns : List QueueNode}

/-- The last node of a chain has an address. -/
theorem Represents.tail_eq_zero_iff (h : q.Represents hs ns) : q.tail = 0 ↔ q.head = 0 := by
  rw [h.tail, h.chain.head_eq_zero_iff]
  rcases List.eq_nil_or_concat (hs ++ ns) with hnil | ⟨l, ⟨a, v⟩, hl⟩
  · rw [hnil]
    exact iff_of_true rfl rfl
  · rw [List.concat_eq_append] at hl
    have hc := h.chain
    rw [hl] at hc ⊢
    rw [lastAddr_concat]
    exact iff_of_false (hc.seg.ne_zero (by simp)) (by simp)

theorem Represents.pairwise_priority (h : q.Represents hs ns) :
    (hs ++ ns).Pairwise fun m n => n.2.priority = true → m.2.priority = true := by
  refine List.pairwise_append.2 ⟨?_, ?_, fun m hm _ _ _ => h.high m hm⟩
  · exact List.pairwise_of_forall_mem_list fun m hm n _ _ => h.high m hm
  · refine List.pairwise_of_forall_mem_list fun m _ n hn hp => ?_
    exact absurd (hp.symm.trans (h.normal n hn)) (by decide)

theorem Represents.countP_priority (h : q.Represents hs ns) :
    (hs ++ ns).countP (fun n => n.2.priority) = hs.length := by
  have hns : ns.countP (fun n => n.2.priority) = 0 :=
    List.countP_eq_zero.2 fun n hn => by simp [h.normal n hn]
  rw [List.countP_append, hns, Nat.add_zero]
  exact List.countP_eq_length.2 h.high

end TaskQueue

namespace SharedQueue

variable {s s' : SharedQueue} {l : QueueLabel} {es log : List QueueEvent} {config : TaskQueueConfig}

theorem Simulated.wellLinked {a : PriorityFifo} (h : s.Simulated config a) :
    ∃ nodes, s.queue.WellLinked config nodes := by
  obtain ⟨hs, ns, hr, hhigh, hnormal⟩ := h.simulates.nodes
  have htasks : a.tasks = (hs ++ ns).map QueueNode.task := by
    rw [PriorityFifo.tasks, hhigh, hnormal, List.map_append]
  refine ⟨hs ++ ns, hr.chain, hr.size, hr.tail, hr.tail_eq_zero_iff, hr.pairwise_priority, ?_, ?_,
    ?_⟩
  · rw [hr.countP_priority, hr.highCount]
  · intro hpos
    rw [← h.simulates.length_tasks]
    exact h.sound.length_le _ (h.limits.capacity.trans (if_neg (Nat.ne_of_gt hpos)))
  · intro hdup
    have hnd := h.sound.nodup (h.limits.allowDuplicates.trans hdup)
    rwa [htasks, List.map_map] at hnd

theorem Simulated.isSome_exec {a : PriorityFifo} {op : QueueOp} (h : s.Simulated config a)
    (hop : ∀ timeoutMs, op ≠ .dequeueWait timeoutMs) : (s.queue.exec op).isSome := by
  obtain ⟨q', hrun, -⟩ := h.simulates.exec op fun timeoutMs heq => absurd heq (hop timeoutMs)
  rw [hrun]
  rfl

/-- **The representation invariant.** Whatever the configuration, and whatever any number of threads
do with the queue short of destroying it, the list is well linked; and every further call returns,
the waiting one apart. -/
theorem exists_wellLinked {ls : List QueueLabel} (h : Run next (create config) ls s)
    (hls : .destroy ∉ ls) :
    (∃ nodes, s.queue.WellLinked config nodes) ∧
      ∀ op, (∀ timeoutMs, op ≠ .dequeueWait timeoutMs) → (s.queue.exec op).isSome := by
  obtain ⟨a, ha⟩ := exists_simulated h hls
  exact ⟨ha.wellLinked, fun _ hop => ha.isSome_exec hop⟩

/-- A thread waits and gets the task that overtakes; the other one is cancelled. -/
theorem exists_wellLinked_overtaking :
    ∃ s nodes, Run next (create ⟨3, false⟩)
        [.enter 5 1000, .call (.enqueue { taskId := 1 }) (some 5),
          .call (.enqueue { taskId := 2, flags := 2 }) none, .resume 5,
          .call (.enqueue { taskId := 3 }) none, .call (.removeById 1) none] s ∧
      s.queue.WellLinked ⟨3, false⟩ nodes := by
  obtain ⟨s, hrun⟩ : ∃ s, Run next (create ⟨3, false⟩)
      [.enter 5 1000, .call (.enqueue { taskId := 1 }) (some 5),
        .call (.enqueue { taskId := 2, flags := 2 }) none, .resume 5,
        .call (.enqueue { taskId := 3 }) none, .call (.removeById 1) none] s :=
    ⟨_, run_get (by decide)⟩
  obtain ⟨⟨nodes, hnodes⟩, -⟩ := exists_wellLinked hrun (by decide)
  exact ⟨s, nodes, hrun, hnodes⟩

/-! ### The statistics -/

end SharedQueue

/-- `task_queue_stats_t`. -/
structure TaskQueueStats where
  currentSize : ℕ
  maxSize : ℕ
  totalEnqueued : UInt64
  totalDequeued : UInt64
  highPriorityCount : UInt64
  blockedThreads : UInt64
  deriving DecidableEq, Repr

/-- What the counters are documented to satisfy. -/
abbrev TaskQueueStats.Balanced (st : TaskQueueStats) : Prop :=
  st.totalEnqueued.toNat = st.totalDequeued.toNat + st.currentSize

/-- `task_queue_get_stats`. -/
def TaskQueue.getStats (q : TaskQueue) : TaskQueueStats where
  currentSize := q.size
  maxSize := q.maxSize
  totalEnqueued := q.totalEnqueued
  totalDequeued := q.totalDequeued
  highPriorityCount := q.highPriorityCount
  blockedThreads := q.blockedThreads

namespace SharedQueue

variable {s s' : SharedQueue} {l : QueueLabel} {es log : List QueueEvent} {config : TaskQueueConfig}

/-- After `m` tasks were added: each was handed out, is queued, or was thrown away. -/
def Tally (s : SharedQueue) (log : List QueueEvent) (m : ℕ) : Prop :=
  ∃ n, s.queue.totalEnqueued = UInt64.ofNat m ∧ s.queue.totalDequeued = UInt64.ofNat n ∧
    m = n + s.queue.size + discardedTasks log

theorem Tally.step {m m' n' : ℕ} (h : s.Tally log m) (hm : Moves s s' es m' n') :
    s'.Tally (log ++ es) (m + m') := by
  obtain ⟨n, henq, hdeq, hsum⟩ := h
  refine ⟨n + n', ?_, ?_, ?_⟩
  · rw [hm.totalEnqueued, henq, UInt64.ofNat_add]
  · rw [hm.totalDequeued, hdeq, UInt64.ofNat_add]
  · have := hm.size
    rw [discardedTasks_append]
    omega

/-- By induction on the run: the tally, and a bound for the number of tasks added. -/
theorem exists_tally {ls : List QueueLabel} {a : PriorityFifo} {m : ℕ} {t : SharedQueue}
    {log' : List QueueEvent} (h : Run (logged step) (s, log) ls (t, log'))
    (hls : .destroy ∉ ls) (hs : s.Simulated config a) (hm : s.Tally log m) :
    ∃ m', t.Tally log' m' ∧ m' ≤ m + (ls.map QueueLabel.enqueues).sum := by
  induction ls generalizing s log a m with
  | nil =>
    cases h
    exact ⟨m, hm, Nat.le_add_right _ _⟩
  | cons l ls ih =>
    obtain ⟨hl, hls⟩ := not_or.1 (mt List.mem_cons.2 hls)
    cases h with
    | @cons _ u _ _ _ hstep hrun =>
      obtain ⟨u, ulog⟩ := u
      obtain ⟨es, hu, hlog⟩ := logged_eq_some_iff.1 hstep
      obtain ⟨a', ha', k, k', hmoves, hk⟩ := hs.step (transition_of_step hu) (Ne.symm hl)
      dsimp only at hlog
      rw [hlog] at hrun
      obtain ⟨m', hm', hle⟩ := ih hrun hls ha' (hm.step hmoves)
      refine ⟨m', hm', ?_⟩
      rw [List.map_cons, List.sum_cons]
      omega

/-- **The balance of the statistics.** With fewer than `2 ^ 64` calls of `task_queue_enqueue`,
`total_enqueued = total_dequeued + current_size` holds exactly as long as
`task_queue_remove_by_id` and `task_queue_clear` have not thrown a task away. -/
theorem stats_balance_iff {ls : List QueueLabel}
    (h : Run (logged step) (create config, []) ls (s, log)) (hls : .destroy ∉ ls)
    (hfew : (ls.map QueueLabel.enqueues).sum < 2 ^ 64) :
    s.queue.getStats.Balanced ↔ discardedTasks log = 0 := by
  have hinit : (create config).Tally [] 0 := ⟨0, rfl, rfl, rfl⟩
  obtain ⟨m, ⟨n, henq, hdeq, hsum⟩, hle⟩ := exists_tally h hls (simulated_create config) hinit
  have hm : s.queue.totalEnqueued.toNat = m := by
    rw [henq, UInt64.toNat_ofNat', Nat.mod_eq_of_lt (by omega)]
  have hn : s.queue.totalDequeued.toNat = n := by
    rw [hdeq, UInt64.toNat_ofNat', Nat.mod_eq_of_lt (by omega)]
  show s.queue.totalEnqueued.toNat = s.queue.totalDequeued.toNat + s.queue.size ↔ _
  rw [hm, hn]
  omega

/-- One task is handed out and one is still queued. -/
theorem stats_balance_dequeued :
    ∃ s log, Run (logged step) (create ⟨10, false⟩, [])
        [.call (.enqueue { taskId := 1 }) none, .call (.enqueue { taskId := 2 }) none,
          .call .dequeue none] (s, log) ∧ s.queue.getStats.Balanced := by
  obtain ⟨s, log, hrun, hlog⟩ : ∃ s log, Run (logged step) (create ⟨10, false⟩, [])
      [.call (.enqueue { taskId := 1 }) none, .call (.enqueue { taskId := 2 }) none,
        .call .dequeue none] (s, log) ∧ discardedTasks log = 0 :=
    ⟨_, _, run_get (by decide), by decide⟩
  exact ⟨s, log, hrun, (stats_balance_iff hrun (by decide) (by decide)).2 hlog⟩

/-- A task that `task_queue_clear` frees is gone without having been counted. -/
theorem stats_unbalanced_cleared :
    ((exec (logged step) (create ⟨10, false⟩, [])
        [.call (.enqueue { taskId := 1 }) none, .call .clear none]).map
      fun r => (decide r.1.queue.getStats.Balanced, r.1.queue.getStats)) =
        some (false, ⟨0, 10, 1, 0, 0, 0⟩) := by
  decide

end SharedQueue

end DistributedComputing
