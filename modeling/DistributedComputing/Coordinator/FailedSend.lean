import DistributedComputing.Coordinator.BatchLimit

/-!
# A batch that could not be sent

When `send_task_batch` fails, the loop puts the batch back with ordinary calls of
`task_queue_enqueue`, in the order in which it was taken. Each task goes **behind** its priority
level, so what was at the front of its level comes back at the end of it: the queue is rotated,
level by level (`run_failedSend`). Nothing is lost — the ids are distinct and there was room for all
of them before, so every task is accepted (`Within`, an invariant of the queue) — but the order is
the old one only if the batch cut no level in two, that is if it was exactly the high-priority tasks
or the whole queue: `failedSend_restores_iff`.
-/

namespace DistributedComputing

open StepRun

/-! ### The contents of a queue of a given configuration -/

namespace ValidQueue

/-- The queue has the configuration, and its contents obey it. -/
structure Within (config : TaskQueueConfig) (q : ValidQueue) : Prop where
  maxSize : q.1.maxSize = config.maxSize
  allowDuplicates : q.1.allowDuplicates = config.allowDuplicates
  length_le : 0 < config.maxSize → q.tasks.length ≤ config.maxSize
  nodup : config.allowDuplicates = false → (q.tasks.map Task.taskId).Nodup

theorem within_create (config : TaskQueueConfig) : (create config).Within config where
  maxSize := rfl
  allowDuplicates := rfl
  length_le := fun _ => by
    rw [length_tasks]
    exact Nat.zero_le _
  nodup := fun _ => by
    rw [List.length_eq_zero_iff.1 ((create config).length_tasks)]
    exact List.nodup_nil

variable {config : TaskQueueConfig} {q : ValidQueue} {t : Task}

theorem Within.enqueue (h : q.Within config) (hacc : q.Accepts t) :
    (q.enqueue t).2.Within config := by
  obtain ⟨-, htasks, hcfg⟩ := enqueue_of_accepts hacc
  have hperm : (q.enqueue t).2.tasks.Perm (t :: q.tasks) := htasks ▸ insertTask_perm t q.tasks
  refine ⟨hcfg.maxSize.trans h.maxSize, hcfg.allowDuplicates.trans h.allowDuplicates, ?_, ?_⟩
  · intro hpos
    have hroom : ¬ config.maxSize ≤ q.tasks.length := fun hle => by
      have hfull := (TaskQueue.isFull_iff q.1).2
        ⟨h.maxSize ▸ hpos, by rw [← q.length_tasks, h.maxSize]; exact hle⟩
      exact Bool.false_ne_true (hacc.1.symm.trans hfull)
    rw [hperm.length_eq, List.length_cons]
    omega
  · intro hdup
    rw [(hperm.map _).nodup_iff, List.map_cons, List.nodup_cons]
    exact ⟨hacc.2 (h.allowDuplicates.trans hdup), h.nodup hdup⟩

theorem Within.of_sublist {q' : ValidQueue} (h : q.Within config)
    (hcfg : TaskQueue.SameConfig q.1 q'.1) (hsub : q'.tasks.Sublist q.tasks) :
    q'.Within config where
  maxSize := hcfg.maxSize.trans h.maxSize
  allowDuplicates := hcfg.allowDuplicates.trans h.allowDuplicates
  length_le := fun hpos => hsub.length_le.trans (h.length_le hpos)
  nodup := fun hdup => (h.nodup hdup).sublist (hsub.map _)

theorem Within.dequeue {ts : List Task} (h : q.Within config) (htasks : q.tasks = t :: ts) :
    q.dequeue.2.Within config := by
  obtain ⟨-, hrest, hcfg⟩ := dequeue_of_cons htasks
  refine h.of_sublist hcfg ?_
  rw [hrest, htasks]
  exact List.sublist_cons_self t ts

/-! ### Putting tasks back -/

/-- The queue with the tasks put back one after the other, each behind its priority level. -/
def requeued (todo l : List Task) : List Task :=
  (l.filter Task.isHigh ++ todo.filter Task.isHigh) ++
    ((l.filter fun u => !u.isHigh) ++ todo.filter fun u => !u.isHigh)

theorem requeued_insertTask (t : Task) (todo l : List Task) :
    requeued todo (insertTask t l) = requeued (t :: todo) l := by
  have hhigh : (l.filter fun u => !u.isHigh).filter Task.isHigh = [] := by
    rw [List.filter_filter, List.filter_eq_nil_iff]
    simp
  have hnormal : (l.filter Task.isHigh).filter (fun u => !u.isHigh) = [] := by
    rw [List.filter_filter, List.filter_eq_nil_iff]
    simp
  rw [requeued, requeued, insertTask]
  rcases ht : t.isHigh with - | - <;> simp [ht, hhigh, hnormal, List.filter_append]

/-- Rotating a list without repetitions changes it, unless nothing or everything moves. -/
theorem drop_append_take_eq_iff {l : List Task} (hl : l.Nodup) (m : ℕ) :
    l.drop m ++ l.take m = l ↔ m = 0 ∨ l.length ≤ m := by
  rcases Nat.lt_or_ge m l.length with hlt | hge
  · have hne : l ≠ [] := List.ne_nil_of_length_pos (Nat.zero_lt_of_lt hlt)
    rw [← List.rotate_eq_drop_append_take hlt.le, hl.rotate_eq_self_iff, Nat.mod_eq_of_lt hlt,
      or_iff_left hne, or_iff_left (Nat.not_le.2 hlt)]
  · rw [List.drop_of_length_le hge, List.take_of_length_le hge]
    exact iff_of_true rfl (.inr hge)

/-- The front of a queue put back at once: both levels are rotated. -/
theorem requeued_take_drop (q : ValidQueue) (m : ℕ) :
    requeued (q.tasks.take m) (q.tasks.drop m) =
      ((q.tasks.filter Task.isHigh).drop m ++ (q.tasks.filter Task.isHigh).take m) ++
        ((q.tasks.filter fun u => !u.isHigh).drop (m - (q.tasks.filter Task.isHigh).length) ++
          (q.tasks.filter fun u => !u.isHigh).take (m - (q.tasks.filter Task.isHigh).length)) := by
  have hsplit := q.tasks_eq_filter_append
  have hhigh : ∀ u ∈ q.tasks.filter Task.isHigh, u.isHigh = true := fun u hu =>
    (List.mem_filter.1 hu).2
  have hnormal : ∀ u ∈ q.tasks.filter fun u => !u.isHigh, (!u.isHigh) = true := fun u hu =>
    (List.mem_filter.1 hu).2
  generalize q.tasks.filter Task.isHigh = hs at *
  generalize q.tasks.filter (fun u => !u.isHigh) = ns at *
  -- what is taken or left of one level stays in that level
  have hall : ∀ {l : List Task} {p : Task → Bool}, (∀ u ∈ l, p u = true) → ∀ {k : List Task},
      k.Sublist l → k.filter p = k ∧ k.filter (fun u => !p u) = [] := by
    intro l p hp k hk
    refine ⟨List.filter_eq_self.2 fun u hu => hp u (hk.subset hu), List.filter_eq_nil_iff.2 ?_⟩
    intro u hu
    simp [hp u (hk.subset hu)]
  obtain ⟨h1, h2⟩ := hall hhigh (List.take_sublist m hs)
  obtain ⟨h3, h4⟩ := hall hhigh (List.drop_sublist m hs)
  obtain ⟨h5, h6⟩ := hall hnormal (List.take_sublist (m - hs.length) ns)
  obtain ⟨h7, h8⟩ := hall hnormal (List.drop_sublist (m - hs.length) ns)
  simp only [Bool.not_not] at h6 h8
  rw [hsplit, requeued, List.take_append, List.drop_append]
  simp only [List.filter_append, h1, h2, h3, h4, h5, h6, h7, h8, List.append_nil, List.nil_append]

/-- **When the order comes back.** -/
theorem requeued_eq_iff (q : ValidQueue) {m : ℕ} (hnd : q.tasks.Nodup) (hpos : 0 < m)
    (hle : m ≤ q.tasks.length) :
    requeued (q.tasks.take m) (q.tasks.drop m) = q.tasks ↔
      m = (q.tasks.filter Task.isHigh).length ∨ m = q.tasks.length := by
  have hsplit := q.tasks_eq_filter_append
  have hlen := congrArg List.length hsplit
  rw [List.length_append] at hlen
  have hhigh := drop_append_take_eq_iff (hnd.filter Task.isHigh) m
  have hnormal := drop_append_take_eq_iff (hnd.filter fun u => !u.isHigh)
    (m - (q.tasks.filter Task.isHigh).length)
  -- the levels have their lengths, so they can be compared one by one
  have hlevels : requeued (q.tasks.take m) (q.tasks.drop m) =
        q.tasks.filter Task.isHigh ++ q.tasks.filter (fun u => !u.isHigh) ↔
      (m = 0 ∨ (q.tasks.filter Task.isHigh).length ≤ m) ∧
        (m - (q.tasks.filter Task.isHigh).length = 0 ∨
          (q.tasks.filter fun u => !u.isHigh).length ≤
            m - (q.tasks.filter Task.isHigh).length) := by
    rw [requeued_take_drop, ← hhigh, ← hnormal]
    constructor
    · intro heq
      refine List.append_inj heq ?_
      rw [List.length_append, List.length_drop, List.length_take]
      omega
    · rintro ⟨h1, h2⟩
      rw [h1, h2]
  rw [← hsplit] at hlevels
  rw [hlevels]
  omega

end ValidQueue

namespace Coordinator

variable {c c' : Coordinator} {w : WorkerInfo} {rest : List WorkerInfo} {todo : List Task}
  {l : Label} {es : List Event}

theorem within_step {config : TaskQueueConfig} (h : c.queue.Within config)
    (hs : Transition c l c' es) : c'.queue.Within config := by
  cases hs with
  | enqueueAccepted hacc => exact h.enqueue hacc
  | requeueAccepted _ hacc => exact h.enqueue hacc
  | collectTask _ _ _ htasks => exact h.dequeue htasks
  | collectOverrun _ _ _ htasks => exact h.dequeue htasks
  | _ => exact h

theorem within_of_run {ls : List Label} (h : Run next init ls c) : c.queue.Within queueConfig := by
  have hstep : ∀ {c : Coordinator} {l : Label} {c' : Coordinator}, c.queue.Within queueConfig →
      c.next l = some c' → c'.queue.Within queueConfig := by
    intro c l c' hc hnext
    obtain ⟨es, ht⟩ := transition_of_next hnext
    exact within_step hc ht
  exact h.invariant hstep (ValidQueue.within_create queueConfig)

/-! ### The run after a failed send -/

/-- **The re-queue loop** accepts everything and comes to its end. By induction on the tasks still
to be put back; those in the queue have other ids, and there is room for all. -/
theorem run_requeue (hpc : c.pc = .requeue rest todo)
    (hnd : ((c.queue.tasks ++ todo).map Task.taskId).Nodup)
    (hroom : c.queue.tasks.length + todo.length ≤ c.queue.1.maxSize) :
    ∃ c', Run next c (List.replicate (todo.length + 1) .internal) c' ∧ c'.pc = .dispatch rest ∧
      c'.queue.tasks = ValidQueue.requeued todo c.queue.tasks := by
  induction todo generalizing c with
  | nil =>
    have hstep : c.next .internal = some { c with pc := .dispatch rest } := by
      rw [next, step, internalStep, hpc]
      rfl
    refine ⟨_, .cons hstep (.nil _), rfl, ?_⟩
    show c.queue.tasks = _
    rw [ValidQueue.requeued, List.filter_nil, List.filter_nil, List.append_nil, List.append_nil]
    exact c.queue.tasks_eq_filter_append
  | cons t todo ih =>
    have hstep : c.next .internal =
        some { c with queue := (c.queue.enqueue t).2, pc := .requeue rest todo } := by
      rw [next, step, internalStep, hpc]
      rfl
    rw [List.length_cons] at hroom
    have hmid : (c.queue.tasks ++ t :: todo).Perm ((t :: c.queue.tasks) ++ todo) :=
      List.perm_middle
    have hnd' := ((hmid.map Task.taskId).nodup_iff).1 hnd
    have hacc : c.queue.Accepts t := by
      refine ⟨Bool.eq_false_iff.2 fun hfull => ?_, fun _ hmem => ?_⟩
      · obtain ⟨-, hle⟩ := (TaskQueue.isFull_iff c.queue.1).1 hfull
        rw [← c.queue.length_tasks] at hle
        omega
      · rw [List.cons_append, List.map_cons, List.nodup_cons, List.map_append] at hnd'
        exact hnd'.1 (List.mem_append_left _ hmem)
    obtain ⟨-, htasks, hcfg⟩ := ValidQueue.enqueue_of_accepts hacc
    have hperm := ValidQueue.insertTask_perm t c.queue.tasks
    obtain ⟨c', hrun, hpc', hc'⟩ := ih
      (c := { c with queue := (c.queue.enqueue t).2, pc := .requeue rest todo }) rfl
      (by
        show (((c.queue.enqueue t).2.tasks ++ todo).map Task.taskId).Nodup
        rw [htasks, (((hperm.append_right todo).map Task.taskId).nodup_iff)]
        exact hnd')
      (by
        show (c.queue.enqueue t).2.tasks.length + _ ≤ (c.queue.enqueue t).2.1.maxSize
        rw [htasks, hperm.length_eq, hcfg.maxSize, List.length_cons]
        omega)
    refine ⟨c', .cons hstep hrun, hpc', ?_⟩
    rw [hc', ← ValidQueue.requeued_insertTask]
    exact congrArg (ValidQueue.requeued todo) htasks

/-- The labels of a turn in which the send of `k` tasks fails: they are collected, the send fails,
they are put back. -/
def failedSendLabels (k : ℕ) (clock : ℕ → Time × Time) : List Label :=
  List.replicate (k + 1) .internal ++ .send false clock :: List.replicate (k + 1) .internal

theorem maxBatch_pos (w : WorkerInfo) : 0 < maxBatch w := by
  rw [maxBatch]
  split
  · next h => exact UInt32.lt_iff_toNat_lt.1 h
  · decide

/-- **What a failed send does to the queue**, the batch fitting its array. -/
theorem run_failedSend {ls : List Label} (h : Run next init ls c) (hpc : c.pc = .collect w rest [])
    (hne : c.queue.tasks ≠ []) (clock : ℕ → Time × Time)
    (hcap : (createTaskBatch c.queue (maxBatch w)).1.length ≤ batchCapacity) :
    ∃ c', Run next c
        (failedSendLabels (createTaskBatch c.queue (maxBatch w)).1.length clock) c' ∧
      c'.pc = .dispatch rest ∧
      c'.queue.tasks =
        ValidQueue.requeued (c.queue.tasks.take (maxBatch w))
          (c.queue.tasks.drop (maxBatch w)) := by
  have hwithin := within_of_run h
  obtain ⟨hbatch, hrest, hcfg⟩ := createTaskBatch_eq c.queue (maxBatch w)
  have hcollect := run_collect hpc (n := maxBatch w) (Nat.zero_add _) (by simpa using hcap)
  have hnonempty : (createTaskBatch c.queue (maxBatch w)).1 ≠ [] := by
    rw [hbatch, Ne, List.take_eq_nil_iff]
    exact not_or.2 ⟨Nat.ne_of_gt (maxBatch_pos w), hne⟩
  rw [List.nil_append, finishBatch, if_neg hnonempty] at hcollect
  have hperm : ((createTaskBatch c.queue (maxBatch w)).2.tasks ++
      (createTaskBatch c.queue (maxBatch w)).1).Perm c.queue.tasks := by
    rw [hbatch, hrest]
    exact List.perm_append_comm.trans (.of_eq (List.take_append_drop _ _))
  obtain ⟨c', hrun, hpc', hc'⟩ := run_requeue
    (c := { c with
      queue := (createTaskBatch c.queue (maxBatch w)).2
      pc := .requeue rest (createTaskBatch c.queue (maxBatch w)).1 }) rfl
    ((hperm.map Task.taskId).nodup_iff.2 (hwithin.nodup rfl))
    (by
      show (createTaskBatch c.queue (maxBatch w)).2.tasks.length + _ ≤
        (createTaskBatch c.queue (maxBatch w)).2.1.maxSize
      rw [← List.length_append, hperm.length_eq, hcfg.maxSize, hwithin.maxSize]
      exact hwithin.length_le (by decide))
  refine ⟨c', hcollect.append (.cons rfl hrun), hpc', ?_⟩
  rw [hc']
  show ValidQueue.requeued (createTaskBatch c.queue (maxBatch w)).1
    (createTaskBatch c.queue (maxBatch w)).2.tasks = _
  rw [hbatch, hrest]

/-- A batch that does not fit never gets to be sent: the loop has no step past the array's end. -/
theorem not_run_failedSend (hpc : c.pc = .collect w rest []) (clock : ℕ → Time × Time)
    (hcap : batchCapacity < (createTaskBatch c.queue (maxBatch w)).1.length) :
    ¬ Run next c (failedSendLabels (createTaskBatch c.queue (maxBatch w)).1.length clock) c' := by
  intro h
  obtain ⟨d, hrun, hover⟩ := run_collect_overrun hpc (n := maxBatch w) (Nat.zero_add _)
    (Nat.zero_le _) (by simpa using hcap)
  obtain ⟨k, hk⟩ := Nat.exists_eq_add_of_lt hcap
  rw [failedSendLabels, hk, show batchCapacity + k + 1 + 1 = (batchCapacity + 1) + (k + 1) by omega,
    List.replicate_add, List.append_assoc] at h
  obtain ⟨d', hrun', hrest⟩ := h.split
  obtain rfl := hrun.eq_of_run hrun'
  cases hrest with
  | cons hstep =>
    rw [next, step, internalStep, hover] at hstep
    cases hstep

/-- **When a failed send leaves the queue as it was.** Where a batch is about to be made for a
worker and then the send fails, the loop comes to the next worker with the queue it started from
exactly if the batch fits its array and consists of all high-priority tasks, or of all tasks. -/
theorem failedSend_restores_iff {ls : List Label} (h : Run next init ls c)
    (hpc : c.pc = .collect w rest []) (hne : c.queue.tasks ≠ []) (clock : ℕ → Time × Time) :
    (∃ c', Run next c
          (failedSendLabels (createTaskBatch c.queue (maxBatch w)).1.length clock) c' ∧
        c'.pc = .dispatch rest ∧ c'.queue.tasks = c.queue.tasks) ↔
      min (maxBatch w) c.queue.tasks.length ≤ batchCapacity ∧
        (maxBatch w = (c.queue.tasks.filter Task.isHigh).length ∨
          c.queue.tasks.length ≤ maxBatch w) := by
  rw [← length_createTaskBatch]
  rcases Nat.lt_or_ge batchCapacity (createTaskBatch c.queue (maxBatch w)).1.length with hcap | hcap
  · refine iff_of_false ?_ fun hand => Nat.not_lt.2 hand.1 hcap
    rintro ⟨c', hrun, -⟩
    exact not_run_failedSend hpc clock hcap hrun
  · have hnd : c.queue.tasks.Nodup := ((within_of_run h).nodup rfl).of_map
    have hpos := List.length_pos_iff.2 hne
    have hmax := maxBatch_pos w
    obtain ⟨d, hrun, hpc', hd⟩ := run_failedSend h hpc hne clock hcap
    -- only the number of tasks taken matters
    have htake : c.queue.tasks.take (maxBatch w) =
        c.queue.tasks.take (min (maxBatch w) c.queue.tasks.length) := List.take_eq_take_min
    have hdrop : c.queue.tasks.drop (maxBatch w) =
        c.queue.tasks.drop (min (maxBatch w) c.queue.tasks.length) := List.drop_eq_drop_min
    have hiff := c.queue.requeued_eq_iff hnd (m := min (maxBatch w) c.queue.tasks.length)
      (by omega) (Nat.min_le_right _ _)
    have hhigh : (c.queue.tasks.filter Task.isHigh).length ≤ c.queue.tasks.length :=
      List.length_filter_le _ _
    rw [htake, hdrop] at hd
    constructor
    · rintro ⟨c', hrun', -, hc'⟩
      obtain rfl := hrun.eq_of_run hrun'
      have := hiff.1 (hd.symm.trans hc')
      exact ⟨hcap, by omega⟩
    · rintro ⟨-, hor⟩
      exact ⟨d, hrun, hpc', hd.trans (hiff.2 (by omega))⟩

/-- The whole queue, a high-priority task and a normal one, comes back. -/
theorem failedSend_restores_all :
    ∃ c w, Run next init
        [.recv (some (7, .register none)) 0 0, .internal, .enqueue { taskId := 1 },
          .enqueue { taskId := 2, flags := 2 }, .internal] c ∧
      ∃ c', Run next c
          (failedSendLabels (createTaskBatch c.queue (maxBatch w)).1.length fun _ => (0, 0)) c' ∧
        c'.pc = .dispatch [] ∧ c'.queue.tasks = c.queue.tasks := by
  obtain ⟨c, w, hrun, hpc, hlen, hlimit⟩ : ∃ c w, Run next init
      [.recv (some (7, .register none)) 0 0, .internal, .enqueue { taskId := 1 },
        .enqueue { taskId := 2, flags := 2 }, .internal] c ∧ c.pc = .collect w [] [] ∧
      c.queue.tasks.length = 2 ∧ maxBatch w = 10 :=
    ⟨_, _, run_get (by decide), rfl, by decide, by decide⟩
  have hne : c.queue.tasks ≠ [] := fun hnil => by
    rw [hnil] at hlen
    cases hlen
  refine ⟨c, w, hrun, (failedSend_restores_iff hrun hpc hne _).2 ?_⟩
  rw [hlen, hlimit]
  exact ⟨by decide, .inr (by decide)⟩

/-- Two normal tasks and a limit of one: the first task is taken, and put back behind the second.
-/
theorem failedSend_swaps_tasks :
    (exec next init
          ([.recv (some (7, .register (some ⟨1, 1, 0⟩))) 0 0, .internal, .enqueue { taskId := 1 },
            .enqueue { taskId := 2 }, .internal])).map (·.queue.tasks.map Task.taskId) =
        some [1, 2] ∧
      (exec next init
          ([.recv (some (7, .register (some ⟨1, 1, 0⟩))) 0 0, .internal, .enqueue { taskId := 1 },
            .enqueue { taskId := 2 }, .internal] ++ failedSendLabels 1 fun _ => (0, 0))).map
          (·.queue.tasks.map Task.taskId) =
        some [2, 1] := by
  decide

end Coordinator

end DistributedComputing
