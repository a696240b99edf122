import DistributedComputing.Runtime.TaskQueueInvariant

/-!
# Waking the threads that wait for a task

The header describes `task_queue_wake_all` as a way to release the threads blocked in
`task_queue_dequeue_wait`. It broadcasts and changes nothing else; a thread whose wait returns tests
the condition of its loop again, and on an empty queue the condition still holds. So a woken thread
leaves the call only because of what `task_queue_destroy` writes, the flag `shutting_down`:
`wakeAll_releases_iff`.

That the woken thread is still at the same place when its turn comes is an invariant of its own
(`woken_of_run`).
-/

namespace DistributedComputing

open KeyedTable StepRun

namespace SharedQueue

variable {s s' : SharedQueue} {l : QueueLabel} {es : List QueueEvent} {config : TaskQueueConfig}
  {i : ℕ}

/-- The wait of the thread has returned, and it has yet to test the condition again. -/
def Woken (i : ℕ) (s : SharedQueue) : Prop := ∃ w, s.waiter? i = some w ∧ w.phase = .woken

/-! ### A woken thread stays woken -/

theorem lookup_setPhase_self (phase : WaitPhase) (ws : List Waiter) :
    lookup Waiter.thread i (setPhase i phase ws) =
      (lookup Waiter.thread i ws).map fun w => { w with phase } := by
  rw [setPhase, lookup_update_self]
  exact fun _ h => h

theorem lookup_setPhase_of_ne {j : ℕ} (hij : i ≠ j) (phase : WaitPhase) (ws : List Waiter) :
    lookup Waiter.thread i (setPhase j phase ws) = lookup Waiter.thread i ws := by
  rw [setPhase, lookup_update_of_ne hij]
  exact fun _ h => h

theorem lookup_leave_of_ne {j : ℕ} (hij : i ≠ j) (ws : List Waiter) :
    lookup Waiter.thread i (leave j ws) = lookup Waiter.thread i ws := by
  induction ws with
  | nil => rfl
  | cons w ws ih =>
    by_cases hw : w.thread = j
    · have hne : ¬ w.thread = i := fun hwi => hij (hwi.symm.trans hw)
      have hrest : leave j (w :: ws) = ws := List.eraseP_cons_of_pos (by simpa using hw)
      rw [hrest, lookup_cons, if_neg hne]
    · have hrest : leave j (w :: ws) = w :: leave j ws :=
        List.eraseP_cons_of_neg (by simpa using hw)
      rw [hrest, lookup_cons, lookup_cons, ih]

theorem lookup_broadcast (ws : List Waiter) :
    lookup Waiter.thread i (broadcast ws) =
      (lookup Waiter.thread i ws).map
        fun w => if w.phase = .asleep then { w with phase := .woken } else w := by
  induction ws with
  | nil => rfl
  | cons w ws ih =>
    have hthread : (if w.phase = .asleep then { w with phase := .woken } else w : Waiter).thread =
        w.thread := by
      split <;> rfl
    rw [broadcast, List.map_cons, lookup_cons, lookup_cons, hthread]
    split
    · rfl
    · exact ih

theorem Woken.setPhase_of_ne {j : ℕ} (h : Woken i s) (hij : i ≠ j) (phase : WaitPhase) :
    Woken i { s with waiters := setPhase j phase s.waiters } := by
  obtain ⟨w, hw, hphase⟩ := h
  exact ⟨w, (lookup_setPhase_of_ne hij phase s.waiters).trans hw, hphase⟩

/-- Waking once more changes nothing. -/
theorem Woken.setPhase_woken (h : Woken i s) (j : ℕ) :
    Woken i { s with waiters := setPhase j .woken s.waiters } := by
  rcases eq_or_ne i j with rfl | hij
  · obtain ⟨w, hw, hphase⟩ := h
    refine ⟨{ w with phase := .woken }, ?_, rfl⟩
    show lookup Waiter.thread i (setPhase i .woken s.waiters) = _
    rw [lookup_setPhase_self, show lookup Waiter.thread i s.waiters = some w from hw]
    rfl
  · exact h.setPhase_of_ne hij .woken

theorem Woken.signal {wakes : Option ℕ} {ws : List Waiter} (h : Woken i s)
    (hws : signal wakes s.waiters = some ws) : Woken i { s with waiters := ws } := by
  cases wakes with
  | none =>
    rw [SharedQueue.signal] at hws
    split at hws
    · cases hws
      exact h
    · cases hws
  | some j =>
    rw [SharedQueue.signal] at hws
    split at hws
    · cases hws
      exact h.setPhase_woken j
    · cases hws

theorem Woken.of_waiters_eq (h : Woken i s) (hws : s'.waiters = s.waiters) : Woken i s' := by
  rw [Woken, waiter?, hws]
  exact h

theorem Woken.broadcast (h : Woken i s) (queue : TaskQueue) :
    Woken i ⟨queue, broadcast s.waiters⟩ := by
  obtain ⟨w, hw, hphase⟩ := h
  refine ⟨w, ?_, hphase⟩
  show lookup Waiter.thread i (SharedQueue.broadcast s.waiters) = some w
  rw [lookup_broadcast, show lookup Waiter.thread i s.waiters = some w from hw, Option.map_some,
    if_neg (by rw [hphase]; decide)]

/-- **One step of somebody else.** -/
theorem Woken.step (h : Woken i s) (hs : Transition s l s' es) (hl : l ≠ .resume i) :
    Woken i s' := by
  have hresume : ∀ {j}, QueueLabel.resume j ≠ .resume i → i ≠ j := fun hl hij => hl (hij ▸ rfl)
  cases hs with
  | call => exact h.of_waiters_eq rfl
  | enqueued _ hws => exact (h.signal hws).of_waiters_eq rfl
  | enqueueNoMemory => exact h
  | enter =>
    obtain ⟨w, hw, hphase⟩ := h
    refine ⟨w, ?_, hphase⟩
    show lookup Waiter.thread i (s.waiters ++ [_]) = some w
    rw [lookup_append, show lookup Waiter.thread i s.waiters = some w from hw]
    rfl
  | spurious => exact h.setPhase_woken _
  | timeout hj hphase =>
    -- a thread that is awake does not time out any more
    refine h.setPhase_of_ne ?_ .timedOut
    rintro rfl
    obtain ⟨v, hv, hwoken⟩ := h
    obtain rfl := Option.some.inj (hv.symm.trans hj)
    exact WaitPhase.noConfusion (hphase.symm.trans hwoken)
  | resumeWait => exact h.setPhase_of_ne (hresume hl) .asleep
  | resumeTimedOut | resumeLeave =>
    obtain ⟨w, hw, hphase⟩ := h
    exact ⟨w, (lookup_leave_of_ne (hresume hl) _).trans hw, hphase⟩
  | wakeAll | destroy => exact h.broadcast _

/-- **Until its turn** the woken thread stays where it is. -/
theorem woken_of_run {ls : List QueueLabel} (h : Run next s ls s') (hls : .resume i ∉ ls)
    (hs : Woken i s) : Woken i s' := by
  have hstep : ∀ {s : SharedQueue} {l : QueueLabel} {s' : SharedQueue},
      Woken i s → l ≠ .resume i → s.next l = some s' → Woken i s' := by
    intro s l s' hw hl hnext
    obtain ⟨es, ht⟩ := transition_of_next hnext
    exact hw.step ht hl
  exact h.invariant_of_labels hstep (fun l hl heq => hls (heq ▸ hl)) hs

theorem woken_wakeAll {w : Waiter} (hi : s.waiter? i = some w) (hphase : w.phase = .asleep) :
    Woken i { s with waiters := broadcast s.waiters } := by
  refine ⟨{ w with phase := .woken }, ?_, rfl⟩
  show lookup Waiter.thread i (broadcast s.waiters) = _
  rw [lookup_broadcast, show lookup Waiter.thread i s.waiters = some w from hi, Option.map_some,
    if_pos hphase]

/-! ### Shutting down -/

/-- Nothing takes the flag back. -/
theorem shuttingDown_of_transition (h : s.queue.shuttingDown = true) (hs : Transition s l s' es) :
    s'.queue.shuttingDown = true := by
  cases hs with
  | call hrun => exact (TaskQueue.counts_exec hrun).shuttingDown.trans h
  | enqueued hrun => exact (TaskQueue.counts_exec hrun).shuttingDown.trans h
  | enqueueNoMemory | spurious | timeout | resumeWait | resumeTimedOut | wakeAll | enter => exact h
  | resumeLeave _ _ _ hrun => exact (TaskQueue.counts_waitLeave hrun).shuttingDown.trans h
  | destroy hrun =>
    obtain ⟨r, -, rfl⟩ := Option.map_eq_some_iff.1 hrun
    rfl

theorem shuttingDown_or_simulated {ls : List QueueLabel} (h : Run next (create config) ls s) :
    s.queue.shuttingDown = true ∨ ∃ a, s.Simulated config a := by
  have hstep : ∀ {s : SharedQueue} {l : QueueLabel} {s' : SharedQueue},
      (s.queue.shuttingDown = true ∨ ∃ a, s.Simulated config a) → s.next l = some s' →
        (s'.queue.shuttingDown = true ∨ ∃ a, s'.Simulated config a) := by
    intro s l s' hs hnext
    obtain ⟨es, ht⟩ := transition_of_next hnext
    rcases hs with hdown | ⟨a, ha⟩
    · exact .inl (shuttingDown_of_transition hdown ht)
    · by_cases hl : l = .destroy
      · subst hl
        cases ht with
        | destroy hrun =>
          obtain ⟨r, -, rfl⟩ := Option.map_eq_some_iff.1 hrun
          exact .inl rfl
      · obtain ⟨a', ha', -⟩ := ha.step ht hl
        exact .inr ⟨a', ha'⟩
  exact h.invariant hstep (.inr ⟨_, simulated_create config⟩)

/-! ### The turn of a woken thread -/

theorem resume_of_woken (h : Woken i s) :
    s.resume i =
      if s.queue.mustWait then some ({ s with waiters := setPhase i .asleep s.waiters }, [])
      else
        s.queue.waitLeave.map fun r => (⟨r.2.2, leave i s.waiters⟩, [.returned i r.1 r.2.1]) := by
  obtain ⟨⟨j, timeoutMs, phase⟩, hw, rfl⟩ := h
  rw [resume, hw]

/-- The thread's next step ends its call, with a negative return code. -/
def Released (i : ℕ) (s : SharedQueue) : Prop :=
  ∃ rc s', s.step (.resume i) = some (s', [.returned i rc none]) ∧ rc < 0

/-- A woken thread that finds the queue empty leaves exactly if the queue is shutting down. -/
theorem Woken.released_iff {ls : List QueueLabel} (h : Woken i s)
    (hrun : Run next (create config) ls s) (hempty : s.queue.isEmpty = true) :
    Released i s ↔ s.queue.shuttingDown = true := by
  rw [Released, SharedQueue.step, resume_of_woken h]
  rcases hdown : s.queue.shuttingDown with - | -
  · refine iff_of_false ?_ Bool.false_ne_true
    obtain ⟨a, ha⟩ := (shuttingDown_or_simulated hrun).resolve_left (by simp [hdown])
    have hnil : a.tasks = [] := by
      rw [← List.length_eq_zero_iff, ha.simulates.length_tasks]
      exact of_decide_eq_true hempty
    have hmust : s.queue.mustWait = true := by
      simp [TaskQueue.mustWait, ha.simulates.tasks_eq_nil_iff.1 hnil, hdown]
    -- the condition of the loop still holds
    rw [if_pos hmust]
    rintro ⟨rc, s', hs', -⟩
    cases hs'
  · refine iff_of_true ?_ rfl
    have hmust : ¬ s.queue.mustWait = true := by simp [TaskQueue.mustWait, hdown]
    rw [if_neg hmust, TaskQueue.waitLeave, if_pos hdown]
    exact ⟨-2, _, rfl, by decide⟩

/-- **What `task_queue_wake_all` does.** For every schedule, `blocked_threads` is the number of
threads inside the waiting call, whichever way the others have left it. A thread that was asleep
when `task_queue_wake_all` was called and finds the queue empty when its turn comes leaves the call
at that step exactly if `task_queue_destroy` has set its flag by then. -/
theorem wakeAll_releases_iff {w : Waiter} {ls₁ ls₂ : List QueueLabel} {t : SharedQueue}
    (h₁ : Run next (create config) ls₁ s) (hi : s.waiter? i = some w) (hphase : w.phase = .asleep)
    (h₂ : Run next s (.wakeAll :: ls₂) t) (hturn : .resume i ∉ ls₂)
    (hempty : t.queue.isEmpty = true) :
    (∀ ls u, Run next (create config) ls u →
        u.queue.blockedThreads = UInt64.ofNat u.waiters.length) ∧
      (Released i t ↔ t.queue.shuttingDown = true) := by
  refine ⟨fun _ _ hu => countsWaiters_of_run hu, ?_⟩
  have hwoken : Woken i t := by
    cases h₂ with
    | cons hwake hrest =>
      cases hwake
      exact woken_of_run hrest hturn (woken_wakeAll hi hphase)
  exact hwoken.released_iff (h₁.append h₂) hempty

/-- A sleeper is woken, and the queue is destroyed before its turn. -/
theorem released_after_destroy :
    ∃ t, Run next (create ⟨10, false⟩) [.enter 7 (-1), .wakeAll, .destroy] t ∧ Released 7 t := by
  obtain ⟨s, h₁, t, h₂, hi, hempty, hdown⟩ :
      ∃ s, Run next (create ⟨10, false⟩) [.enter 7 (-1)] s ∧
        ∃ t, Run next s [.wakeAll, .destroy] t ∧ s.waiter? 7 = some ⟨7, -1, .asleep⟩ ∧
          t.queue.isEmpty = true ∧ t.queue.shuttingDown = true :=
    ⟨_, run_get (by decide), _, run_get (by decide), by decide, by decide, by decide⟩
  refine ⟨t, h₁.append h₂, ?_⟩
  exact (wakeAll_releases_iff h₁ hi rfl h₂ (by decide) hempty).2.2 hdown

/-- A thread that waits without a timeout on an empty queue is woken, has its turn, and sleeps
again inside the call: it has returned nothing. -/
theorem asleep_again_after_wakeAll :
    ((exec (logged step) (create ⟨10, false⟩, []) [.enter 7 (-1), .wakeAll, .resume 7]).map
      fun r => (r.1.waiters, r.1.queue.getStats, r.2)) =
        some ([⟨7, -1, .asleep⟩], ⟨0, 10, 0, 0, 0, 1⟩, []) := by
  decide

end SharedQueue

end DistributedComputing
