import DistributedComputing.Foundations.KeyedTable
import DistributedComputing.Foundations.StepRun
import DistributedComputing.Runtime.TaskQueueRefinement

/-!
# The task queue under several threads

`task_queue_dequeue_wait` gives up the mutex while it waits, so a call of it is not one step. Here a
queue is taken together with the threads that are **inside** that call: each is asleep on
`cond_not_empty`, or its wait has returned and it has yet to get the mutex back. The other functions
run under the mutex from beginning to end and are the calls of `TaskQueue.exec`; a
`task_queue_dequeue_wait` that does not have to wait is one of them.

The label of a step carries what the environment chooses:

* a call, and which sleeper a `pthread_cond_signal` wakes (some sleeper, if there is one);
* a call of `task_queue_enqueue` in which `malloc` fails;
* a thread entering the wait, a sleeper woken spuriously or timed out, a thread taking the mutex
  back and going on from there (`SharedQueue.resume`);
* `task_queue_wake_all`, and the locked section of `task_queue_destroy`. What `task_queue_destroy`
  does after it has unlocked — it destroys the mutex and frees the queue — is left out, so that the
  threads still inside can be followed to the end of their calls.

A step that is not enabled, or that faults, is `none`. Steps report what leaves the queue: a return
from the waiting call, and the number of tasks discarded by `task_queue_remove_by_id` and
`task_queue_clear`. `Transition` lists what a step can do; the invariants are proved by cases on it.
The first of them is here: in every state of every schedule, `task_queue_destroy` included,
`blocked_threads` counts the threads inside (`countsWaiters_of_run`).
-/

namespace DistributedComputing

open LinkedHeap KeyedTable StepRun

/-! ### What a call adds, takes and discards -/

namespace QueueOp

/-- The number of tasks a call has added, given its reply. -/
def added (r : QueueReply) : QueueOp → ℕ
  | .enqueue _ => if r.code = 0 then 1 else 0
  | _ => 0

/-- The number of tasks a call has handed out and taken from the queue. -/
def taken (r : QueueReply) : QueueOp → ℕ
  | .dequeue => if r.code = 0 then 1 else 0
  | .dequeueWait _ => if r.code = 0 then 1 else 0
  | _ => 0

/-- The number of tasks a call has thrown away. -/
def discarded (r : QueueReply) : QueueOp → ℕ
  | .removeById _ => if r.code = 0 then 1 else 0
  | .clear => r.code.toNat
  | _ => 0

end QueueOp

namespace PriorityFifo

variable (a : PriorityFifo)

theorem length_append (t : Task) : (a.append t).tasks.length = a.tasks.length + 1 := by
  rw [append]
  split <;> simp [tasks] <;> omega

theorem length_tail : a.tail.tasks.length = a.tasks.length - 1 := by
  rw [tail, tasks, tasks]
  rcases a.high with - | ⟨t, high⟩ <;> simp

theorem length_erase {taskId : UInt64} (h : a.tasks.any (·.taskId = taskId) = true) :
    (a.erase taskId).tasks.length + 1 = a.tasks.length := by
  rw [erase]
  split
  · next hhigh =>
    obtain ⟨t, ht, hid⟩ := List.any_eq_true.1 hhigh
    have hpos := List.length_pos_of_mem ht
    have hlen := List.length_eraseP_of_mem (p := fun u : Task => u.taskId = taskId) ht hid
    simp only [tasks, List.length_append, hlen]
    omega
  · next hhigh =>
    rw [tasks, List.any_append, Bool.eq_false_iff.2 hhigh, Bool.false_or] at h
    obtain ⟨t, ht, hid⟩ := List.any_eq_true.1 h
    have hpos := List.length_pos_of_mem ht
    have hlen := List.length_eraseP_of_mem (p := fun u : Task => u.taskId = taskId) ht hid
    simp only [tasks, List.length_append, hlen]
    omega

/-- Taking the first task, if there is one. -/
theorem length_tail_add :
    a.tail.tasks.length + (if a.headReply.code = 0 then 1 else 0) = a.tasks.length := by
  rw [length_tail, headReply]
  rcases a.tasks with - | ⟨t, l⟩ <;> simp

/-- **Balance of a call** on the two lists. -/
theorem length_tasks_exec (op : QueueOp) :
    (a.exec op).2.tasks.length + op.taken (a.exec op).1 + op.discarded (a.exec op).1 =
      a.tasks.length + op.added (a.exec op).1 := by
  cases op with
  | enqueue t =>
    rw [exec]
    split
    · rfl
    · split
      · rfl
      · exact a.length_append t
  | dequeue | dequeueWait => exact a.length_tail_add
  | removeById taskId =>
    rw [exec]
    split
    · next h => exact a.length_erase h
    · rfl
  | clear => exact Nat.zero_add _
  | peek | size | isEmpty | isFull => rfl

end PriorityFifo

namespace TaskQueue

variable {q q' : TaskQueue} {t : Task}

/-- `task_queue_enqueue` where `malloc` returns `NULL`. -/
def enqueueNoMemory (q : TaskQueue) (task : Task) : Option ℤ := do
  if q.shuttingDown then return -1
  if 0 < q.maxSize ∧ q.maxSize ≤ q.size then return -2
  if ← q.isDuplicate task.taskId then return -3
  return -1

/-- The locked section of `task_queue_destroy`. The nodes are freed, `head` still points at them. -/
def destroy (q : TaskQueue) : Option TaskQueue :=
  (freeAll q.heap.brk q.heap q.head 0).map fun r => { q with heap := r.1, shuttingDown := true }

/-! ### The counters of a call -/

/-- What happens to the fields outside the list, where `added` tasks are added and `taken` are
handed out. -/
structure Counts (q q' : TaskQueue) (added taken : ℕ) : Prop where
  shuttingDown : q'.shuttingDown = q.shuttingDown
  blockedThreads : q'.blockedThreads = q.blockedThreads
  totalEnqueued : q'.totalEnqueued = q.totalEnqueued + UInt64.ofNat added
  totalDequeued : q'.totalDequeued = q.totalDequeued + UInt64.ofNat taken

/-- A step that leaves all of these fields alone. -/
theorem counts_of_eq (hdown : q'.shuttingDown = q.shuttingDown)
    (hblocked : q'.blockedThreads = q.blockedThreads) (henq : q'.totalEnqueued = q.totalEnqueued)
    (hdeq : q'.totalDequeued = q.totalDequeued) : Counts q q' 0 0 :=
  ⟨hdown, hblocked, henq.trans (UInt64.add_zero _).symm, hdeq.trans (UInt64.add_zero _).symm⟩

theorem Counts.refl (q : TaskQueue) : Counts q q 0 0 := counts_of_eq rfl rfl rfl rfl

theorem Counts.trans {q'' : TaskQueue} {m n : ℕ} (h : Counts q q' 0 0) (h' : Counts q' q'' m n) :
    Counts q q'' m n where
  shuttingDown := h'.shuttingDown.trans h.shuttingDown
  blockedThreads := h'.blockedThreads.trans h.blockedThreads
  totalEnqueued := by
    rw [h'.totalEnqueued, h.totalEnqueued]
    exact congrArg (· + UInt64.ofNat m) (UInt64.add_zero _)
  totalDequeued := by
    rw [h'.totalDequeued, h.totalDequeued]
    exact congrArg (· + UInt64.ofNat n) (UInt64.add_zero _)

theorem counts_insertHigh {node : Addr} (h : q.insertHigh node = some q') : Counts q q' 0 0 := by
  obtain ⟨b, -, h⟩ := Option.bind_eq_some_iff.1 h
  split at h
  · obtain ⟨heap, -, h⟩ := Option.bind_eq_some_iff.1 h
    obtain rfl := Option.some.inj h
    exact counts_of_eq rfl rfl rfl rfl
  · obtain ⟨⟨prev, curr⟩, -, h⟩ := Option.bind_eq_some_iff.1 h
    obtain ⟨heap, -, h⟩ := Option.bind_eq_some_iff.1 h
    dsimp only at h
    -- the link of `prev` is only written if there is one
    split at h <;>
    · obtain ⟨heap', -, h⟩ := Option.bind_eq_some_iff.1 h
      obtain rfl := Option.some.inj h
      exact counts_of_eq rfl rfl rfl rfl

theorem counts_insertNormal {node : Addr} (h : q.insertNormal node = some q') :
    Counts q q' 0 0 := by
  rw [insertNormal] at h
  split at h
  · obtain rfl := Option.some.inj h
    exact counts_of_eq rfl rfl rfl rfl
  · obtain ⟨heap, -, rfl⟩ := Option.map_eq_some_iff.1 h
    exact counts_of_eq rfl rfl rfl rfl

theorem counts_insertNode (h : q.insertNode t = some q') : Counts q q' 1 0 := by
  have hcount : ∀ q₁ : TaskQueue, Counts q q₁ 0 0 →
      Counts q { q₁ with size := q₁.size + 1, totalEnqueued := q₁.totalEnqueued + 1 } 1 0 :=
    fun q₁ hq₁ => hq₁.trans ⟨rfl, rfl, rfl, (UInt64.add_zero _).symm⟩
  rw [insertNode] at h
  split at h
  · rcases hlink : insertHigh _ q.heap.brk with - | q₂
    · rw [hlink] at h
      cases h
    · rw [hlink] at h
      cases h
      obtain ⟨h1, h2, h3, h4⟩ := counts_insertHigh hlink
      exact hcount { q₂ with highPriorityCount := _ } ⟨h1, h2, h3, h4⟩
  · rcases hlink : insertNormal _ q.heap.brk with - | q₂
    · rw [hlink] at h
      cases h
    · rw [hlink] at h
      cases h
      obtain ⟨h1, h2, h3, h4⟩ := counts_insertNormal hlink
      exact hcount q₂ ⟨h1, h2, h3, h4⟩

theorem counts_enqueue {rc : ℤ} (h : q.enqueue t = some (rc, q')) :
    Counts q q' (if rc = 0 then 1 else 0) 0 := by
  rw [enqueue] at h
  split at h
  · cases h
    exact Counts.refl q
  · split at h
    · cases h
      exact Counts.refl q
    · obtain ⟨dup, -, h⟩ := Option.bind_eq_some_iff.1 h
      split at h
      · cases h
        exact Counts.refl q
      · obtain ⟨q₁, hins, h⟩ := Option.bind_eq_some_iff.1 h
        cases h
        exact counts_insertNode hins

theorem counts_takeHead (h : q.takeHead = some (t, q')) : Counts q q' 0 1 := by
  obtain ⟨c, -, hc⟩ := Option.map_eq_some_iff.1 h
  cases hc
  exact ⟨rfl, rfl, (UInt64.add_zero _).symm, rfl⟩

/-- Leaving the wait loop: the thread is no longer counted, and takes the head unless the queue is
shutting down. -/
theorem counts_waitLeave {rc : ℤ} {u : Option Task} (h : q.waitLeave = some (rc, u, q')) :
    Counts q.waitExit q' 0 (if rc = 0 then 1 else 0) := by
  rw [waitLeave] at h
  split at h
  · cases h
    exact Counts.refl _
  · obtain ⟨⟨u', q₁⟩, hhead, hc⟩ := Option.map_eq_some_iff.1 h
    cases hc
    exact counts_takeHead hhead

theorem counts_removeById {taskId : UInt64} {rc : ℤ} (h : q.removeById taskId = some (rc, q')) :
    Counts q q' 0 0 := by
  obtain ⟨⟨prev, curr⟩, -, h⟩ := Option.bind_eq_some_iff.1 h
  dsimp only at h
  split at h
  · cases h
    exact Counts.refl q
  · obtain ⟨c, -, h⟩ := Option.bind_eq_some_iff.1 h
    split at h <;>
    · obtain ⟨heap, -, h⟩ := Option.bind_eq_some_iff.1 h
      cases h
      exact counts_of_eq rfl rfl rfl rfl

/-- **The counters of a call.** Tasks that are discarded are not counted as dequeued. -/
theorem counts_exec {op : QueueOp} {r : QueueReply} (h : q.exec op = some (r, q')) :
    Counts q q' (op.added r) (op.taken r) := by
  cases op with
  | enqueue t =>
    obtain ⟨⟨rc, q₁⟩, hrun, hr⟩ := Option.map_eq_some_iff.1 h
    cases hr
    exact counts_enqueue hrun
  | dequeue =>
    obtain ⟨⟨rc, u, q₁⟩, hrun, hr⟩ := Option.map_eq_some_iff.1 h
    cases hr
    rw [dequeue] at hrun
    split at hrun
    · cases hrun
      exact Counts.refl q
    · obtain ⟨⟨u', q₂⟩, hhead, hc⟩ := Option.map_eq_some_iff.1 hrun
      cases hc
      exact counts_takeHead hhead
  | dequeueWait timeoutMs =>
    obtain ⟨⟨rc, u, q₁⟩, hrun, hr⟩ := Option.map_eq_some_iff.1 h
    cases hr
    rw [dequeueWait] at hrun
    split at hrun
    · cases hrun
    · obtain ⟨h1, h2, h3, h4⟩ := counts_waitLeave hrun
      exact ⟨h1, h2.trans (UInt64.add_sub_cancel _ _), h3, h4⟩
  | peek =>
    obtain ⟨r', -, hr⟩ := Option.map_eq_some_iff.1 h
    cases hr
    exact Counts.refl q
  | removeById taskId =>
    obtain ⟨⟨rc, q₁⟩, hrun, hr⟩ := Option.map_eq_some_iff.1 h
    cases hr
    exact counts_removeById hrun
  | clear =>
    obtain ⟨⟨n, q₁⟩, hrun, hr⟩ := Option.map_eq_some_iff.1 h
    cases hr
    obtain ⟨⟨heap, m⟩, -, hc⟩ := Option.map_eq_some_iff.1 hrun
    cases hc
    exact counts_of_eq rfl rfl rfl rfl
  | size | isEmpty | isFull =>
    cases h
    exact Counts.refl q

end TaskQueue

/-! ### The machine -/

/-- Where a thread is in the wait loop. A wait that has returned has `rc` 0 or `ETIMEDOUT`. -/
inductive WaitPhase
  | asleep
  | woken
  | timedOut
  deriving DecidableEq, Repr

/-- A thread inside `task_queue_dequeue_wait`. -/
structure Waiter where
  thread : ℕ
  timeoutMs : ℤ
  phase : WaitPhase := .asleep
  deriving DecidableEq, Repr

/-- The queue, and the threads inside `task_queue_dequeue_wait`. -/
structure SharedQueue where
  queue : TaskQueue
  waiters : List Waiter := []

/-- What the environment chooses. -/
inductive QueueLabel
  | call (op : QueueOp) (wakes : Option ℕ)
  | enqueueNoMemory (task : Task)
  | enter (thread : ℕ) (timeoutMs : ℤ)
  | spurious (thread : ℕ)
  | timeout (thread : ℕ)
  | resume (thread : ℕ)
  | wakeAll
  | destroy
  deriving DecidableEq, Repr

/-- What a step reports. -/
inductive QueueEvent
  | returned (thread : ℕ) (rc : ℤ) (task : Option Task)
  | discarded (count : ℕ)
  deriving DecidableEq, Repr

namespace SharedQueue

/-- A fresh queue. -/
def create (config : TaskQueueConfig) : SharedQueue where
  queue := .create config

/-- The thread inside the waiting call, if it is. -/
def waiter? (s : SharedQueue) (i : ℕ) : Option Waiter := lookup Waiter.thread i s.waiters

/-- The phase of a waiter is changed. -/
def setPhase (i : ℕ) (phase : WaitPhase) (ws : List Waiter) : List Waiter :=
  update Waiter.thread i (fun w => { w with phase }) ws

/-- The thread leaves the call. -/
def leave (i : ℕ) (ws : List Waiter) : List Waiter := ws.eraseP (·.thread = i)

/-- `pthread_cond_signal`: a sleeper is woken if there is one. -/
def signal (wakes : Option ℕ) (ws : List Waiter) : Option (List Waiter) :=
  match wakes with
  | none => if ∀ w ∈ ws, w.phase ≠ .asleep then some ws else none
  | some i =>
    match lookup Waiter.thread i ws with
    | some ⟨_, _, .asleep⟩ => some (setPhase i .woken ws)
    | _ => none

/-- `pthread_cond_broadcast`: all sleepers are woken. -/
def broadcast (ws : List Waiter) : List Waiter :=
  ws.map fun w => if w.phase = .asleep then { w with phase := .woken } else w

/-- The step of a thread that has the mutex back: after `ETIMEDOUT` it returns, otherwise it tests
the condition of the loop again. -/
def resume (s : SharedQueue) (i : ℕ) : Option (SharedQueue × List QueueEvent) :=
  match s.waiter? i with
  | some ⟨_, _, .timedOut⟩ =>
    some (⟨s.queue.waitExit, leave i s.waiters⟩, [.returned i (-1) none])
  | some ⟨_, _, .woken⟩ =>
    if s.queue.mustWait then some ({ s with waiters := setPhase i .asleep s.waiters }, [])
    else
      s.queue.waitLeave.map fun r => (⟨r.2.2, leave i s.waiters⟩, [.returned i r.1 r.2.1])
  | _ => none

/-- One step, with what it reports. -/
def step (s : SharedQueue) : QueueLabel → Option (SharedQueue × List QueueEvent)
  | .call op wakes =>
    match s.queue.exec op with
    | none => none
    | some (r, queue) =>
      -- only a successful enqueue signals `cond_not_empty`
      if op.added r = 0 then some ({ s with queue }, [.discarded (op.discarded r)])
      else (signal wakes s.waiters).map fun waiters => (⟨queue, waiters⟩, [])
  | .enqueueNoMemory t => (s.queue.enqueueNoMemory t).map fun _ => (s, [])
  | .enter i timeoutMs =>
    if s.waiter? i = none ∧ s.queue.waitEnter.mustWait = true then
      some (⟨s.queue.waitEnter, s.waiters ++ [{ thread := i, timeoutMs }]⟩, [])
    else none
  | .spurious i =>
    match s.waiter? i with
    | some ⟨_, _, .asleep⟩ => some ({ s with waiters := setPhase i .woken s.waiters }, [])
    | _ => none
  | .timeout i =>
    match s.waiter? i with
    | some ⟨_, timeoutMs, .asleep⟩ =>
      -- without a timeout the wait is a `pthread_cond_wait`
      if 0 ≤ timeoutMs then some ({ s with waiters := setPhase i .timedOut s.waiters }, [])
      else none
    | _ => none
  | .resume i => s.resume i
  | .wakeAll => some ({ s with waiters := broadcast s.waiters }, [])
  | .destroy => s.queue.destroy.map fun queue => (⟨queue, broadcast s.waiters⟩, [])

/-- A step without its report. -/
def next (s : SharedQueue) (l : QueueLabel) : Option SharedQueue := (s.step l).map Prod.fst

/-! ### What a step can do -/

/-- A change of phases: the threads inside stay the same. -/
def SameThreads (ws ws' : List Waiter) : Prop := ws'.map Waiter.thread = ws.map Waiter.thread

theorem sameThreads_setPhase (i : ℕ) (phase : WaitPhase) (ws : List Waiter) :
    SameThreads ws (setPhase i phase ws) := by
  show (update Waiter.thread i _ ws).map Waiter.thread = ws.map Waiter.thread
  rw [map_key_update]
  exact fun _ h => h

theorem sameThreads_broadcast (ws : List Waiter) : SameThreads ws (broadcast ws) := by
  rw [SameThreads, broadcast, List.map_map]
  refine List.map_congr_left fun w _ => ?_
  show Waiter.thread (if _ then _ else _) = _
  split <;> rfl

theorem SameThreads.length_eq {ws ws' : List Waiter} (h : SameThreads ws ws') :
    ws'.length = ws.length := by
  simpa using congrArg List.length h

/-- Every way in which a step can go. -/
inductive Transition : SharedQueue → QueueLabel → SharedQueue → List QueueEvent → Prop
  | call {s op wakes r queue} (hrun : s.queue.exec op = some (r, queue)) (hadd : op.added r = 0) :
      Transition s (.call op wakes) { s with queue } [.discarded (op.discarded r)]
  | enqueued {s t wakes queue ws} (hrun : s.queue.exec (.enqueue t) = some (⟨0, none⟩, queue))
      (hws : signal wakes s.waiters = some ws) :
      Transition s (.call (.enqueue t) wakes) ⟨queue, ws⟩ []
  | enqueueNoMemory {s t} : Transition s (.enqueueNoMemory t) s []
  | enter {s i timeoutMs} (hi : s.waiter? i = none) (hwait : s.queue.waitEnter.mustWait = true) :
      Transition s (.enter i timeoutMs)
        ⟨s.queue.waitEnter, s.waiters ++ [{ thread := i, timeoutMs }]⟩ []
  | spurious {s i w} (hi : s.waiter? i = some w) (hphase : w.phase = .asleep) :
      Transition s (.spurious i) { s with waiters := setPhase i .woken s.waiters } []
  | timeout {s i w} (hi : s.waiter? i = some w) (hphase : w.phase = .asleep)
      (htimed : 0 ≤ w.timeoutMs) :
      Transition s (.timeout i) { s with waiters := setPhase i .timedOut s.waiters } []
  | resumeTimedOut {s i w} (hi : s.waiter? i = some w) (hphase : w.phase = .timedOut) :
      Transition s (.resume i) ⟨s.queue.waitExit, leave i s.waiters⟩ [.returned i (-1) none]
  | resumeWait {s i w} (hi : s.waiter? i = some w) (hphase : w.phase = .woken)
      (hwait : s.queue.mustWait = true) :
      Transition s (.resume i) { s with waiters := setPhase i .asleep s.waiters } []
  | resumeLeave {s i w rc t queue} (hi : s.waiter? i = some w) (hphase : w.phase = .woken)
      (hwait : s.queue.mustWait = false) (hrun : s.queue.waitLeave = some (rc, t, queue)) :
      Transition s (.resume i) ⟨queue, leave i s.waiters⟩ [.returned i rc t]
  | wakeAll {s} : Transition s .wakeAll { s with waiters := broadcast s.waiters } []
  | destroy {s queue} (hrun : s.queue.destroy = some queue) :
      Transition s .destroy ⟨queue, broadcast s.waiters⟩ []

variable {s s' : SharedQueue} {l : QueueLabel} {es : List QueueEvent}

theorem transition_of_call {op : QueueOp} {wakes : Option ℕ}
    (h : s.step (.call op wakes) = some (s', es)) : Transition s (.call op wakes) s' es := by
  rw [step] at h
  split at h
  · cases h
  · next r queue hrun =>
    split at h
    · next hadd =>
      cases h
      exact .call hrun hadd
    · next hadd =>
      obtain ⟨ws, hws, hs⟩ := Option.map_eq_some_iff.1 h
      cases hs
      -- only an enqueue adds a task
      cases op with
      | enqueue t =>
        obtain ⟨⟨rc, q₁⟩, hq, hr⟩ := Option.map_eq_some_iff.1 hrun
        cases hr
        have hrc : rc = 0 := by
          by_contra hne
          exact hadd (if_neg hne)
        subst hrc
        exact .enqueued hrun hws
      | _ =>
        exact absurd rfl hadd

theorem transition_of_resume {i : ℕ} (h : s.resume i = some (s', es)) :
    Transition s (.resume i) s' es := by
  rw [resume] at h
  split at h
  · next hi =>
    cases h
    exact .resumeTimedOut hi rfl
  · next hi =>
    split at h
    · next hwait =>
      cases h
      exact .resumeWait hi rfl hwait
    · next hwait =>
      obtain ⟨⟨rc, t, queue⟩, hrun, hs⟩ := Option.map_eq_some_iff.1 h
      cases hs
      exact .resumeLeave hi rfl (Bool.eq_false_iff.2 hwait) hrun
  · cases h

/-- **Inversion of a step.** -/
theorem transition_of_step (h : s.step l = some (s', es)) : Transition s l s' es := by
  cases l with
  | call op wakes => exact transition_of_call h
  | enqueueNoMemory t =>
    obtain ⟨rc, -, hs⟩ := Option.map_eq_some_iff.1 h
    cases hs
    exact .enqueueNoMemory
  | enter i timeoutMs =>
    rw [step] at h
    split at h
    · next hi =>
      cases h
      exact .enter hi.1 hi.2
    · cases h
  | spurious i =>
    rw [step] at h
    split at h
    · next hi =>
      cases h
      exact .spurious hi rfl
    · cases h
  | timeout i =>
    rw [step] at h
    split at h
    · next hi =>
      split at h
      · next htimed =>
        cases h
        exact .timeout hi rfl htimed
      · cases h
    · cases h
  | resume i => exact transition_of_resume h
  | wakeAll =>
    cases h
    exact .wakeAll
  | destroy =>
    obtain ⟨queue, hrun, hs⟩ := Option.map_eq_some_iff.1 h
    cases hs
    exact .destroy hrun

theorem transition_of_next (h : s.next l = some s') : ∃ es, Transition s l s' es := by
  obtain ⟨⟨t, es⟩, hstep, rfl⟩ := Option.map_eq_some_iff.1 h
  exact ⟨es, transition_of_step hstep⟩

/-! ### Counting the threads inside -/

/-- `blocked_threads` counts the threads inside the waiting call. -/
def CountsWaiters (s : SharedQueue) : Prop :=
  s.queue.blockedThreads = UInt64.ofNat s.waiters.length

theorem sameThreads_signal {wakes : Option ℕ} {ws ws' : List Waiter}
    (h : signal wakes ws = some ws') : SameThreads ws ws' := by
  cases wakes with
  | none =>
    rw [signal] at h
    split at h
    · cases h
      rfl
    · cases h
  | some i =>
    rw [signal] at h
    split at h
    · cases h
      exact sameThreads_setPhase ..
    · cases h

/-- A step that keeps the counter and the threads. -/
theorem CountsWaiters.of_sameThreads (h : s.CountsWaiters)
    (hblocked : s'.queue.blockedThreads = s.queue.blockedThreads)
    (hws : SameThreads s.waiters s'.waiters) : s'.CountsWaiters := by
  rw [CountsWaiters, hblocked, hws.length_eq]
  exact h

/-- **An exit.** The thread leaves the list and the counter goes down by one. -/
theorem CountsWaiters.of_leave {i : ℕ} {w : Waiter} {queue : TaskQueue} (h : s.CountsWaiters)
    (hi : s.waiter? i = some w) (hblocked : queue.blockedThreads = s.queue.blockedThreads - 1) :
    CountsWaiters ⟨queue, leave i s.waiters⟩ := by
  have hw : w ∈ s.waiters := mem_of_lookup hi
  have hid : decide (w.thread = i) = true := decide_eq_true (key_of_lookup hi)
  have hlen := List.length_eraseP_of_mem (p := fun v : Waiter => v.thread = i) hw hid
  obtain ⟨v, ws, hws⟩ := List.exists_cons_of_length_pos (List.length_pos_of_mem hw)
  show queue.blockedThreads = UInt64.ofNat (s.waiters.eraseP fun v => v.thread = i).length
  rw [hblocked, h, hlen, hws, TaskQueue.ofNat_length_cons]
  rfl

/-- **Every step keeps the count**, on every way out of the call. -/
theorem CountsWaiters.step (h : s.CountsWaiters) (hs : Transition s l s' es) :
    s'.CountsWaiters := by
  cases hs with
  | call hrun => exact h.of_sameThreads (TaskQueue.counts_exec hrun).blockedThreads rfl
  | enqueued hrun hws =>
    exact h.of_sameThreads (TaskQueue.counts_exec hrun).blockedThreads (sameThreads_signal hws)
  | enqueueNoMemory => exact h
  | enter =>
    show s.queue.blockedThreads + 1 = UInt64.ofNat (s.waiters ++ [_]).length
    rw [h, List.length_append, UInt64.ofNat_add]
    rfl
  | spurious | timeout | resumeWait => exact h.of_sameThreads rfl (sameThreads_setPhase ..)
  | resumeTimedOut hi => exact h.of_leave hi rfl
  | resumeLeave hi _ _ hrun => exact h.of_leave hi (TaskQueue.counts_waitLeave hrun).blockedThreads
  | wakeAll => exact h.of_sameThreads rfl (sameThreads_broadcast _)
  | destroy hrun =>
    obtain ⟨r, -, rfl⟩ := Option.map_eq_some_iff.1 hrun
    exact h.of_sameThreads rfl (sameThreads_broadcast _)

/-- **The counter is right in every state of every schedule.** -/
theorem countsWaiters_of_run {config : TaskQueueConfig} {ls : List QueueLabel}
    (h : Run next (create config) ls s) : s.CountsWaiters := by
  refine h.invariant (fun hs hnext => ?_) rfl
  obtain ⟨es, ht⟩ := transition_of_next hnext
  exact CountsWaiters.step hs ht

end SharedQueue

end DistributedComputing
