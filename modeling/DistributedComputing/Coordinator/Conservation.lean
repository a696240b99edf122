import DistributedComputing.Coordinator.LoopInvariant

/-!
# Where the coordinator's tasks are

A task moves from the queue into the array `batch` and from there either onto the wire or, when the
send fails, back into the queue. `Conserved` follows all of them: what was accepted from outside is
what is queued, in hand, sent, or **refused** on the way back — the return code of the re-enqueue is
ignored, so a refused task is gone. The last case is what `dispatched_once_iff` is about.

The accounting is by `List.count`, so that tasks enqueued more than once are told apart by number;
the statement is the permutation it amounts to. It needs the array to be large enough: with
registered batch sizes of at most 100 the loop never writes past it (`BatchesFit`).
-/

namespace DistributedComputing

open KeyedTable StepRun

/-! ### Reading the log -/

/-- The tasks accepted from outside. -/
def acceptedTasks (log : List Event) : List Task :=
  log.flatMap fun
    | .accepted t => [t]
    | _ => []

/-- The tasks of the batches sent. -/
def sentTasks (log : List Event) : List Task :=
  log.flatMap fun
    | .sent _ batch => batch
    | _ => []

/-- The tasks whose re-enqueue was refused. -/
def refusedTasks (log : List Event) : List Task :=
  log.flatMap fun
    | .requeueRefused t => [t]
    | _ => []

@[simp] theorem acceptedTasks_append (log log' : List Event) :
    acceptedTasks (log ++ log') = acceptedTasks log ++ acceptedTasks log' :=
  List.flatMap_append

@[simp] theorem sentTasks_append (log log' : List Event) :
    sentTasks (log ++ log') = sentTasks log ++ sentTasks log' :=
  List.flatMap_append

@[simp] theorem refusedTasks_append (log log' : List Event) :
    refusedTasks (log ++ log') = refusedTasks log ++ refusedTasks log' :=
  List.flatMap_append

namespace Coordinator

/-! ### The array is large enough -/

/-- A registration with a batch size that fits the array. -/
def RegistersFit : Label → Prop
  | .recv (some (_, .register (some caps))) _ _ => caps.maxBatchSize.toNat ≤ batchCapacity
  | _ => True

/-- All batch sizes fit, those of the workers still to be served included. -/
structure BatchesFit (c : Coordinator) : Prop where
  workers : ∀ w ∈ c.sched.workers, maxBatch w ≤ batchCapacity
  pending : ∀ w ∈ c.pc.pending, maxBatch w ≤ batchCapacity
  pc_ne : c.pc ≠ .overrun

theorem batchesFit_init : init.BatchesFit :=
  ⟨List.forall_mem_nil _, List.forall_mem_nil _, Pc.noConfusion⟩

variable {c c' : Coordinator} {l : Label} {es log : List Event}

theorem maxBatch_registerInfo_le {caps : Option Capabilities}
    (h : ∀ k, caps = some k → k.maxBatchSize.toNat ≤ batchCapacity) (src : UInt32) (now : Time) :
    maxBatch (Scheduler.registerInfo src caps now) ≤ batchCapacity := by
  have hten : (10 : UInt32).toNat ≤ batchCapacity := by decide
  have hsize : (Scheduler.registerInfo src caps now).maxBatchSize.toNat ≤ batchCapacity := by
    rw [Scheduler.registerInfo]
    dsimp only
    split
    · exact hten
    · rcases caps with - | k
      · exact Nat.zero_le _
      · exact h k rfl
  rw [maxBatch]
  split
  · exact hsize
  · exact hten

theorem BatchesFit.step (h : c.BatchesFit) (hl : RegistersFit l) (hs : Transition c l c' es) :
    c'.BatchesFit := by
  obtain ⟨hw, hp, hpc'⟩ := h
  have hreg : ∀ src caps now registeredAt,
      l = .recv (some (src, .register caps)) now registeredAt →
        maxBatch (Scheduler.registerInfo src caps now) ≤ batchCapacity := by
    rintro src caps now registeredAt rfl
    refine maxBatch_registerInfo_le ?_ src now
    rintro k rfl
    exact hl
  have hR : OfRegistration fun w => maxBatch w ≤ batchCapacity := by
    intro v w _ hsize hv
    rwa [maxBatch, hsize]
  obtain ⟨hw', hp'⟩ := forall_workers_step hR hs hreg hw hp
  refine ⟨hw', hp', ?_⟩
  cases hs with
  | collectOverrun hpc hlt hcap =>
    -- The 101st task would need a batch size above 100.
    rw [hpc] at hp
    exact absurd (Nat.lt_of_lt_of_le hlt (hp _ List.mem_cons_self)) (Nat.not_lt.2 hcap)
  | enqueueAccepted | enqueueRefused => exact hpc'
  | _ => exact Pc.noConfusion

/-! ### Conservation -/

/-- Every accepted task, as often as it was accepted, is queued, in hand, sent or refused. -/
def Conserved (c : Coordinator) (log : List Event) : Prop :=
  ∀ t, (acceptedTasks log).count t =
    c.queue.tasks.count t + c.pc.inHand.count t + (sentTasks log).count t +
      (refusedTasks log).count t

theorem conserved_init : init.Conserved [] := fun _ => rfl

/-- A step moves tasks along. -/
def TasksBalance (c c' : Coordinator) (es : List Event) : Prop :=
  ∀ t, c'.queue.tasks.count t + c'.pc.inHand.count t + (sentTasks es).count t +
      (refusedTasks es).count t =
    c.queue.tasks.count t + c.pc.inHand.count t + (acceptedTasks es).count t

/-- A step that touches neither the queue nor the tasks in hand, and reports nothing about them. -/
theorem tasksBalance_of_eq (hq : c'.queue = c.queue) (hhand : c'.pc.inHand = c.pc.inHand)
    (hacc : acceptedTasks es = []) (hsent : sentTasks es = []) (href : refusedTasks es = []) :
    TasksBalance c c' es := fun t => by
  rw [hq, hhand, hacc, hsent, href]
  rfl

theorem tasks_handle (s : Scheduler) (src : UInt32) (now registeredAt : Time) (m : Incoming) :
    acceptedTasks (s.handle src now registeredAt m).2 = [] ∧
      sentTasks (s.handle src now registeredAt m).2 = [] ∧
      refusedTasks (s.handle src now registeredAt m).2 = [] := by
  rcases m with caps | - | (- | r) | - <;> exact ⟨rfl, rfl, rfl⟩

/-- **No step loses or copies a task**, except at the end of the array. -/
theorem tasksBalance_of_transition (hs : Transition c l c' es) (hpc' : c'.pc ≠ .overrun) :
    TasksBalance c c' es := by
  cases hs with
  | enqueueRefused => exact fun t => rfl
  | recvNone hpc | schedule hpc | dispatchEnd hpc | dispatchWorker hpc | collectNothing hpc
  | collectDone hpc | sendFail hpc | requeueDone hpc | timeouts hpc =>
    exact tasksBalance_of_eq rfl (by rw [hpc]; rfl) rfl rfl rfl
  | recvMsg hpc =>
    obtain ⟨hacc, hsent, href⟩ := tasks_handle _ _ _ _ _
    exact tasksBalance_of_eq rfl (by rw [hpc]; rfl) hacc hsent href
  | @enqueueAccepted t hacc =>
    intro u
    have hq := ValidQueue.count_enqueue hacc u
    show (c.queue.enqueue t).2.tasks.count u + c.pc.inHand.count u + 0 + 0 =
      c.queue.tasks.count u + c.pc.inHand.count u + [t].count u
    omega
  | @collectTask w rest batch t ts hpc _ _ htasks =>
    intro u
    have hq := ValidQueue.count_dequeue htasks u
    rw [hpc]
    show c.queue.dequeue.2.tasks.count u + (batch ++ [t]).count u + 0 + 0 =
      c.queue.tasks.count u + batch.count u + 0
    rw [List.count_append]
    omega
  | collectOverrun => exact absurd rfl hpc'
  | @sendOk w rest batch clock hpc =>
    intro u
    rw [hpc]
    -- the batch in hand is the batch of the event
    show c.queue.tasks.count u + 0 + (batch ++ []).count u + 0 =
      c.queue.tasks.count u + batch.count u + 0
    rw [List.append_nil]
    omega
  | @requeueAccepted rest t todo hpc hacc =>
    intro u
    have hq := ValidQueue.count_enqueue hacc u
    rw [hpc]
    show (c.queue.enqueue t).2.tasks.count u + todo.count u + 0 + 0 =
      c.queue.tasks.count u + ([t] ++ todo).count u + 0
    rw [List.count_append]
    omega
  | @requeueRefused rest t todo hpc hacc =>
    intro u
    rw [hpc]
    -- the source ignores the return code here: the task leaves the hands of the loop for nowhere
    show c.queue.tasks.count u + todo.count u + 0 + [t].count u =
      c.queue.tasks.count u + ([t] ++ todo).count u + 0
    rw [List.count_append]
    omega

theorem Conserved.step (h : c.Conserved log) (hs : Transition c l c' es)
    (hpc' : c'.pc ≠ .overrun) : c'.Conserved (log ++ es) := by
  intro t
  have ht := h t
  have hbal := tasksBalance_of_transition hs hpc' t
  rw [acceptedTasks_append, sentTasks_append, refusedTasks_append, List.count_append,
    List.count_append, List.count_append]
  omega

/-! ### Whole runs -/

/-- The re-enqueues that the queue accepts: it is not full, and does not hold the id. -/
def RequeueAccepted (s : Coordinator × List Event) : Label → Prop
  | .internal => ∀ rest t todo, s.1.pc = .requeue rest (t :: todo) → s.1.queue.Accepts t
  | _ => True

/-- A step reports a refusal exactly if its re-enqueue is not accepted. -/
theorem refusedTasks_eq_nil_iff (hs : Transition c l c' es) (log : List Event) :
    refusedTasks es = [] ↔ RequeueAccepted (c, log) l := by
  have hother : ∀ {c : Coordinator}, (∀ rest t todo, c.pc ≠ .requeue rest (t :: todo)) →
      RequeueAccepted (c, log) .internal := fun hne rest t todo hpc => absurd hpc (hne rest t todo)
  cases hs with
  | enqueueAccepted | enqueueRefused | recvNone | sendOk | sendFail | timeouts =>
    exact iff_of_true rfl trivial
  | recvMsg => exact iff_of_true (tasks_handle _ _ _ _ _).2.2 trivial
  | schedule hpc | dispatchEnd hpc | dispatchWorker hpc | collectTask hpc | collectOverrun hpc
  | collectNothing hpc | collectDone hpc =>
    exact iff_of_true rfl (hother fun _ _ _ heq => Pc.noConfusion (hpc.symm.trans heq))
  | requeueDone hpc =>
    refine iff_of_true rfl (hother fun _ _ _ heq => ?_)
    obtain ⟨-, htodo⟩ := Pc.requeue.inj (hpc.symm.trans heq)
    exact absurd htodo (List.cons_ne_nil _ _).symm
  | requeueAccepted hpc hacc =>
    refine iff_of_true rfl fun rest t todo heq => ?_
    obtain ⟨-, htodo⟩ := Pc.requeue.inj (hpc.symm.trans heq)
    exact (List.cons.inj htodo).1 ▸ hacc
  | requeueRefused hpc hacc =>
    exact iff_of_false (List.cons_ne_nil _ _) fun hall => hacc (hall _ _ _ hpc)

variable {labels : List Label} {s t : Coordinator × List Event}

theorem conserved_of_run (hrun : Run (logged step) s labels t) (hfit : ∀ l ∈ labels, RegistersFit l)
    (hs : s.1.BatchesFit ∧ s.1.Conserved s.2) : t.1.BatchesFit ∧ t.1.Conserved t.2 := by
  induction hrun with
  | nil => exact hs
  | cons hstep _ ih =>
    obtain ⟨es, hstep, hlog⟩ := logged_eq_some_iff.1 hstep
    have ht := transition_of_step hstep
    have hb := hs.1.step (hfit _ List.mem_cons_self) ht
    refine ih (fun l hl => hfit l (List.mem_cons_of_mem _ hl)) ⟨hb, ?_⟩
    rw [hlog]
    exact hs.2.step ht hb.pc_ne

theorem refusedTasks_eq_nil_iff_meets (hrun : Run (logged step) s labels t) :
    refusedTasks t.2 = [] ↔
      refusedTasks s.2 = [] ∧ Meets (logged step) RequeueAccepted s labels := by
  induction hrun with
  | nil => exact (and_iff_left trivial).symm
  | @cons s u t l labels hstep _ ih =>
    obtain ⟨es, hes, hlog⟩ := logged_eq_some_iff.1 hstep
    rw [ih, meets_cons_of_some hstep, hlog, refusedTasks_append, List.append_eq_nil_iff,
      refusedTasks_eq_nil_iff (transition_of_step hes) s.2, and_assoc]

/-- **At-most-once dispatch.** In every run of the loop whose registered batch sizes are at most
100, with any send failures and any external enqueues in between: at a loop boundary the accepted
tasks are, each exactly once, the tasks in the queue and the tasks of the batches sent, exactly when
no re-enqueue of the run was refused. -/
theorem dispatched_once_iff {c : Coordinator} {log : List Event}
    (hrun : Run (logged step) (init, []) labels (c, log)) (hfit : ∀ l ∈ labels, RegistersFit l)
    (hpc : c.pc = .recv) :
    (acceptedTasks log).Perm (c.queue.tasks ++ sentTasks log) ↔
      Meets (logged step) RequeueAccepted (init, []) labels := by
  obtain ⟨-, hcons⟩ := conserved_of_run hrun hfit ⟨batchesFit_init, conserved_init⟩
  have hcount : (acceptedTasks log).Perm (c.queue.tasks ++ sentTasks log ++ refusedTasks log) := by
    refine List.perm_iff_count.2 fun t => ?_
    have ht := hcons t
    simp only [hpc, Pc.inHand, List.count_nil] at ht
    rw [List.count_append, List.count_append]
    omega
  have hnone : refusedTasks log = [] ↔ Meets (logged step) RequeueAccepted (init, []) labels :=
    (refusedTasks_eq_nil_iff_meets hrun).trans (and_iff_right rfl)
  rw [← hnone]
  constructor
  · intro hperm
    have hlen := (hperm.symm.trans hcount).length_eq
    simp only [List.length_append] at hlen
    exact List.eq_nil_of_length_eq_zero (by omega)
  · intro hnil
    rwa [hnil, List.append_nil] at hcount

/-- One worker, one task, and a send that fails. -/
def failedSend : List Label :=
  [.enqueue { taskId := 1 }, .recv (some (7, .register none)) 0 0, .internal, .internal, .internal,
    .internal, .send false fun _ => (0, 0), .internal, .internal, .internal, .timeouts 1]

/-- After a failed send the task is back in the queue, and nowhere else. -/
theorem dispatched_once_after_failure :
    ∃ t, Run (logged step) (init, []) failedSend t ∧ t.1.queue.tasks = [{ taskId := 1 }] ∧
      ((acceptedTasks t.2).Perm (t.1.queue.tasks ++ sentTasks t.2) ↔
        Meets (logged step) RequeueAccepted (init, []) failedSend) := by
  refine ⟨_, run_get rfl, rfl, dispatched_once_iff (run_get rfl) ?_ rfl⟩
  intro l hl
  simp only [failedSend, List.mem_cons, List.not_mem_nil, or_false] at hl
  rcases hl with rfl | rfl | rfl | rfl | rfl | rfl | rfl | rfl | rfl | rfl | rfl <;> trivial

/-- While the task is in hand, its id is enqueued again from outside; the send fails, and the
re-enqueue is refused as a duplicate. -/
def duplicateInHand : List Label :=
  [.enqueue { taskId := 1 }, .recv (some (7, .register none)) 0 0, .internal, .internal, .internal,
    .internal, .enqueue { taskId := 1, modelId := 5 }, .send false fun _ => (0, 0), .internal,
    .internal, .internal, .timeouts 1]

/-- The first of the two accepted tasks is then neither queued nor sent. -/
theorem dispatched_once_fails_on_refusal :
    ∃ t, Run (logged step) (init, []) duplicateInHand t ∧ (∀ l ∈ duplicateInHand, RegistersFit l) ∧
      t.1.pc = .recv ∧ ¬ (acceptedTasks t.2).Perm (t.1.queue.tasks ++ sentTasks t.2) := by
  refine ⟨_, run_get rfl, ?_, rfl, fun hperm => absurd hperm.length_eq (by decide)⟩
  intro l hl
  simp only [duplicateInHand, List.mem_cons, List.not_mem_nil, or_false] at hl
  rcases hl with rfl | rfl | rfl | rfl | rfl | rfl | rfl | rfl | rfl | rfl | rfl | rfl <;> trivial

end Coordinator

end DistributedComputing
