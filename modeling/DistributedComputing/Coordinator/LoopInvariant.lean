import DistributedComputing.Coordinator.Loop
import DistributedComputing.Coordinator.SchedulerTable

/-!
# Invariants of the coordinator's loop

What holds in every state of the loop, whatever the environment does. The worker table stays well
formed, the batch in hand fits its array, and — the fact the dispatching code relies on without
checking it — the workers a round has still to serve are **idle in the table now**, not only when
they were listed: between `scheduler_get_idle_workers` and the last send of the round, the table
only changes by sends to other workers of the same round.
-/

namespace DistributedComputing

open KeyedTable StepRun

namespace Scheduler

variable {s : Scheduler} {i j : UInt32}

theorem worker?_onWorker_self {f : WorkerInfo → WorkerInfo}
    {g : WorkerInfo → SchedulerStats → SchedulerStats} (hf : ∀ w, (f w).workerId = w.workerId) :
    (s.onWorker i f g).worker? i = (s.worker? i).map f := by
  rw [worker?, onWorker_workers]
  exact lookup_update_self fun w hw => (hf w).trans hw

theorem worker?_onWorker_of_ne {f : WorkerInfo → WorkerInfo}
    {g : WorkerInfo → SchedulerStats → SchedulerStats} (hf : ∀ w, (f w).workerId = w.workerId)
    (hij : j ≠ i) : (s.onWorker i f g).worker? j = s.worker? j := by
  rw [worker?, onWorker_workers]
  exact lookup_update_of_ne hij fun w hw => (hf w).trans hw

theorem worker?_markWorkerBusy_of_ne (hij : j ≠ i) (n : ℕ) :
    (s.markWorkerBusy i n).worker? j = s.worker? j := by
  rw [markWorkerBusy]
  exact worker?_onWorker_of_ne (fun _ => rfl) hij

@[simp] theorem trackTask_workers (s : Scheduler) (taskId : UInt64) (i : UInt32)
    (submitted started : Time) :
    (s.trackTask taskId i submitted started).2.workers = s.workers := by
  rw [trackTask]
  split <;> rfl

@[simp] theorem trackBatch_workers (s : Scheduler) (i : UInt32) (clock : ℕ → Time × Time) (k : ℕ)
    (batch : List Task) : (s.trackBatch i clock k batch).workers = s.workers := by
  induction batch generalizing s k with
  | nil => rfl
  | cons t batch ih => rw [trackBatch, ih, trackTask_workers]

@[simp] theorem worker?_trackBatch (s : Scheduler) (i : UInt32) (clock : ℕ → Time × Time) (k : ℕ)
    (batch : List Task) : (s.trackBatch i clock k batch).worker? j = s.worker? j := by
  rw [worker?, trackBatch_workers]
  rfl

theorem WellFormed.trackBatch (h : s.WellFormed) (clock : ℕ → Time × Time) (k : ℕ)
    (batch : List Task) : (s.trackBatch i clock k batch).WellFormed := by
  induction batch generalizing s k with
  | nil => exact h
  | cons t batch ih => exact ih (h.trackTask _ _ _ _) _

theorem WellFormed.handle (h : s.WellFormed) (now registeredAt : Time) (m : Incoming) :
    (s.handle i now registeredAt m).1.WellFormed := by
  rcases m with caps | - | (- | r) | -
  · exact h.call (.registerWorker _ now registeredAt)
  · exact h.call (.updateHeartbeat i now)
  · exact h
  · exact h.call (.markTaskComplete r.taskId r.status)
  · exact h

theorem WellFormed.getIdleWorkers (h : s.WellFormed) (n : ℕ) :
    ((s.getIdleWorkers n).map WorkerInfo.workerId).Nodup ∧
      ∀ w ∈ s.getIdleWorkers n, s.worker? w.workerId = some w ∧ w.state = .idle := by
  have hsub : (s.getIdleWorkers n).Sublist s.workers :=
    (List.take_sublist n _).trans List.filter_sublist
  refine ⟨h.nodup.sublist (hsub.map _), fun w hw => ⟨?_, ?_⟩⟩
  · exact (mem_iff_lookup_eq_some h.nodup).1 (hsub.subset hw)
  · simpa using (List.mem_filter.1 (List.mem_of_mem_take hw)).2

end Scheduler

/-- The workers that the round has still to serve, the current one included. -/
def Pc.pending : Pc → List WorkerInfo
  | .dispatch rest => rest
  | .collect w rest _ => w :: rest
  | .send w rest _ => w :: rest
  | .requeue rest _ => rest
  | _ => []

/-- No empty batch is about to be sent. -/
def Pc.SendsSome : Pc → Prop
  | .send _ _ batch => batch ≠ []
  | _ => True

namespace Coordinator

/-- A step without its report. -/
def next (c : Coordinator) (l : Label) : Option Coordinator := (c.step l).map Prod.fst

/-- What holds in every state of the loop. -/
structure LoopInv (c : Coordinator) : Prop where
  wellFormed : c.sched.WellFormed
  pending_idle : ∀ w ∈ c.pc.pending, ∃ v, c.sched.worker? w.workerId = some v ∧ v.state = .idle
  pending_nodup : (c.pc.pending.map WorkerInfo.workerId).Nodup
  inHand_le : c.pc.inHand.length ≤ batchCapacity
  sendsSome : c.pc.SendsSome

theorem loopInv_init : init.LoopInv where
  wellFormed := Scheduler.wellFormed_create schedConfig
  pending_idle := List.forall_mem_nil _
  pending_nodup := List.nodup_nil
  inHand_le := Nat.zero_le _
  sendsSome := trivial

variable {c c' : Coordinator} {l : Label} {es : List Event}

/-- A step that leaves the scheduler alone and serves no more workers than before. -/
theorem LoopInv.of_sched_eq (h : c.LoopInv) (hs : c'.sched = c.sched)
    (hsub : c'.pc.pending.Sublist c.pc.pending) (hhand : c'.pc.inHand.length ≤ batchCapacity)
    (hne : c'.pc.SendsSome) : c'.LoopInv where
  wellFormed := hs ▸ h.wellFormed
  pending_idle := fun w hw => hs ▸ h.pending_idle w (hsub.subset hw)
  pending_nodup := h.pending_nodup.sublist (hsub.map _)
  inHand_le := hhand
  sendsSome := hne

theorem loopInv_of_pending_nil (hs : c.sched.WellFormed) (hp : c.pc.pending = [])
    (hi : c.pc.inHand = []) (hne : c.pc.SendsSome) : c.LoopInv where
  wellFormed := hs
  pending_idle := by rw [hp]; exact List.forall_mem_nil _
  pending_nodup := by rw [hp]; exact List.nodup_nil
  inHand_le := by rw [hi]; exact Nat.zero_le _
  sendsSome := hne

/-- The worker a batch is about to be sent to is idle, and the batch is neither empty nor too
large for the counter. -/
theorem LoopInv.send {w : WorkerInfo} {rest : List WorkerInfo} {batch : List Task} (h : c.LoopInv)
    (hpc : c.pc = .send w rest batch) :
    (∃ v, c.sched.worker? w.workerId = some v ∧ v.state = .idle) ∧ batch ≠ [] ∧
      batch.length < 2 ^ 32 := by
  have hidle := h.pending_idle
  have hne := h.sendsSome
  have hle := h.inHand_le
  rw [hpc] at hidle hne hle
  exact ⟨hidle w List.mem_cons_self, hne, Nat.lt_of_le_of_lt hle (by decide)⟩

theorem LoopInv.sendOk {w : WorkerInfo} {rest : List WorkerInfo} {batch : List Task} (h : c.LoopInv)
    (hpc : c.pc = .send w rest batch) (clock : ℕ → Time × Time) :
    (c.sendOk w rest batch clock).LoopInv where
  wellFormed :=
    (h.wellFormed.call (.markWorkerBusy w.workerId batch.length)).trackBatch clock 0 batch
  pending_idle := by
    intro v hv
    have hnd := h.pending_nodup
    have hidle := h.pending_idle
    rw [hpc] at hnd hidle
    -- The workers of a round have distinct ids, so the others are still idle.
    have hne : v.workerId ≠ w.workerId := fun heq =>
      (List.nodup_cons.1 hnd).1 (heq ▸ List.mem_map_of_mem hv)
    obtain ⟨u, hu, hq⟩ := hidle v (List.mem_cons_of_mem w hv)
    refine ⟨u, ?_, hq⟩
    rw [Coordinator.sendOk, Scheduler.worker?_trackBatch,
      Scheduler.worker?_markWorkerBusy_of_ne hne, hu]
  pending_nodup := by
    have hnd := h.pending_nodup
    rw [hpc] at hnd
    exact (List.nodup_cons.1 hnd).2
  inHand_le := Nat.zero_le _
  sendsSome := trivial

/-- **Every step keeps the invariant.** -/
theorem LoopInv.step (h : c.LoopInv) (hs : Transition c l c' es) : c'.LoopInv := by
  have hhand := h.inHand_le
  cases hs with
  | enqueueAccepted | enqueueRefused =>
    exact h.of_sched_eq rfl (List.Sublist.refl _) h.inHand_le h.sendsSome
  | recvNone => exact loopInv_of_pending_nil h.wellFormed rfl rfl trivial
  | recvMsg => exact loopInv_of_pending_nil (h.wellFormed.handle _ _ _) rfl rfl trivial
  | schedule =>
    obtain ⟨hnd, hidle⟩ := h.wellFormed.getIdleWorkers 256
    exact ⟨h.wellFormed, fun w hw => ⟨w, hidle w hw⟩, hnd, Nat.zero_le _, trivial⟩
  | dispatchEnd => exact loopInv_of_pending_nil h.wellFormed rfl rfl trivial
  | dispatchWorker hpc =>
    exact h.of_sched_eq rfl (by rw [hpc]; exact List.Sublist.refl _) (Nat.zero_le _) trivial
  | collectTask hpc _ hcap =>
    refine h.of_sched_eq rfl (by rw [hpc]; exact List.Sublist.refl _) ?_ trivial
    rw [Pc.inHand, List.length_append]
    exact hcap
  | collectOverrun => exact loopInv_of_pending_nil h.wellFormed rfl rfl trivial
  | collectNothing hpc =>
    exact h.of_sched_eq rfl (by rw [hpc]; exact List.sublist_cons_self _ _) (Nat.zero_le _) trivial
  | collectDone hpc hne =>
    rw [hpc] at hhand
    exact h.of_sched_eq rfl (by rw [hpc]; exact List.Sublist.refl _) hhand hne
  | sendOk hpc => exact h.sendOk hpc _
  | sendFail hpc =>
    rw [hpc] at hhand
    exact h.of_sched_eq rfl (by rw [hpc]; exact List.sublist_cons_self _ _) hhand trivial
  | requeueDone hpc =>
    exact h.of_sched_eq rfl (by rw [hpc]; exact List.Sublist.refl _) (Nat.zero_le _) trivial
  | requeueAccepted hpc | requeueRefused hpc =>
    rw [hpc] at hhand
    exact h.of_sched_eq rfl (by rw [hpc]; exact List.Sublist.refl _)
      (Nat.le_trans (Nat.le_succ _) hhand) trivial
  | timeouts =>
    exact loopInv_of_pending_nil (h.wellFormed.call (.checkTimeouts _)) rfl rfl trivial

theorem transition_of_next (h : c.next l = some c') : ∃ es, Transition c l c' es := by
  obtain ⟨⟨d, es⟩, hstep, rfl⟩ := Option.map_eq_some_iff.1 h
  exact ⟨es, transition_of_step hstep⟩

theorem LoopInv.next (h : c.LoopInv) (hs : c.next l = some c') : c'.LoopInv := by
  obtain ⟨es, ht⟩ := transition_of_next hs
  exact h.step ht

/-! ### What is known of the workers -/

/-- `R` speaks about what a worker has registered with, which no other message changes. -/
def OfRegistration (R : WorkerInfo → Prop) : Prop :=
  ∀ v w : WorkerInfo, w.workerId = v.workerId → w.maxBatchSize = v.maxBatchSize → R v → R w

/-- The message handlers. -/
theorem forall_workers_handle {R : WorkerInfo → Prop} (hR : OfRegistration R) {s : Scheduler}
    {src : UInt32} {now registeredAt : Time} {m : Incoming} (hs : ∀ w ∈ s.workers, R w)
    (hreg : ∀ caps, m = .register caps → R (Scheduler.registerInfo src caps now)) :
    ∀ w ∈ (s.handle src now registeredAt m).1.workers, R w := by
  rcases m with caps | - | (- | r) | -
  · have hinfo := hreg caps rfl
    rw [Scheduler.handle, Scheduler.registerWorker]
    split
    · exact hs
    · split
      · rw [Scheduler.onWorker_workers]
        exact forall_mem_update hs fun _ _ =>
          hR (Scheduler.registerInfo src caps now) _ rfl rfl hinfo
      · intro w hw
        rcases List.mem_append.1 hw with hw | hw
        · exact hs w hw
        · rw [List.mem_singleton.1 hw]
          exact hR (Scheduler.registerInfo src caps now) _ rfl rfl hinfo
  · rw [Scheduler.handle, Scheduler.updateHeartbeat, Scheduler.onWorker_workers]
    refine forall_mem_update hs fun w hw => ?_
    split <;> exact hR w _ rfl rfl (hs w (mem_of_lookup hw))
  · exact hs
  · rw [Scheduler.handle]
    rcases ht : s.task? r.taskId with - | task
    · rw [Scheduler.markTaskComplete_of_none ht]
      exact hs
    · rw [Scheduler.markTaskComplete_of_some ht, Scheduler.onWorker_workers]
      exact forall_mem_update hs fun w hw => hR w _ rfl rfl (hs w (mem_of_lookup hw))
  · exact hs

/-- **One step**, on the workers of the table and on those the round has still to serve. -/
theorem forall_workers_step {R : WorkerInfo → Prop} (hR : OfRegistration R)
    (hs : Transition c l c' es)
    (hreg : ∀ src caps now registeredAt, l = .recv (some (src, .register caps)) now registeredAt →
      R (Scheduler.registerInfo src caps now))
    (hw : ∀ w ∈ c.sched.workers, R w) (hp : ∀ w ∈ c.pc.pending, R w) :
    (∀ w ∈ c'.sched.workers, R w) ∧ ∀ w ∈ c'.pc.pending, R w := by
  cases hs with
  | enqueueAccepted | enqueueRefused => exact ⟨hw, hp⟩
  | recvNone | dispatchEnd | collectOverrun => exact ⟨hw, List.forall_mem_nil _⟩
  | recvMsg =>
    refine ⟨forall_workers_handle hR hw ?_, List.forall_mem_nil _⟩
    rintro caps rfl
    exact hreg _ caps _ _ rfl
  | schedule =>
    -- the workers on offer are copies of table entries
    refine ⟨hw, fun w hmem => hw w ?_⟩
    exact (List.mem_filter.1 (List.mem_of_mem_take hmem)).1
  | timeouts =>
    refine ⟨Scheduler.forall_mem_checkTimeoutsLoop ?_ _ _ _ hw, List.forall_mem_nil _⟩
    exact fun w => hR w _ rfl rfl
  | dispatchWorker hpc | collectTask hpc | collectDone hpc | requeueDone hpc
  | requeueAccepted hpc | requeueRefused hpc =>
    rw [hpc] at hp
    exact ⟨hw, hp⟩
  | collectNothing hpc | sendFail hpc =>
    rw [hpc] at hp
    exact ⟨hw, (List.forall_mem_cons.1 hp).2⟩
  | sendOk hpc =>
    rw [hpc] at hp
    refine ⟨?_, (List.forall_mem_cons.1 hp).2⟩
    rw [sendOk, Scheduler.trackBatch_workers, Scheduler.markWorkerBusy, Scheduler.onWorker_workers]
    exact forall_mem_update hw fun w hmem => hR w _ rfl rfl (hw w (mem_of_lookup hmem))

end Coordinator

end DistributedComputing
