import DistributedComputing.Coordinator.Scheduler
import DistributedComputing.Foundations.StepRun

/-!
# The worker table is a bounded set keyed by worker id

What every call keeps, whatever the order of the calls: the table has at most `max_workers` entries,
no two with one id, none in the initial state `WORKER_STATE_UNKNOWN`, and the tracking table has at
most `max_tasks` entries. `WellFormed` is the conjunction, and `wellFormed_of_run` the statement for
every history.

Most calls change one entry in place, so most of the work is one lemma, `WellFormed.onWorker`: an
update that keeps the entry's id and does not bring back the initial state keeps the table well
formed, whatever it does to the statistics.

A registration is refused for lack of room only, but a worker of a full table cannot register again.
-/

namespace DistributedComputing.Scheduler

open StepRun KeyedTable

/-- The bounds and the key discipline of the two tables. -/
structure WellFormed (s : Scheduler) : Prop where
  length_le : s.workers.length ≤ s.maxWorkers.toNat
  nodup : (s.workers.map WorkerInfo.workerId).Nodup
  state_ne_unknown : ∀ w ∈ s.workers, w.state ≠ .unknown
  tasks_le : s.tasks.length ≤ s.maxTasks

theorem wellFormed_create (config : SchedulerConfig) : (create config).WellFormed where
  length_le := Nat.zero_le _
  nodup := List.nodup_nil
  state_ne_unknown := by simp [create]
  tasks_le := Nat.zero_le _

variable {s : Scheduler}

/-- Updating one entry, if its id stays and its state does not become `unknown`. -/
theorem WellFormed.onWorker (h : s.WellFormed) {i : UInt32} {f : WorkerInfo → WorkerInfo}
    {g : WorkerInfo → SchedulerStats → SchedulerStats}
    (hid : ∀ w : WorkerInfo, w.workerId = i → (f w).workerId = i)
    (hstate : ∀ w : WorkerInfo, w.state ≠ .unknown → (f w).state ≠ .unknown) :
    (s.onWorker i f g).WellFormed where
  length_le := by
    rw [onWorker_workers, length_update, onWorker_maxWorkers]
    exact h.length_le
  nodup := by
    rw [onWorker_workers, map_key_update hid]
    exact h.nodup
  state_ne_unknown := by
    rw [onWorker_workers]
    exact forall_mem_update h.state_ne_unknown fun w hw =>
      hstate w (h.state_ne_unknown w (mem_of_lookup hw))
  tasks_le := by
    rw [onWorker_tasks, onWorker_maxTasks]
    exact h.tasks_le

theorem WellFormed.registerWorker (h : s.WellFormed) (info : WorkerInfo) (now registeredAt : Time) :
    (s.registerWorker info now registeredAt).2.WellFormed := by
  rcases Nat.lt_or_ge s.workers.length s.maxWorkers.toNat with hroom | hfull
  · rcases hw : s.worker? info.workerId with - | w
    · rw [registerWorker_of_new hroom hw]
      refine ⟨?_, ?_, ?_, h.tasks_le⟩
      · simp only [List.length_append, List.length_singleton]
        omega
      · rw [List.map_append, List.map_singleton, List.nodup_append]
        refine ⟨h.nodup, List.nodup_singleton _, ?_⟩
        intro i hi j hj
        obtain ⟨v, hv, rfl⟩ := List.mem_map.1 hi
        rw [List.mem_singleton.1 hj]
        exact lookup_eq_none_iff.1 hw v hv
      · intro v hv
        rcases List.mem_append.1 hv with hv | hv
        · exact h.state_ne_unknown v hv
        · rw [List.mem_singleton.1 hv]
          simp
    · rw [registerWorker_of_known hroom hw]
      refine h.onWorker (g := fun _ st => st) ?_ ?_
      · intro _ _; rfl
      · intro _ _; simp
  · rw [registerWorker_of_full hfull]
    exact h

theorem WellFormed.unregisterWorker (h : s.WellFormed) (i : UInt32) :
    (s.unregisterWorker i).2.WellFormed := by
  rcases hw : s.worker? i with - | w
  · rw [unregisterWorker_of_none hw]
    exact h
  · rw [unregisterWorker_of_some hw]
    have hperm : (w :: swapRemove WorkerInfo.workerId i s.workers).Perm s.workers :=
      swapRemove_perm hw
    refine ⟨?_, ?_, ?_, h.tasks_le⟩
    · have := hperm.length_eq
      have := h.length_le
      simp only [List.length_cons] at *
      omega
    · have hnd := (hperm.map WorkerInfo.workerId).nodup_iff.2 h.nodup
      exact (List.nodup_cons.1 hnd).2
    · intro v hv
      exact h.state_ne_unknown v (hperm.subset (List.mem_cons_of_mem w hv))

theorem WellFormed.trackTask (h : s.WellFormed) (taskId : UInt64) (i : UInt32)
    (submitted started : Time) : (s.trackTask taskId i submitted started).2.WellFormed := by
  rcases Nat.lt_or_ge s.tasks.length s.maxTasks with hroom | hfull
  · rw [trackTask_of_room hroom]
    refine ⟨h.length_le, h.nodup, h.state_ne_unknown, ?_⟩
    simp only [List.length_append, List.length_singleton]
    omega
  · rw [trackTask_of_full hfull]
    exact h

theorem completeEntry_state_ne_unknown (status : ℤ) {w : WorkerInfo} (h : w.state ≠ .unknown) :
    (completeEntry status w).state ≠ .unknown := by
  simp only [completeEntry]
  split
  · simp
  · exact h

theorem WellFormed.withStatus (h : s.WellFormed) (taskId : UInt64) (status : ℤ) :
    (s.withStatus taskId status).WellFormed :=
  ⟨h.length_le, h.nodup, h.state_ne_unknown, by
    rw [Scheduler.withStatus, length_update]
    exact h.tasks_le⟩

theorem WellFormed.markTaskComplete (h : s.WellFormed) (taskId : UInt64) (status : ℤ) :
    (s.markTaskComplete taskId status).2.WellFormed := by
  rcases ht : s.task? taskId with - | task
  · rw [markTaskComplete_of_none ht]
    exact h
  · rw [markTaskComplete_of_some ht]
    exact (h.withStatus taskId status).onWorker (fun _ hi => hi) fun _ hw =>
      completeEntry_state_ne_unknown status hw

/-! ### The timeout loop -/

@[simp] theorem checkTimeout_workerId (timeout : ℤ) (now : Time) (w : WorkerInfo)
    (st : SchedulerStats) : (checkTimeout timeout now w st).1.workerId = w.workerId := by
  rw [checkTimeout]
  split <;> rfl

theorem checkTimeoutsLoop_map_workerId (timeout : ℤ) (now : Time) (l : List WorkerInfo)
    (st : SchedulerStats) :
    (checkTimeoutsLoop timeout now l st).1.map WorkerInfo.workerId =
      l.map WorkerInfo.workerId := by
  induction l generalizing st with
  | nil => rfl
  | cons w l ih => simp [checkTimeoutsLoop, ih]

theorem forall_mem_checkTimeoutsLoop {R : WorkerInfo → Prop}
    (hdead : ∀ w, R w → R { w with state := .dead }) (timeout : ℤ) (now : Time)
    {l : List WorkerInfo} (st : SchedulerStats) (hl : ∀ w ∈ l, R w) :
    ∀ w ∈ (checkTimeoutsLoop timeout now l st).1, R w := by
  induction l generalizing st with
  | nil => exact List.forall_mem_nil _
  | cons v l ih =>
    have hv : R (checkTimeout timeout now v st).1 := by
      rw [checkTimeout]
      split
      · exact hdead v (hl v List.mem_cons_self)
      · exact hl v List.mem_cons_self
    intro w hw
    rcases List.mem_cons.1 hw with rfl | hw
    · exact hv
    · exact ih _ (fun u hu => hl u (List.mem_cons_of_mem v hu)) w hw

theorem WellFormed.checkTimeouts (h : s.WellFormed) (now : Time) :
    (s.checkTimeouts now).2.WellFormed := by
  have hmap := checkTimeoutsLoop_map_workerId s.heartbeatTimeoutSecs now s.workers s.stats
  have hstate := forall_mem_checkTimeoutsLoop (R := fun w => w.state ≠ .unknown) (fun _ _ => nofun)
    s.heartbeatTimeoutSecs now s.stats h.state_ne_unknown
  refine ⟨?_, ?_, hstate, h.tasks_le⟩
  · have hlen := congrArg List.length hmap
    rw [List.length_map, List.length_map] at hlen
    exact hlen ▸ h.length_le
  · exact hmap ▸ h.nodup

/-! ### Every call, every history -/

/-- **Every call keeps the tables well formed.** -/
theorem WellFormed.call (h : s.WellFormed) (c : Call) : (s.call c).WellFormed := by
  cases c with
  | registerWorker info now registeredAt => exact h.registerWorker info now registeredAt
  | unregisterWorker i => exact h.unregisterWorker i
  | updateHeartbeat i now =>
    refine h.onWorker (fun w hw => ?_) fun w hw => ?_ <;> split
    · exact hw
    · exact hw
    · simp
    · exact hw
  | markWorkerBusy i n =>
    refine h.onWorker (fun _ hw => hw) fun w hw => ?_
    by_cases hidle : w.state = .idle <;> simp [hidle, hw]
  | markWorkerIdle i =>
    refine h.onWorker (fun _ hw => hw) fun w hw => ?_
    by_cases hbusy : w.state = .busy <;> simp [hbusy, hw]
  | trackTask taskId i submitted started => exact h.trackTask taskId i submitted started
  | markTaskComplete taskId status => exact h.markTaskComplete taskId status
  | checkTimeouts now => exact h.checkTimeouts now

theorem WellFormed.step {t : Scheduler} {c : Call} (h : s.WellFormed) (hs : s.step c = some t) :
    t.WellFormed := by
  obtain rfl := Option.some.inj hs
  exact h.call c

theorem wellFormed_of_run {config : SchedulerConfig} {calls : List Call}
    (h : Run Scheduler.step (create config) calls s) : s.WellFormed :=
  h.invariant WellFormed.step (wellFormed_create config)

/-! ### The table as a set keyed by worker id -/

/-- The ids of the workers in the table. -/
def workerIds (s : Scheduler) : List UInt32 := s.workers.map WorkerInfo.workerId

theorem worker?_eq_none_iff {i : UInt32} : s.worker? i = none ↔ i ∉ s.workerIds :=
  lookup_eq_none_iff_not_mem

/-- `scheduler_unregister_worker` returns 0 exactly for the ids of the table. -/
theorem unregisterWorker_code_iff (s : Scheduler) (i : UInt32) :
    (s.unregisterWorker i).1 = 0 ↔ i ∈ s.workerIds := by
  rcases hw : s.worker? i with - | w
  · rw [unregisterWorker_of_none hw]
    exact iff_of_false (Int.neg_ne_zero.2 (by decide)) (worker?_eq_none_iff.1 hw)
  · rw [unregisterWorker_of_some hw]
    refine iff_of_true rfl ?_
    by_contra hi
    rw [worker?_eq_none_iff.2 hi] at hw
    cases hw

theorem WellFormed.unregisterWorker_perm (h : s.WellFormed) (i : UInt32) :
    (s.unregisterWorker i).2.workers.Perm (discard WorkerInfo.workerId i s.workers) := by
  rcases hw : s.worker? i with - | w
  · rw [unregisterWorker_of_none hw]
    have hne := lookup_eq_none_iff.1 hw
    rw [KeyedTable.discard, List.filter_eq_self.2 fun v hv => decide_eq_true (hne v hv)]
  · rw [unregisterWorker_of_some hw]
    exact swapRemove_perm_discard h.nodup hw

theorem workerIds_onWorker {i : UInt32} {f : WorkerInfo → WorkerInfo}
    {g : WorkerInfo → SchedulerStats → SchedulerStats}
    (hf : ∀ w : WorkerInfo, w.workerId = i → (f w).workerId = i) :
    (s.onWorker i f g).workerIds = s.workerIds := by
  rw [workerIds, onWorker_workers, map_key_update hf]
  rfl

theorem workerIds_registerWorker (s : Scheduler) (info : WorkerInfo) (now registeredAt : Time) :
    (s.registerWorker info now registeredAt).2.workerIds =
      s.workerIds ++
        if s.workers.length < s.maxWorkers.toNat ∧ info.workerId ∉ s.workerIds then [info.workerId]
        else [] := by
  rcases Nat.lt_or_ge s.workers.length s.maxWorkers.toNat with hroom | hfull
  · rcases hw : s.worker? info.workerId with - | w
    · rw [registerWorker_of_new hroom hw, if_pos ⟨hroom, worker?_eq_none_iff.1 hw⟩]
      exact List.map_append
    · have hmem : ¬ info.workerId ∉ s.workerIds := fun hi => by
        rw [worker?_eq_none_iff.2 hi] at hw
        cases hw
      rw [registerWorker_of_known hroom hw, if_neg fun hand => hmem hand.2, List.append_nil]
      exact workerIds_onWorker fun _ _ => rfl
  · rw [registerWorker_of_full hfull, if_neg fun hand => Nat.not_lt.2 hfull hand.1,
      List.append_nil]

/-- The calls that are neither a registration nor its opposite. -/
def Call.IsUpdate : Call → Prop
  | .registerWorker .. => False
  | .unregisterWorker _ => False
  | _ => True

/-- No other call adds, removes or renames an entry, or moves one. -/
theorem workerIds_call_of_isUpdate {c : Call} (hc : c.IsUpdate) :
    (s.call c).workerIds = s.workerIds := by
  cases c with
  | registerWorker | unregisterWorker => exact hc.elim
  | updateHeartbeat i now =>
    refine workerIds_onWorker fun w hw => ?_
    split <;> exact hw
  | markWorkerBusy | markWorkerIdle => exact workerIds_onWorker fun _ hw => hw
  | trackTask taskId i submitted started =>
    rw [call, Scheduler.trackTask]
    split <;> rfl
  | markTaskComplete taskId status =>
    rw [call]
    rcases ht : s.task? taskId with - | task
    · rw [markTaskComplete_of_none ht]
    · rw [markTaskComplete_of_some ht]
      exact workerIds_onWorker fun _ hw => hw
  | checkTimeouts now => exact checkTimeoutsLoop_map_workerId _ now s.workers s.stats

theorem maxWorkers_call (s : Scheduler) (c : Call) : (s.call c).maxWorkers = s.maxWorkers := by
  cases c with
  | registerWorker info now registeredAt =>
    rw [call, Scheduler.registerWorker]
    split
    · rfl
    · split
      · exact onWorker_maxWorkers ..
      · rfl
  | unregisterWorker i =>
    rw [call, Scheduler.unregisterWorker]
    split <;> rfl
  | updateHeartbeat | markWorkerBusy | markWorkerIdle => exact onWorker_maxWorkers ..
  | trackTask taskId i submitted started =>
    rw [call, Scheduler.trackTask]
    split <;> rfl
  | markTaskComplete taskId status =>
    rw [call, Scheduler.markTaskComplete]
    split
    · rfl
    · exact onWorker_maxWorkers ..
  | checkTimeouts => rfl

theorem maxWorkers_of_run {config : SchedulerConfig} {calls : List Call}
    (h : Run Scheduler.step (create config) calls s) : s.maxWorkers = config.maxWorkers := by
  have hstep : ∀ {s : Scheduler} {c : Call} {t : Scheduler}, s.maxWorkers = config.maxWorkers →
      s.step c = some t → t.maxWorkers = config.maxWorkers := by
    intro s c t hs hst
    obtain rfl := Option.some.inj hst
    rw [maxWorkers_call, hs]
  exact h.invariant hstep rfl

/-- **The worker table is a set keyed by worker id.** After every history of calls there are at most
`max_workers` entries, with distinct ids. Unregistering succeeds exactly for the ids of the table,
and what it leaves are the entries with other ids, unchanged; a registration adds at most its own
id; every other call keeps the ids. -/
theorem workers_keyed_set {config : SchedulerConfig} {calls : List Call}
    (h : Run Scheduler.step (create config) calls s) :
    s.workers.length ≤ config.maxWorkers.toNat ∧ s.workerIds.Nodup ∧
      (∀ i, ((s.unregisterWorker i).1 = 0 ↔ i ∈ s.workerIds) ∧
        (s.unregisterWorker i).2.workers.Perm (discard WorkerInfo.workerId i s.workers)) ∧
      (∀ info now registeredAt, (s.registerWorker info now registeredAt).2.workerIds =
        s.workerIds ++
          if s.workers.length < config.maxWorkers.toNat ∧ info.workerId ∉ s.workerIds then
            [info.workerId]
          else []) ∧
      ∀ c : Call, c.IsUpdate → (s.call c).workerIds = s.workerIds := by
  have hwf : s.WellFormed := wellFormed_of_run h
  have hmax := maxWorkers_of_run h
  refine ⟨hmax ▸ hwf.length_le, hwf.nodup, fun i => ⟨?_, ?_⟩, ?_, ?_⟩
  · exact unregisterWorker_code_iff s i
  · exact hwf.unregisterWorker_perm i
  · exact fun info now registeredAt => hmax ▸ workerIds_registerWorker s info now registeredAt
  · exact fun c hc => workerIds_call_of_isUpdate hc

/-- Two workers register, and the first one leaves. -/
theorem workers_keyed_set_pair :
    ∃ s, Run Scheduler.step (create ⟨2, 30⟩)
        [.registerWorker { workerId := 7 } 0 0, .registerWorker { workerId := 8 } 1 1,
          .markWorkerBusy 8 3] s ∧
      (s.unregisterWorker 7).2.workers.Perm (discard WorkerInfo.workerId 7 s.workers) := by
  obtain ⟨s, hrun⟩ : ∃ s, Run Scheduler.step (create ⟨2, 30⟩)
      [.registerWorker { workerId := 7 } 0 0, .registerWorker { workerId := 8 } 1 1,
        .markWorkerBusy 8 3] s :=
    ⟨_, run_get (by decide)⟩
  exact ⟨s, hrun, ((workers_keyed_set hrun).2.2.1 7).2⟩

/-! ### When a registration is refused -/

/-- Only the room decides, for known ids too. -/
theorem registerWorker_code_iff (s : Scheduler) (info : WorkerInfo) (now registeredAt : Time) :
    (s.registerWorker info now registeredAt).1 = 0 ↔ s.workers.length < s.maxWorkers.toNat := by
  rcases Nat.lt_or_ge s.workers.length s.maxWorkers.toNat with hroom | hfull
  · refine iff_of_true ?_ hroom
    rcases hw : s.worker? info.workerId with - | w
    · rw [registerWorker_of_new hroom hw]
    · rw [registerWorker_of_known hroom hw]
  · rw [registerWorker_of_full hfull]
    exact iff_of_false (Int.neg_ne_zero.2 (by decide)) (Nat.not_lt.2 hfull)

theorem registerWorker_of_code_ne {info : WorkerInfo} {now registeredAt : Time}
    (h : (s.registerWorker info now registeredAt).1 ≠ 0) :
    (s.registerWorker info now registeredAt).2 = s := by
  rw [Ne, registerWorker_code_iff, Nat.not_lt] at h
  rw [registerWorker_of_full h]

/-- **Refusal for lack of room.** A registration is meant to succeed exactly if the id is known or
there is room for a new entry, and to change nothing if it fails. The second always holds. The first
does exactly if the id is not one of the ids of a **full** table: the room is checked before the
table is searched. -/
theorem register_refused_for_room_iff {config : SchedulerConfig} {calls : List Call}
    (h : Run Scheduler.step (create config) calls s) (info : WorkerInfo) (now registeredAt : Time) :
    ((s.registerWorker info now registeredAt).1 ≠ 0 →
        (s.registerWorker info now registeredAt).2 = s) ∧
      (((s.registerWorker info now registeredAt).1 = 0 ↔
          info.workerId ∈ s.workerIds ∨ s.workers.length < config.maxWorkers.toNat) ↔
        ¬ (info.workerId ∈ s.workerIds ∧ s.workers.length = config.maxWorkers.toNat)) := by
  have hle : s.workers.length ≤ config.maxWorkers.toNat :=
    maxWorkers_of_run h ▸ (wellFormed_of_run h).length_le
  refine ⟨registerWorker_of_code_ne, ?_⟩
  rw [registerWorker_code_iff, maxWorkers_of_run h]
  constructor
  · rintro hiff ⟨hmem, hfull⟩
    exact Nat.ne_of_lt (hiff.2 (.inl hmem)) hfull
  · intro hnot
    refine ⟨.inr, ?_⟩
    rintro (hmem | hroom)
    · exact Nat.lt_of_le_of_ne hle fun hfull => hnot ⟨hmem, hfull⟩
    · exact hroom

/-- A table with room for two, and one worker in it that registers again. -/
theorem register_refused_for_room_iff_again :
    ∃ s, Run Scheduler.step (create ⟨2, 30⟩) [.registerWorker { workerId := 7 } 0 0] s ∧
      7 ∈ s.workerIds ∧
      (((s.registerWorker { workerId := 7 } 1 1).1 = 0 ↔
          7 ∈ s.workerIds ∨ s.workers.length < 2) ↔
        ¬ (7 ∈ s.workerIds ∧ s.workers.length = 2)) := by
  obtain ⟨s, hrun, hmem⟩ : ∃ s, Run Scheduler.step (create ⟨2, 30⟩)
      [.registerWorker { workerId := 7 } 0 0] s ∧ 7 ∈ s.workerIds :=
    ⟨_, run_get (by decide), by decide⟩
  exact ⟨s, hrun, hmem, (register_refused_for_room_iff hrun { workerId := 7 } 1 1).2⟩

/-- In a table for one worker, the worker that is in it cannot register again. -/
theorem known_worker_refused_when_full :
    ∃ s, Run Scheduler.step (create ⟨1, 30⟩) [.registerWorker { workerId := 7 } 0 0] s ∧
      7 ∈ s.workerIds ∧ (s.registerWorker { workerId := 7 } 1 1).1 = -2 :=
  ⟨_, run_get (by decide), by decide, by decide⟩

end DistributedComputing.Scheduler
