import DistributedComputing.Coordinator.SchedulerTable

/-!
# The scheduler's statistics and its worker table

`scheduler_stats_t` keeps, beside the worker table, how many workers are idle, busy, dead and
active. Every function adjusts these counters by hand. `StatsAgree` says that they are what a count
over the table gives and that no counter has ever gone below zero.

The adjustments are read through **moves**: `Moves a b st st'` says that the statistics went from
`st` to `st'` as they must when one worker leaves state `a` and enters state `b`, where `none`
stands for not being in the table. Each function of the source is a move of the statistics beside a
show of the table, and `Agrees.move` says that agreement survives when the two match. All of them
match but two: `scheduler_register_worker` sets a known worker to `WORKER_STATE_IDLE` with no move
at all, and `scheduler_unregister_worker` removes a dead worker without leaving `dead_workers`.
Hence `statsAgree_call_iff`, and over whole histories `statsAgree_along_iff`.
-/

namespace DistributedComputing.Scheduler

open StepRun KeyedTable

/-- The number of workers in a state, counted over the table. -/
def tally (q : WorkerState) (l : List WorkerInfo) : ℕ :=
  l.countP fun w => w.state = q

/-- The worker counters are what the table says, and none of them ever wrapped below zero. -/
structure Agrees (l : List WorkerInfo) (st : SchedulerStats) : Prop where
  idle : st.idleWorkers.val = tally .idle l
  busy : st.busyWorkers.val = tally .busy l
  dead : st.deadWorkers.val = tally .dead l
  active : st.activeWorkers.val = st.idleWorkers.val + st.busyWorkers.val
  idle_unwrapped : st.idleWorkers.wrapped = false
  busy_unwrapped : st.busyWorkers.wrapped = false
  dead_unwrapped : st.deadWorkers.wrapped = false
  active_unwrapped : st.activeWorkers.wrapped = false

/-- The statistics of a scheduler agree with its worker table. -/
def StatsAgree (s : Scheduler) : Prop := Agrees s.workers s.stats

theorem statsAgree_create (config : SchedulerConfig) : (create config).StatsAgree :=
  ⟨rfl, rfl, rfl, rfl, rfl, rfl, rfl, rfl⟩

/-! ### Counting over the table -/

theorem tally_pos {l : List WorkerInfo} {w : WorkerInfo} (h : w ∈ l) : 0 < tally w.state l :=
  List.countP_pos_iff.2 ⟨w, h, by simp⟩

theorem tally_add_le_length (l : List WorkerInfo) :
    tally .idle l + tally .busy l + tally .dead l ≤ l.length := by
  induction l with
  | nil => simp [tally]
  | cons w l ih =>
    simp only [tally, List.countP_cons, List.length_cons] at ih ⊢
    cases w.state <;> simp <;> omega

variable {l l' : List WorkerInfo} {st st' : SchedulerStats}

theorem Agrees.total_le (h : Agrees l st) :
    st.idleWorkers.val + st.busyWorkers.val + st.deadWorkers.val ≤ l.length := by
  rw [h.idle, h.busy, h.dead]
  exact tally_add_le_length l

/-! ### Moves -/

/-- What a worker in state `a` contributes to the counter of state `q`. -/
def mark (a : Option WorkerState) (q : WorkerState) : ℕ := if a = some q then 1 else 0

/-- The statistics changed as they must when one worker goes from `a` to `b`. -/
structure Moves (a b : Option WorkerState) (st st' : SchedulerStats) : Prop where
  idle : st'.idleWorkers.val + mark a .idle = st.idleWorkers.val + mark b .idle
  busy : st'.busyWorkers.val + mark a .busy = st.busyWorkers.val + mark b .busy
  dead : st'.deadWorkers.val + mark a .dead = st.deadWorkers.val + mark b .dead
  active : st'.activeWorkers.val + (mark a .idle + mark a .busy) =
    st.activeWorkers.val + (mark b .idle + mark b .busy)
  idle_wrapped : st'.idleWorkers.wrapped = st.idleWorkers.wrapped
  busy_wrapped : st'.busyWorkers.wrapped = st.busyWorkers.wrapped
  dead_wrapped : st'.deadWorkers.wrapped = st.deadWorkers.wrapped
  active_wrapped : st'.activeWorkers.wrapped = st.activeWorkers.wrapped

/-- **Agreement survives matching moves**: of the table, which gains a worker in state `b` for one
in state `a`, and of the statistics. -/
theorem Agrees.move {a b : Option WorkerState} (h : Agrees l st)
    (hl : ∀ q, tally q l' + mark a q = tally q l + mark b q) (hm : Moves a b st st') :
    Agrees l' st' := by
  have hi := hl .idle
  have hb := hl .busy
  have hd := hl .dead
  obtain ⟨m1, m2, m3, m4, w1, w2, w3, w4⟩ := hm
  obtain ⟨h1, h2, h3, h4, u1, u2, u3, u4⟩ := h
  refine ⟨by omega, by omega, by omega, by omega, ?_, ?_, ?_, ?_⟩
  · rw [w1, u1]
  · rw [w2, u2]
  · rw [w3, u3]
  · rw [w4, u4]

theorem moves_refl (a : Option WorkerState) (st : SchedulerStats) : Moves a a st st :=
  ⟨rfl, rfl, rfl, rfl, rfl, rfl, rfl, rfl⟩

theorem moves_enter (hi : st.idleWorkers.val + 1 < 2 ^ 64)
    (ha : st.activeWorkers.val + 1 < 2 ^ 64) :
    Moves none (some .idle) st { st with
      totalWorkers := st.totalWorkers.inc
      activeWorkers := st.activeWorkers.inc
      idleWorkers := st.idleWorkers.inc } := by
  have h1 := Counter.inc_val hi
  have h2 := Counter.inc_val ha
  refine ⟨?_, rfl, rfl, ?_, rfl, rfl, rfl, rfl⟩ <;> simp [mark, h1, h2]

/-- A worker that is neither dead nor unknown stops being active. -/
theorem moves_leaveActive {q : WorkerState} (hdead : q ≠ .dead) (hunknown : q ≠ .unknown)
    (hi : q = .idle → 0 < st.idleWorkers.val) (hb : q = .busy → 0 < st.busyWorkers.val)
    (ha : st.activeWorkers.val = st.idleWorkers.val + st.busyWorkers.val) :
    Moves (some q) none st (leaveActive q st) := by
  cases q with
  | unknown => exact absurd rfl hunknown
  | dead => exact absurd rfl hdead
  | idle =>
    have hpos := hi rfl
    have hpos' : 0 < st.activeWorkers.val := by omega
    have h1 := Counter.dec_val hpos
    have h2 := Counter.dec_val hpos'
    simp only [leaveActive]
    refine ⟨?_, rfl, rfl, ?_, Counter.dec_wrapped hpos, rfl, rfl, Counter.dec_wrapped hpos'⟩
    · simpa [mark] using h1
    · simpa [mark] using h2
  | busy =>
    have hpos := hb rfl
    have hpos' : 0 < st.activeWorkers.val := by omega
    have h1 := Counter.dec_val hpos
    have h2 := Counter.dec_val hpos'
    simp only [leaveActive]
    refine ⟨rfl, ?_, rfl, ?_, rfl, Counter.dec_wrapped hpos, rfl, Counter.dec_wrapped hpos'⟩
    · simpa [mark] using h1
    · simpa [mark] using h2

theorem moves_dead (hd : st.deadWorkers.val + 1 < 2 ^ 64) :
    Moves none (some .dead) st { st with deadWorkers := st.deadWorkers.inc } := by
  have h := Counter.inc_val hd
  refine ⟨rfl, rfl, ?_, rfl, rfl, rfl, rfl, rfl⟩
  simp [mark, h]

theorem Moves.trans {a b c : Option WorkerState} {st'' : SchedulerStats} (h : Moves a b st st')
    (h' : Moves b c st' st'') : Moves a c st st'' := by
  obtain ⟨m1, m2, m3, m4, w1, w2, w3, w4⟩ := h
  obtain ⟨n1, n2, n3, n4, v1, v2, v3, v4⟩ := h'
  exact ⟨by omega, by omega, by omega, by omega, v1.trans w1, v2.trans w2, v3.trans w3,
    v4.trans w4⟩

theorem moves_revive (hd : 0 < st.deadWorkers.val) (hi : st.idleWorkers.val + 1 < 2 ^ 64)
    (ha : st.activeWorkers.val + 1 < 2 ^ 64) :
    Moves (some .dead) (some .idle) st { st with
      deadWorkers := st.deadWorkers.dec
      activeWorkers := st.activeWorkers.inc
      idleWorkers := st.idleWorkers.inc } := by
  have h1 := Counter.dec_val hd
  have h2 := Counter.inc_val hi
  have h3 := Counter.inc_val ha
  refine ⟨?_, rfl, ?_, ?_, rfl, rfl, Counter.dec_wrapped hd, rfl⟩ <;> simp [mark, h1, h2, h3]

theorem moves_markBusy (hi : 0 < st.idleWorkers.val) (hb : st.busyWorkers.val + 1 < 2 ^ 64) :
    Moves (some .idle) (some .busy) st
      { st with idleWorkers := st.idleWorkers.dec, busyWorkers := st.busyWorkers.inc } := by
  have h1 := Counter.dec_val hi
  have h2 := Counter.inc_val hb
  refine ⟨?_, ?_, rfl, ?_, Counter.dec_wrapped hi, rfl, rfl, rfl⟩ <;> simp [mark, h1, h2]

theorem moves_becomeIdle (hb : 0 < st.busyWorkers.val) (hi : st.idleWorkers.val + 1 < 2 ^ 64) :
    Moves (some .busy) (some .idle) st (becomeIdle st) := by
  have h1 := Counter.dec_val hb
  have h2 := Counter.inc_val hi
  refine ⟨?_, ?_, rfl, ?_, rfl, Counter.dec_wrapped hb, rfl, rfl⟩ <;>
    simp [becomeIdle, mark, h1, h2]

/-! ### What each call does to the agreement -/

theorem tally_update {i : UInt32} {f : WorkerInfo → WorkerInfo} {w : WorkerInfo}
    (h : lookup WorkerInfo.workerId i l = some w) (q : WorkerState) :
    tally q (update WorkerInfo.workerId i f l) + mark (some w.state) q =
      tally q l + mark (some (f w).state) q := by
  have hc := countP_update (f := f) (q := fun v => decide (v.state = q)) h
  simpa [tally, mark] using hc

variable {s : Scheduler} {i : UInt32} {w : WorkerInfo}

theorem StatsAgree.total_lt (h : s.StatsAgree) (hs : s.WellFormed) :
    s.stats.idleWorkers.val + s.stats.busyWorkers.val + s.stats.deadWorkers.val < 2 ^ 64 :=
  calc s.stats.idleWorkers.val + s.stats.busyWorkers.val + s.stats.deadWorkers.val
      ≤ s.workers.length := Agrees.total_le h
    _ ≤ s.maxWorkers.toNat := hs.length_le
    _ < 2 ^ 64 := s.maxWorkers.toNat_lt

theorem Agrees.idle_pos (h : Agrees l st) (hw : w ∈ l) (hq : w.state = .idle) :
    0 < st.idleWorkers.val := by
  rw [h.idle, ← hq]
  exact tally_pos hw

theorem Agrees.busy_pos (h : Agrees l st) (hw : w ∈ l) (hq : w.state = .busy) :
    0 < st.busyWorkers.val := by
  rw [h.busy, ← hq]
  exact tally_pos hw

theorem Agrees.dead_pos (h : Agrees l st) (hw : w ∈ l) (hq : w.state = .dead) :
    0 < st.deadWorkers.val := by
  rw [h.dead, ← hq]
  exact tally_pos hw

theorem StatsAgree.onWorker (h : s.StatsAgree) {f : WorkerInfo → WorkerInfo}
    {g : WorkerInfo → SchedulerStats → SchedulerStats}
    (hm : ∀ w, s.worker? i = some w →
      Moves (some w.state) (some (f w).state) s.stats (g w s.stats)) :
    (s.onWorker i f g).StatsAgree := by
  rcases hw : s.worker? i with - | w
  · rw [onWorker_of_none hw]
    exact h
  · rw [onWorker_of_some hw]
    exact Agrees.move h (tally_update hw) (hm w hw)

theorem StatsAgree.updateHeartbeat (h : s.StatsAgree) (hs : s.WellFormed) (now : Time) :
    (s.updateHeartbeat i now).StatsAgree := by
  refine h.onWorker fun w hw => ?_
  have hlt := h.total_lt hs
  have hact : s.stats.activeWorkers.val = _ := h.active
  by_cases hd : w.state = .dead
  · have hpos := Agrees.dead_pos h (mem_of_lookup hw) hd
    simp only [hd, if_true]
    exact moves_revive hpos (by omega) (by omega)
  · simp only [hd, if_false]
    exact moves_refl _ _

theorem StatsAgree.markWorkerBusy (h : s.StatsAgree) (hs : s.WellFormed) (n : ℕ) :
    (s.markWorkerBusy i n).StatsAgree := by
  refine h.onWorker fun w hw => ?_
  have hlt := h.total_lt hs
  by_cases hi : w.state = .idle
  · have hpos := Agrees.idle_pos h (mem_of_lookup hw) hi
    simp only [hi, if_true]
    exact moves_markBusy hpos (by omega)
  · simp only [hi, if_false]
    exact moves_refl _ _

theorem StatsAgree.markWorkerIdle (h : s.StatsAgree) (hs : s.WellFormed) :
    (s.markWorkerIdle i).StatsAgree := by
  refine h.onWorker fun w hw => ?_
  have hlt := h.total_lt hs
  by_cases hb : w.state = .busy
  · have hpos := Agrees.busy_pos h (mem_of_lookup hw) hb
    simp only [hb, if_true]
    exact moves_becomeIdle hpos (by omega)
  · simp only [hb, if_false]
    exact moves_refl _ _

theorem StatsAgree.trackTask (h : s.StatsAgree) (taskId : UInt64) (submitted started : Time) :
    (s.trackTask taskId i submitted started).2.StatsAgree := by
  rcases Nat.lt_or_ge s.tasks.length s.maxTasks with hroom | hfull
  · rw [trackTask_of_room hroom]
    exact ⟨h.idle, h.busy, h.dead, h.active, h.idle_unwrapped, h.busy_unwrapped,
      h.dead_unwrapped, h.active_unwrapped⟩
  · rw [trackTask_of_full hfull]
    exact h

theorem moves_countOutcome (status : ℤ) (a : Option WorkerState) (st : SchedulerStats) :
    Moves a a st (countOutcome status st) := by
  rw [countOutcome]
  split <;> exact ⟨rfl, rfl, rfl, rfl, rfl, rfl, rfl, rfl⟩

theorem StatsAgree.markTaskComplete (h : s.StatsAgree) (hs : s.WellFormed) (taskId : UInt64)
    (status : ℤ) : (s.markTaskComplete taskId status).2.StatsAgree := by
  rcases ht : s.task? taskId with - | task
  · rw [markTaskComplete_of_none ht]
    exact h
  · rw [markTaskComplete_of_some ht]
    -- the tracking table is no part of the agreement
    have h' : (s.withStatus taskId status).StatsAgree := h
    refine h'.onWorker fun w hw => ?_
    have hlt := h.total_lt hs
    simp only [completeEntry, completeStats]
    by_cases hb : runningAfter w = 0 ∧ w.state = .busy
    · have hpos := Agrees.busy_pos h (mem_of_lookup hw) hb.2
      have hm := moves_countOutcome status (some .busy) s.stats
      have hbusy := hm.busy
      have hidle := hm.idle
      rw [if_pos hb, if_pos hb, hb.2]
      exact hm.trans (moves_becomeIdle (by omega) (by omega))
    · rw [if_neg hb, if_neg hb]
      exact moves_countOutcome status _ _

/-! ### Timeouts -/

@[simp] theorem leaveActive_deadWorkers (q : WorkerState) (st : SchedulerStats) :
    (leaveActive q st).deadWorkers = st.deadWorkers := by
  cases q <;> simp only [leaveActive]

theorem tally_middle {pre : List WorkerInfo} {w' : WorkerInfo} (q : WorkerState) :
    tally q (pre ++ w' :: l) + mark (some w.state) q =
      tally q (pre ++ w :: l) + mark (some w'.state) q := by
  simp only [tally, mark, List.countP_append, List.countP_cons, decide_eq_true_eq,
    Option.some.injEq]
  omega

/-- One round of the timeout loop, at any position of the table. -/
theorem agrees_checkTimeout {pre : List WorkerInfo} (timeout : ℤ) (now : Time)
    (h : Agrees (pre ++ w :: l) st) (hlen : (pre ++ w :: l).length < 2 ^ 64)
    (hw : w.state ≠ .unknown) :
    Agrees (pre ++ (checkTimeout timeout now w st).1 :: l) (checkTimeout timeout now w st).2.1 := by
  rw [checkTimeout]
  split
  · next hdies =>
    refine h.move (tally_middle (w := w)) ?_
    have hmem : w ∈ pre ++ w :: l := by simp
    have htot := h.total_le
    have hact := h.active
    -- The worker that dies is counted elsewhere so far, so the dead ones are not all.
    have hdead : (leaveActive w.state st).deadWorkers.val + 1 < 2 ^ 64 := by
      rw [leaveActive_deadWorkers]
      have hcount := tally_add_le_length (pre ++ w :: l)
      have hpos := tally_pos hmem
      have hd := h.dead
      cases hq : w.state with
      | unknown => exact absurd hq hw
      | dead => exact absurd hq hdies.1
      | idle => rw [hq] at hpos; omega
      | busy => rw [hq] at hpos; omega
    exact (moves_leaveActive hdies.1 hw (h.idle_pos hmem) (h.busy_pos hmem) hact).trans
      (moves_dead hdead)
  · exact h

/-- **The timeout loop keeps the agreement.** The induction is on the part of the table still to be
visited, `pre` being the part already behind. -/
theorem agrees_checkTimeoutsLoop {timeout : ℤ} {now : Time} (rest pre : List WorkerInfo)
    (st : SchedulerStats) (h : Agrees (pre ++ rest) st) (hlen : (pre ++ rest).length < 2 ^ 64)
    (hstate : ∀ w ∈ rest, w.state ≠ .unknown) :
    Agrees (pre ++ (checkTimeoutsLoop timeout now rest st).1)
      (checkTimeoutsLoop timeout now rest st).2.1 := by
  induction rest generalizing pre st with
  | nil => exact h
  | cons w rest ih =>
    have hstep := agrees_checkTimeout timeout now h hlen (hstate w List.mem_cons_self)
    rw [List.append_cons] at hstep
    have hrest := ih (pre ++ [(checkTimeout timeout now w st).1]) _ hstep
      (by simpa using hlen) fun v hv => hstate v (List.mem_cons_of_mem w hv)
    rw [← List.append_cons] at hrest
    exact hrest

theorem StatsAgree.checkTimeouts (h : s.StatsAgree) (hs : s.WellFormed) (now : Time) :
    (s.checkTimeouts now).2.StatsAgree :=
  agrees_checkTimeoutsLoop s.workers [] s.stats h
    (lt_of_le_of_lt hs.length_le s.maxWorkers.toNat_lt) hs.state_ne_unknown

/-! ### The two calls that do not match -/

/-- The calls that keep the statistics in agreement. A registration must not hit a worker that is
busy or dead (a full table refuses it before the search), and a dead worker must not be
unregistered. -/
def KeepsStats (s : Scheduler) : Call → Prop
  | .registerWorker info _ _ =>
    s.workers.length < s.maxWorkers.toNat →
      ∀ w, s.worker? info.workerId = some w → w.state = .idle
  | .unregisterWorker i => ∀ w, s.worker? i = some w → w.state ≠ .dead
  | _ => True

theorem statsAgree_registerWorker_of_new (h : s.StatsAgree) {info : WorkerInfo}
    {now registeredAt : Time} (hroom : s.workers.length < s.maxWorkers.toNat)
    (hw : s.worker? info.workerId = none) :
    (s.registerWorker info now registeredAt).2.StatsAgree := by
  rw [registerWorker_of_new hroom hw]
  have htot := Agrees.total_le h
  have hact : s.stats.activeWorkers.val = _ := h.active
  have hmax := s.maxWorkers.toNat_lt
  refine Agrees.move h (a := none) (b := some .idle) (fun q => ?_)
    (moves_enter (by omega) (by omega))
  simp [tally, mark, List.countP_append]

/-- Re-registration writes an idle entry and leaves the statistics alone, so it keeps the agreement
only where the entry was idle already. -/
theorem statsAgree_registerWorker_of_known_iff (h : s.StatsAgree) {info : WorkerInfo}
    {now registeredAt : Time} (hroom : s.workers.length < s.maxWorkers.toNat)
    (hw : s.worker? info.workerId = some w) :
    (s.registerWorker info now registeredAt).2.StatsAgree ↔ w.state = .idle := by
  rw [registerWorker_of_known hroom hw, onWorker_of_some hw]
  have hmove := tally_update
    (f := fun _ => { info with state := .idle, lastHeartbeat := now }) hw
  constructor
  · intro h'
    by_contra hne
    have hidle := hmove .idle
    rw [← show s.stats.idleWorkers.val = tally .idle s.workers from h.idle] at hidle
    rw [← show s.stats.idleWorkers.val = _ from h'.idle] at hidle
    simp [mark, hne] at hidle
  · intro hidle
    rw [hidle] at hmove
    exact Agrees.move h hmove (moves_refl _ _)

/-- Removing a worker leaves `dead_workers` alone, so it keeps the agreement only where the worker
was not dead. -/
theorem statsAgree_unregisterWorker_iff (h : s.StatsAgree) (hs : s.WellFormed)
    (hw : s.worker? i = some w) :
    (s.unregisterWorker i).2.StatsAgree ↔ w.state ≠ .dead := by
  rw [unregisterWorker_of_some hw]
  have hmem : w ∈ s.workers := mem_of_lookup hw
  have hmove : ∀ q, tally q (swapRemove WorkerInfo.workerId i s.workers) + mark (some w.state) q =
      tally q s.workers + mark none q := fun q => by
    simpa [tally, mark] using countP_swapRemove (q := fun v => decide (v.state = q)) hw
  constructor
  · intro h' hdead
    have hd := hmove .dead
    have e := h.dead
    have e' := h'.dead
    simp [mark, hdead] at hd e'
    omega
  · intro hdead
    simp only [hdead, ne_eq, not_false_eq_true, if_true]
    exact Agrees.move h hmove (moves_leaveActive hdead (hs.state_ne_unknown w hmem)
      (Agrees.idle_pos h hmem) (Agrees.busy_pos h hmem) h.active)

/-- **One call, exactly.** From a state in agreement, the next state is in agreement exactly when
the call is one that keeps it. -/
theorem statsAgree_call_iff (h : s.StatsAgree) (hs : s.WellFormed) (c : Call) :
    (s.call c).StatsAgree ↔ s.KeepsStats c := by
  cases c with
  | registerWorker info now registeredAt =>
    rcases Nat.lt_or_ge s.workers.length s.maxWorkers.toNat with hroom | hfull
    · rcases hw : s.worker? info.workerId with - | w
      · refine iff_of_true (statsAgree_registerWorker_of_new h hroom hw) fun _ w hw' => ?_
        rw [hw] at hw'
        exact absurd hw' (by simp)
      · refine (statsAgree_registerWorker_of_known_iff h hroom hw).trans ?_
        simp [KeepsStats, hroom, hw]
    · refine iff_of_true ?_ fun hroom => absurd hfull (Nat.not_le.2 hroom)
      rw [call, registerWorker_of_full hfull]
      exact h
  | unregisterWorker i =>
    rcases hw : s.worker? i with - | w
    · refine iff_of_true ?_ fun w hw' => ?_
      · rw [call, unregisterWorker_of_none hw]
        exact h
      · rw [hw] at hw'
        exact absurd hw' (by simp)
    · refine (statsAgree_unregisterWorker_iff h hs hw).trans ?_
      simp [KeepsStats, hw]
  | updateHeartbeat i now => exact iff_of_true (h.updateHeartbeat hs now) trivial
  | markWorkerBusy i n => exact iff_of_true (h.markWorkerBusy hs n) trivial
  | markWorkerIdle i => exact iff_of_true (h.markWorkerIdle hs) trivial
  | trackTask taskId i submitted started =>
    exact iff_of_true (h.trackTask taskId submitted started) trivial
  | markTaskComplete taskId status =>
    exact iff_of_true (h.markTaskComplete hs taskId status) trivial
  | checkTimeouts now => exact iff_of_true (h.checkTimeouts hs now) trivial

/-- **Whole histories, exactly.** From a fresh scheduler, the statistics agree with the worker table
after every call of a history, and no worker counter ever wraps, exactly when no call of it
re-registers a busy or dead worker or unregisters a dead one. -/
theorem statsAgree_along_iff (config : SchedulerConfig) (calls : List Call) :
    Along step StatsAgree (create config) calls ↔ Meets step KeepsStats (create config) calls := by
  refine along_iff_meets (I := WellFormed) WellFormed.step ?_ (wellFormed_create config)
    (statsAgree_create config)
  intro s c t hs h ht
  obtain rfl := Option.some.inj ht
  exact statsAgree_call_iff h hs c

/-- Worker 7 is given a task, registers again while busy, and is given another: the table then has
an idle worker that `idle_workers` does not count, and counting it out takes `idle_workers` below
zero. -/
theorem statsAgree_fails_on_reregistration :
    ¬ Along step StatsAgree (create { maxWorkers := 256, heartbeatTimeoutSecs := 30 })
        [.registerWorker { workerId := 7 } 0 0, .markWorkerBusy 7 1,
          .registerWorker { workerId := 7 } 1 1] ∧
      ([Call.registerWorker { workerId := 7 } 0 0, .markWorkerBusy 7 1,
          .registerWorker { workerId := 7 } 1 1, .markWorkerBusy 7 1].foldl call
        (create { maxWorkers := 256, heartbeatTimeoutSecs := 30 })).stats.idleWorkers =
        { val := 2 ^ 64 - 1, wrapped := true } := by
  constructor
  · rintro ⟨-, -, -, h⟩
    exact absurd h.idle (by decide)
  · decide

end DistributedComputing.Scheduler
