import DistributedComputing.Worker.Cluster

/-!
# Shutting a cluster down

What `shutdown_mpi_workers` and the shutdown message are worth, over any run of the processes of
`Worker.Cluster`.

* **Nothing that was handed over is left undone** by a rank that the message stopped
  (`shutdown_drains`). The head sends the message to a rank behind all of its tasks, and nothing
  after it, so a probe that finds it has nothing before it (`Channels`). A rank that a signal
  stopped may leave tasks behind.
* **The books at the end** (`shutdown_ledger`). What is still in the head's queue when it leaves its
  loop, and the results still on the way to it, are lost: `task_queue_destroy` frees the queue, and
  nobody receives from the ranks any more.
* **It ends** (`shutdown_terminates`), if no `MPI_Send` waits for its receiver (`stepWhen`). Once
  the head has left its loop, the steps that are left are bounded by what is in flight, probes that
  find nothing and signals apart; and as long as some process has not ended, one of them can be
  taken.
-/

namespace DistributedComputing

open KeyedTable StepRun Mailbox

namespace Worker

/-! ### The books of a worker over a run -/

variable {w w' : Worker} {log log' : List WorkerEvent} {labels : List WorkerLabel}

/-- **The books over a run**: what a worker has received it holds, has executed or has refused; and
of what was executed it holds the results, has sent them or has lost them. -/
theorem books_of_run (h : Run (logged Worker.step) (w, log) labels (w', log'))
    (hres : w.ReserveInv) :
    (∀ t, w'.heldTasks.count t + (executedTasks log').count t + (locallyRefused log').count t =
      w.heldTasks.count t + (executedTasks log).count t + (locallyRefused log).count t +
        (labels.flatMap WorkerLabel.received).count t) ∧
    ∀ r, w'.heldResults.count r + ((sentMessages log').flatMap Incoming.results).count r +
        (lostResults log').count r + ((executedTasks log).map executeTask).count r =
      w.heldResults.count r + ((sentMessages log).flatMap Incoming.results).count r +
        (lostResults log).count r + ((executedTasks log').map executeTask).count r := by
  generalize hs : (w, log) = s at h
  generalize hs' : (w', log') = s' at h
  induction h generalizing w log with
  | nil =>
    cases hs
    cases hs'
    exact ⟨fun _ => rfl, fun _ => rfl⟩
  | cons ha _ ih =>
    cases hs
    obtain ⟨es, hstep, hlog⟩ := logged_eq_some_iff.1 ha
    have ht := transition_of_step hstep
    obtain ⟨htasks, hresults⟩ := ih (hres.step ht) rfl hs'
    constructor
    · intro t
      have hrest := htasks t
      have hone := hres.step_tasks ht t
      simp only [hlog, executedTasks, locallyRefused, List.flatMap_append, List.count_append,
        List.flatMap_cons] at hrest hone ⊢
      omega
    · intro r
      have hrest := hresults r
      have hone := hres.step_results ht r
      simp only [hlog, executedTasks, sentMessages, lostResults, List.flatMap_append,
        List.map_append, List.count_append] at hrest hone ⊢
      omega

/-- The next rank, and the ranks that messages are on the way to, exist. -/
structure Addressed (mpiSize : ℕ) (w : Worker) : Prop where
  size : w.mpiSize = mpiSize
  nextWorker : 1 ≤ w.nextWorker ∧ w.nextWorker < mpiSize
  messages : ∀ m ∈ w.toRanks, 1 ≤ m.1 ∧ m.1 < mpiSize

theorem Addressed.step {mpiSize : ℕ} {l : WorkerLabel} {es : List WorkerEvent}
    (h : w.Addressed mpiSize) (hs : Transition w l w' es) : w'.Addressed mpiSize := by
  obtain ⟨hsize, hnext, hmessages⟩ := h
  cases hs with
  | processRank =>
    have hmod : w.nextWorker % (w.mpiSize - 1) < w.mpiSize - 1 := Nat.mod_lt _ (by omega)
    refine ⟨hsize, ⟨Nat.le_add_left 1 _, by dsimp only; omega⟩, fun m hm => ?_⟩
    rcases List.mem_append.1 hm with hm | hm
    · exact hmessages m hm
    · rw [List.mem_singleton.1 hm]
      exact hnext
  | rank hmsg =>
    refine ⟨hsize, hnext, fun m hm => hmessages m ?_⟩
    exact (deliver_perm hmsg).mem_iff.2 (List.mem_cons_of_mem _ hm)
  | _ =>
    exact ⟨hsize, hnext, hmessages⟩

theorem addressed_of_run {id : UInt32} {mpiSize : ℕ} (hsize : 2 ≤ mpiSize)
    (h : Run (logged Worker.step) (create id mpiSize, []) labels (w, log)) :
    w.Addressed mpiSize := by
  refine h.invariant (I := fun s => s.1.Addressed mpiSize) (fun hs hstep => ?_)
    ⟨rfl, ⟨le_rfl, hsize⟩, List.forall_mem_nil _⟩
  obtain ⟨es, hone, -⟩ := logged_eq_some_iff.1 hstep
  exact hs.step (transition_of_step hone)

end Worker

namespace Cluster

variable {c c' : Cluster} {l : ClusterLabel} {es log log' : List ClusterEvent} {id : UInt32}
  {mpiSize : ℕ} {labels labels' : List ClusterLabel}

/-! ### The shutdown message is the last -/

/-- The ranks below this one have been sent the shutdown message. -/
def told (c : Cluster) : ℕ :=
  match c.phase with
  | .loop => 1
  | .shutdown i => i
  | .finished => c.head.mpiSize

/-- The shutdown messages sent to a rank. -/
def shutdownsTo (c : Cluster) (r : ℕ) : List RankMessage :=
  if 1 ≤ r ∧ r < c.told then [.shutdown] else []

/-- The rank has found the shutdown message. -/
def StoppedByMessage (c : Cluster) (r : ℕ) : Prop :=
  (c.rank? r).map Rank.pc = some (.stopped true)

/-- What is on the way to a rank: tasks, and behind them the shutdown message once it is sent. And
there are no tasks on the way to a rank that the message has stopped. -/
structure Channels (c : Cluster) : Prop where
  bounds : ∀ i, c.phase = .shutdown i → 1 ≤ i ∧ i ≤ c.head.mpiSize
  box : ∀ r, inbox r c.toRanks = (c.tasksTo r).map .task ++ c.shutdownsTo r
  stopped : ∀ r, c.StoppedByMessage r → inbox r c.toRanks = [.shutdown]

theorem channels_create (id : UInt32) (mpiSize : ℕ) : (create id mpiSize).Channels where
  bounds := fun _ h => by cases h
  box := by
    intro r
    have hnone : ¬ (1 ≤ r ∧ r < (create id mpiSize).told) := by
      simp only [told, create]
      omega
    rw [shutdownsTo, if_neg hnone]
    rfl
  stopped := by
    intro r h
    obtain ⟨k, hr, hpc⟩ := Option.map_eq_some_iff.1 h
    obtain ⟨j, -, rfl⟩ := List.mem_map.1 (mem_of_lookup hr)
    cases hpc

theorem map_task_ne (ts : List Task) (ms : List RankMessage) :
    ts.map RankMessage.task ≠ .shutdown :: ms := by
  intro h
  cases ts with
  | nil => cases h
  | cons t ts => cases h

/-- While the head is in its loop, no rank has been stopped by a message. -/
theorem Channels.not_stopped (h : c.Channels) (hphase : c.phase = .loop) (r : ℕ) :
    ¬ c.StoppedByMessage r := by
  intro hr
  have hbox := (h.box r).symm.trans (h.stopped r hr)
  rw [shutdownsTo, told, hphase, if_neg (by dsimp only; omega), List.append_nil] at hbox
  exact map_task_ne _ _ hbox

/-- The messages on the way stay as they are, and no other rank is stopped by a message. -/
theorem Channels.of_toRanks_eq (h : c.Channels) (hbox : c'.toRanks = c.toRanks)
    (hbounds : ∀ i, c'.phase = .shutdown i → 1 ≤ i ∧ i ≤ c'.head.mpiSize)
    (htold : ∀ r, (1 ≤ r ∧ r < c'.told) ↔ 1 ≤ r ∧ r < c.told)
    (hstopped : ∀ r, c'.StoppedByMessage r →
      c.StoppedByMessage r ∨ inbox r c.toRanks = [.shutdown]) : c'.Channels where
  bounds := hbounds
  box := by
    intro r
    simp only [tasksTo, shutdownsTo, hbox, htold]
    exact h.box r
  stopped := by
    intro r hr
    rw [hbox]
    rcases hstopped r hr with hr | hlast
    · exact h.stopped r hr
    · exact hlast

theorem stoppedByMessage_setPc {r j : ℕ} {pc : RankPc} (hc : c'.ranks = c.setPc r pc)
    (hj : c'.StoppedByMessage j) : c.StoppedByMessage j ∨ j = r ∧ pc = .stopped true := by
  by_cases hjr : j = r
  · obtain ⟨k, hk, hpc⟩ := Option.map_eq_some_iff.1 hj
    rw [rank?_update hc fun _ => rfl, if_pos hjr] at hk
    obtain ⟨k₀, -, rfl⟩ := Option.map_eq_some_iff.1 hk
    exact .inr ⟨hjr, hpc⟩
  · rw [StoppedByMessage, rank?_setPc_of_ne hc hjr] at hj
    exact .inl hj

theorem Channels.inbox_of_shutdown (h : c.Channels) {r : ℕ} {ms : List RankMessage}
    (hfirst : inbox r c.toRanks = .shutdown :: ms) : inbox r c.toRanks = [.shutdown] := by
  have hbox := h.box r
  rw [hfirst] at hbox ⊢
  rcases htasks : c.tasksTo r with - | ⟨t, ts⟩
  · rw [htasks] at hbox
    rw [shutdownsTo] at hbox
    split at hbox
    · exact hbox
    · cases hbox
  · rw [htasks] at hbox
    cases hbox

theorem Channels.handed (h : c.Channels) (hloop : c.phase = .loop) {ms : List (ℕ × Task)}
    (hphase : c'.phase = c.phase) (hranks : c'.ranks = c.ranks)
    (hbox : c'.toRanks = c.toRanks ++ ms.map fun m => (m.1, .task m.2)) : c'.Channels where
  bounds := by
    intro i hi
    cases hi.symm.trans (hphase.trans hloop)
  box := by
    intro r
    have hnone : ¬ (1 ≤ r ∧ r < 1) := by omega
    have hold := h.box r
    simp only [shutdownsTo, told, hphase, hloop, if_neg hnone, List.append_nil] at hold ⊢
    rw [tasksTo, hbox, tasksTo_append, inbox_append, inbox_map, hold, List.map_append]
  stopped := by
    intro r hr
    rw [StoppedByMessage, rank?, hranks] at hr
    exact absurd hr (h.not_stopped hloop r)

theorem Channels.sent (h : c.Channels) {i : ℕ} (hi : c.phase = .shutdown i)
    (hlt : i < c.head.mpiSize) (hphase : c'.phase = .shutdown (i + 1)) (hranks : c'.ranks = c.ranks)
    (hsize : c'.head.mpiSize = c.head.mpiSize) (hbox : c'.toRanks = c.toRanks ++ [(i, .shutdown)]) :
    c'.Channels := by
  have hpos := (h.bounds i hi).1
  have hself : inbox i [(i, RankMessage.shutdown)] = [.shutdown] := by simp [inbox]
  have hother : ∀ r, r ≠ i → inbox r [(i, RankMessage.shutdown)] = [] := by
    intro r hr
    simp [inbox, hr.symm]
  have hold : ∀ r, inbox r c.toRanks =
      (c.tasksTo r).map .task ++ if 1 ≤ r ∧ r < i then [.shutdown] else [] := by
    intro r
    rw [h.box r, shutdownsTo, told, hi]
  have htasks : ∀ r, c'.tasksTo r = c.tasksTo r := by
    intro r
    rw [tasksTo, hbox, inbox_append, List.filterMap_append, tasksTo]
    by_cases hr : r = i
    · rw [hr, hself]
      exact List.append_nil _
    · rw [hother r hr]
      exact List.append_nil _
  refine ⟨fun j hj => ?_, fun r => ?_, fun r hr => ?_⟩
  · cases hphase.symm.trans hj
    exact ⟨Nat.le_add_left 1 i, by rw [hsize]; exact hlt⟩
  · have htold : c'.told = i + 1 := by rw [told, hphase]
    rw [htasks r, shutdownsTo, htold, hbox, inbox_append, hold r, List.append_assoc]
    by_cases hr : r = i
    · rw [hr, hself, if_neg (by omega), if_pos (by omega), List.nil_append]
    · have hiff : 1 ≤ r ∧ r < i + 1 ↔ 1 ≤ r ∧ r < i := by omega
      rw [hother r hr, List.append_nil]
      simp only [hiff]
  · rw [StoppedByMessage, rank?, hranks] at hr
    -- a rank that has stopped had its message before
    have hlast := h.stopped r hr
    have hne : r ≠ i := by
      rintro rfl
      have hnone := hold r
      rw [hlast, if_neg (by omega), List.append_nil] at hnone
      exact map_task_ne _ _ hnone.symm
    rw [hbox, inbox_append, hlast, hother r hne, List.append_nil]

theorem Channels.received (h : c.Channels) {r : ℕ} {t : Task}
    (hmsg : deliver r (.task t) c.toRanks = some c'.toRanks) (hphase : c'.phase = c.phase)
    (hsize : c'.head.mpiSize = c.head.mpiSize) (hranks : c'.ranks = c.setPc r (.execute t)) :
    c'.Channels := by
  obtain ⟨hfirst, hother⟩ := inbox_deliver hmsg
  have hsent : ∀ j, c'.shutdownsTo j = c.shutdownsTo j := by
    intro j
    rw [shutdownsTo, told, hphase, hsize]
    rfl
  refine ⟨?_, fun j => ?_, fun j hj => ?_⟩
  · rw [hphase, hsize]
    exact h.bounds
  · rw [hsent j]
    by_cases hj : j = r
    · have hbox := h.box r
      have htasks : c.tasksTo r = t :: c'.tasksTo r := by
        rw [tasksTo, hfirst]
        rfl
      rw [hfirst, htasks] at hbox
      rw [hj]
      exact (List.cons.inj hbox).2
    · rw [hother j hj, h.box j, tasksTo, tasksTo, hother j hj]
  · rcases stoppedByMessage_setPc hranks hj with hold | ⟨-, hpc⟩
    · have hlast := h.stopped j hold
      have hne : j ≠ r := by
        rintro rfl
        rw [hfirst] at hlast
        cases hlast
      rw [hother j hne, hlast]
    · cases hpc

/-- **Every step keeps the order of the messages.** -/
theorem Channels.step (h : c.Channels) (hs : Transition c l c' es) : c'.Channels := by
  cases hs with
  | head hphase => exact h.handed hphase rfl rfl rfl
  | leave hphase hpc hmode =>
    have hsize : 1 < c.head.mpiSize := by
      by_contra hle
      rw [Worker.mode, if_neg hle] at hmode
      cases hmode
    refine h.of_toRanks_eq rfl (fun i hi => ?_) (fun r => ?_) fun _ hr => .inl hr
    · cases hi
      exact ⟨le_rfl, hsize.le⟩
    · simp only [told, hphase]
  | leaveStandalone hphase hpc hmode =>
    have hsize : ¬ 1 < c.head.mpiSize := fun hlt => hmode (if_pos hlt)
    refine h.of_toRanks_eq rfl (fun i hi => by cases hi) (fun r => ?_) fun _ hr => .inl hr
    simp only [told, hphase]
    omega
  | shutdown hphase hi => exact h.sent hphase hi rfl rfl rfl rfl
  | finish hphase hi =>
    have hle := (h.bounds _ hphase).2
    refine h.of_toRanks_eq rfl (fun i hi => by cases hi) (fun r => ?_) fun _ hr => .inl hr
    simp only [told, hphase]
    omega
  | probeNothing => exact h
  | probeShutdown _ _ hmsg =>
    have hlast := h.inbox_of_shutdown (inbox_deliver hmsg).1
    refine h.of_toRanks_eq rfl h.bounds (fun _ => Iff.rfl) fun j hj => ?_
    rcases stoppedByMessage_setPc rfl hj with hj | ⟨rfl, -⟩
    · exact .inl hj
    · exact .inr hlast
  | probeTask _ _ hmsg => exact h.received hmsg rfl rfl rfl
  | send | exit =>
    refine h.of_toRanks_eq rfl h.bounds (fun _ => Iff.rfl) fun j hj => .inl ?_
    rcases stoppedByMessage_setPc rfl hj with hj | ⟨-, hpc⟩
    · exact hj
    · cases hpc
  | signalHead => exact h.of_toRanks_eq rfl h.bounds (fun _ => Iff.rfl) fun _ hr => .inl hr
  | signalRank =>
    refine h.of_toRanks_eq rfl h.bounds (fun _ => Iff.rfl) fun r hr => .inl ?_
    exact (pc_signalRank r rfl).symm.trans hr

/-! ### What a run keeps -/

/-- The processes are laid out as they were, their messages are in order, and the channels are first
in, first out since the start. -/
structure Reached (s : Cluster × List ClusterEvent) : Prop where
  layout : s.1.Layout
  channels : s.1.Channels
  fifo : FifoChannels.Fifo (fun _ => []) (s.2.flatMap ClusterEvent.onChannel) s.1.unexecuted

theorem reached_create (id : UInt32) (mpiSize : ℕ) : Reached (create id mpiSize, []) where
  layout := (refines_create id mpiSize).toLayout
  channels := channels_create id mpiSize
  fifo := by
    intro r
    exact (refines_create id mpiSize).tasks r

theorem Reached.step {s s' : Cluster × List ClusterEvent} (h : Reached s)
    (hs : logged Cluster.step s l = some s') : Reached s' := by
  obtain ⟨es, hstep, hlog⟩ := logged_eq_some_iff.1 hs
  have ht := transition_of_step hstep
  refine ⟨h.layout.step ht, h.channels.step ht, ?_⟩
  rw [hlog, List.flatMap_append]
  exact h.fifo.append (fifo_step ht)

theorem reached_of_run {s : Cluster × List ClusterEvent}
    (h : Run (logged Cluster.step) (create id mpiSize, []) labels s) : Reached s :=
  h.invariant Reached.step (reached_create id mpiSize)

/-- Nothing is left for a rank that the message has stopped. -/
theorem Channels.unexecuted_eq_nil (h : c.Channels) {r : ℕ} (hr : c.StoppedByMessage r) :
    c.unexecuted r = [] := by
  rw [unexecuted, executing, hr, tasksTo, h.stopped r hr]
  rfl

/-- **A rank stopped by the shutdown message has done everything.** Over any run of the processes,
what each rank has executed is a beginning of what the head has handed to it, in this order; and it
is all of it if the rank has been stopped by the shutdown message. -/
theorem shutdown_drains (h : Run (logged Cluster.step) (create id mpiSize, []) labels (c, log)) :
    FifoChannels.Delivered c.StoppedByMessage (log.flatMap ClusterEvent.onChannel) := by
  have hreach := reached_of_run h
  exact hreach.fifo.delivered fun r hr => hreach.channels.unexecuted_eq_nil hr

/-- Rank 1 finds the message after it has answered its task. -/
theorem shutdown_drains_oneTask :
    ∃ c log, Run (logged Cluster.step) (create 3 2, []) oneTask (c, log) ∧ c.StoppedByMessage 1 ∧
      FifoChannels.left 1 (log.flatMap ClusterEvent.onChannel) =
        FifoChannels.entered 1 (log.flatMap ClusterEvent.onChannel) := by
  obtain ⟨⟨c, log⟩, hrun, hstopped⟩ :
      ∃ s, Run (logged Cluster.step) (create 3 2, []) oneTask s ∧
        (s.1.rank? 1).map Rank.pc = some (.stopped true) :=
    ⟨_, run_get (by decide), by decide⟩
  exact ⟨c, log, hrun, hstopped, (shutdown_drains hrun 1).2 hstopped⟩

/-! ### The books at the end -/

/-- **The books of a cluster that was shut down.** Over any run at the end of which every rank has
been stopped by the shutdown message: each task that the head received was executed, was refused by
the head's queue, or is still in that queue; and the result of each task that was executed was sent
to the coordinator, was lost in a failed send, or is still on its way from a rank to the head. -/
theorem shutdown_ledger (hsize : 2 ≤ mpiSize)
    (h : Run (logged Cluster.step) (create id mpiSize, []) labels (c, log))
    (hend : ∀ r, 1 ≤ r → r < mpiSize → c.StoppedByMessage r) :
    (∀ t, (labels.flatMap ClusterLabel.received).count t =
      (executedTasks (log.flatMap ClusterEvent.asWorker)).count t +
        (locallyRefused (log.flatMap ClusterEvent.asWorker)).count t +
        c.head.queue.tasks.count t) ∧
    ∀ r, ((executedTasks (log.flatMap ClusterEvent.asWorker)).map executeTask).count r =
      ((sentMessages (log.flatMap ClusterEvent.asWorker)).flatMap Incoming.results).count r +
        (lostResults (log.flatMap ClusterEvent.asWorker)).count r +
        (c.head.fromRanks.map Prod.snd).count r := by
  have hreach := reached_of_run h
  obtain ⟨workerLabels, w, hrun, hreceived, href⟩ :=
    exists_run_of_follows Refines.follows h (refines_create id mpiSize)
  have hempty : w.toRanks = [] := by
    refine List.eq_nil_iff_forall_not_mem.2 fun m hm => ?_
    -- it would be for a rank that has done everything
    obtain ⟨hpos, hlt⟩ := (Worker.addressed_of_run hsize hrun).messages m hm
    have hnil := (href.tasks m.1).trans (hreach.channels.unexecuted_eq_nil (hend m.1 hpos hlt))
    exact List.ne_nil_of_mem (mem_inbox hm) hnil
  have hpc : c.head.pc = .heartbeat := by
    refine hreach.layout.left fun hloop => ?_
    exact hreach.channels.not_stopped hloop 1 (hend 1 le_rfl hsize)
  have hpcw : w.pc = .heartbeat := (congrArg Worker.pc href.head).trans hpc
  have htasks : w.heldTasks = c.head.queue.tasks := by
    rw [Worker.heldTasks, hempty, hpcw, congrArg Worker.queue href.head, List.map_nil,
      List.append_nil]
    exact List.append_nil _
  have hresults : w.heldResults = c.head.fromRanks.map Prod.snd := by
    rw [Worker.heldResults, hpcw, congrArg Worker.fromRanks href.head]
    rfl
  obtain ⟨hbooksTasks, hbooksResults⟩ :=
    Worker.books_of_run hrun (Worker.reserveInv_create id mpiSize)
  have hnone : ∀ r,
      ((executedTasks ([].flatMap ClusterEvent.asWorker)).map executeTask).count r = 0 :=
    fun _ => rfl
  constructor
  · intro t
    have hbooks := (hbooksTasks t).trans (Nat.zero_add _)
    rw [hreceived, htasks] at hbooks
    dsimp only at hbooks
    omega
  · intro r
    have hbooks := (hbooksResults r).trans (Nat.zero_add _)
    rw [hresults, hnone] at hbooks
    dsimp only at hbooks
    omega

/-- The task of `oneTask` was executed, and its result is still on the way to a head that does not
receive any more. -/
theorem shutdown_ledger_oneTask :
    ∃ c log, Run (logged Cluster.step) (create 3 2, []) oneTask (c, log) ∧
      ((executedTasks (log.flatMap ClusterEvent.asWorker)).map executeTask).count ⟨7, 0⟩ =
        ((sentMessages (log.flatMap ClusterEvent.asWorker)).flatMap Incoming.results).count ⟨7, 0⟩ +
          (lostResults (log.flatMap ClusterEvent.asWorker)).count ⟨7, 0⟩ + 1 := by
  obtain ⟨⟨c, log⟩, hrun, hstopped, hleft⟩ :
      ∃ s, Run (logged Cluster.step) (create 3 2, []) oneTask s ∧
        (s.1.rank? 1).map Rank.pc = some (.stopped true) ∧
        (s.1.head.fromRanks.map Prod.snd).count ⟨7, 0⟩ = 1 :=
    ⟨_, run_get (by decide), by decide, by decide⟩
  have hend : ∀ r, 1 ≤ r → r < 2 → c.StoppedByMessage r := by
    intro r hr hlt
    obtain rfl : r = 1 := by omega
    exact hstopped
  exact ⟨c, log, hrun, ((shutdown_ledger le_rfl hrun hend).2 ⟨7, 0⟩).trans (by rw [hleft])⟩

/-! ### It ends -/

/-- The steps that get the shutdown on: all but a probe that finds nothing and a signal. -/
def busy : ClusterLabel → Bool
  | .probe _ none => false
  | .signal _ => false
  | _ => true

/-- The rank has not ended. -/
def alive (k : Rank) : Bool :=
  match k.pc with
  | .stopped _ => false
  | _ => true

/-- The rank has a task to answer. -/
def answers (k : Rank) : Bool :=
  match k.pc with
  | .execute _ => true
  | _ => false

/-- The iterations left in `shutdown_mpi_workers`, with the one that ends the loop. -/
def headWork (c : Cluster) : ℕ :=
  match c.phase with
  | .loop => 0
  | .shutdown i => c.head.mpiSize - i + 1
  | .finished => 0

/-- What is left to do once the head has left its loop. A task on the way costs a receipt and an
answer. -/
def work (c : Cluster) : ℕ :=
  c.headWork + 2 * c.toRanks.countP (fun m => m.2 ≠ .shutdown) + c.ranks.countP alive +
    c.ranks.countP answers

/-- All processes have ended. -/
def Finished (c : Cluster) : Prop := c.phase = .finished ∧ ∀ k ∈ c.ranks, alive k = false

/-- The head does not come back to its loop. -/
theorem phase_ne_loop (h : c.phase ≠ .loop) (hs : Transition c l c' es) : c'.phase ≠ .loop := by
  cases hs with
  | head hphase => exact absurd hphase h
  | leave | leaveStandalone | shutdown | finish => simp
  | _ => exact h

/-- What a rank itself has left to do. -/
def rankWork : RankPc → ℕ
  | .probe => 1
  | .execute _ => 2
  | .stopped _ => 0

/-- A rank moves on, which may take `n` tasks off the wire. -/
theorem work_setPc {r : ℕ} (n : ℕ) {k : Rank} {pc : RankPc} (hr : c.rank? r = some k)
    (hless : rankWork pc < 2 * n + rankWork k.pc) (hranks : c'.ranks = c.setPc r pc)
    (hhead : c'.headWork = c.headWork)
    (hbox : c.toRanks.countP (fun m => m.2 ≠ .shutdown) =
      c'.toRanks.countP (fun m => m.2 ≠ .shutdown) + n) : 1 + c'.work ≤ c.work := by
  have hweight : ∀ k : Rank, rankWork k.pc =
      (if alive k then 1 else 0) + if answers k then 1 else 0 := by
    intro k
    rw [alive, answers]
    cases k.pc <;> rfl
  have halive := countP_update (q := alive) (f := fun k : Rank => { k with pc }) hr
  have hanswers := countP_update (q := answers) (f := fun k : Rank => { k with pc }) hr
  have hk := hweight k
  have hpc := hweight { k with pc }
  dsimp only at hpc
  rw [work, work, hranks, setPc, hhead]
  omega

theorem countP_signal {p : ℕ} {q : Rank → Bool} (hq : ∀ k, q { k with running := false } = q k) :
    (update Rank.rank p (fun k => { k with running := false }) c.ranks).countP q =
      c.ranks.countP q := by
  rcases hp : lookup Rank.rank p c.ranks with - | k
  · rw [update_of_lookup_eq_none hp]
  · have hcount := countP_update (q := q) (f := fun k : Rank => { k with running := false }) hp
    rw [hq] at hcount
    omega

/-- **Every busy step lowers what is left to do**, and none adds to it. -/
theorem work_of_transition (h : c.phase ≠ .loop) (hs : Transition c l c' es) :
    (if busy l then 1 else 0) + c'.work ≤ c.work := by
  cases hs with
  | head hphase | leave hphase | leaveStandalone hphase => exact absurd hphase h
  | @shutdown i hphase hi =>
    have hnone : [(i, RankMessage.shutdown)].countP (fun m => m.2 ≠ .shutdown) = 0 := by simp
    simp only [busy, work, headWork, hphase, List.countP_append, hnone, if_true]
    omega
  | finish hphase =>
    simp only [busy, work, headWork, hphase, if_true]
    omega
  | probeNothing | signalHead => exact Nat.le_of_eq (Nat.zero_add _)
  | probeShutdown hr hpc | exit hr hpc | send hr hpc =>
    refine work_setPc 0 hr ?_ rfl rfl rfl
    rw [hpc]
    exact Nat.lt_add_one _
  | @probeTask r t rest k hr hpc hmsg =>
    have hbox : c.toRanks.countP (fun m => m.2 ≠ .shutdown) =
        rest.countP (fun m => m.2 ≠ .shutdown) + 1 := by
      rw [(deliver_perm hmsg).countP_eq, List.countP_cons_of_pos (by simp)]
    refine work_setPc 1 hr ?_ rfl rfl hbox
    rw [hpc]
    exact Nat.lt_add_one _
  | @signalRank p =>
    refine Nat.le_of_eq ((Nat.zero_add _).trans ?_)
    rw [work, work]
    dsimp only
    rw [countP_signal fun _ => rfl, countP_signal fun _ => rfl]
    rfl

theorem isSome_probe {r : ℕ} {m : RankMessage} {ms : List RankMessage}
    (hr : c.rank? r = some ⟨r, true, .probe⟩) (hbox : inbox r c.toRanks = m :: ms) :
    (c.step (.probe r (some m))).isSome := by
  obtain ⟨rest, hmsg⟩ := exists_deliver hbox
  rw [step, hr]
  cases m <;>
  · dsimp only [probeStep]
    rw [hmsg]
    rfl

/-- **As long as a process has not ended, a busy step can be taken.** -/
theorem Channels.progress (h : c.Channels) (hlayout : c.Layout) (hleft : c.phase ≠ .loop) :
    c.Finished ∨ ∃ l, busy l = true ∧ (c.step l).isSome := by
  rcases hphase : c.phase with - | i | -
  · exact absurd hphase hleft
  · refine .inr ⟨.shutdown, rfl, ?_⟩
    rw [Cluster.step, hphase]
    rfl
  by_cases hall : ∀ k ∈ c.ranks, alive k = false
  · exact .inl ⟨hphase, hall⟩
  right
  simp only [not_forall] at hall
  obtain ⟨⟨r, running, pc⟩, hk, halive⟩ := hall
  have hr : c.rank? r = some ⟨r, running, pc⟩ := by
    refine (mem_iff_lookup_eq_some ?_).1 hk
    rw [hlayout.ranks]
    exact List.nodup_range'
  rcases pc with - | t | b
  · cases running with
    | false =>
      refine ⟨.exit r, rfl, ?_⟩
      rw [Cluster.step, hr]
      rfl
    | true =>
      -- the shutdown message has been sent, so there is something to find
      have hbounds : 1 ≤ r ∧ r < c.head.mpiSize := hlayout.rank_bounds hr
      have hbox := h.box r
      rw [shutdownsTo, told, hphase, if_pos hbounds] at hbox
      rcases htasks : c.tasksTo r with - | ⟨t, ts⟩
      · rw [htasks] at hbox
        exact ⟨.probe r (some .shutdown), rfl, isSome_probe hr hbox⟩
      · rw [htasks] at hbox
        exact ⟨.probe r (some (.task t)), rfl, isSome_probe hr hbox⟩
  · refine ⟨.send r, rfl, ?_⟩
    rw [Cluster.step, hr]
    rfl
  · exact absurd rfl halive

/-- The steps that call `MPI_Send`. -/
def sends : ClusterLabel → Bool
  | .head .process => true
  | .shutdown => true
  | .send _ => true
  | _ => false

/-- One step, with an `MPI_Send` that only returns where MPI `buffers` its message. -/
def stepWhen (buffers : Cluster → ClusterLabel → Bool) (c : Cluster) (l : ClusterLabel) :
    Option (Cluster × List ClusterEvent) :=
  if sends l = true → buffers c l = true then c.step l else none

/-- **Shutting down ends, in any order**, if MPI buffers every message. From any state of any run in
which the head has left its main loop: the busy steps are bounded by `work`, which counts the
shutdown messages not sent, the tasks in flight and the ranks; and as long as not all processes have
ended, one of these steps can be taken. -/
theorem shutdown_terminates {buffers : Cluster → ClusterLabel → Bool}
    (hbuffers : ∀ c l, sends l = true → buffers c l = true)
    (h : Run (logged (stepWhen buffers)) (create id mpiSize, []) labels (c, log))
    (hleft : c.phase ≠ .loop)
    (h' : Run (logged (stepWhen buffers)) (c, log) labels' (c', log')) :
    labels'.countP busy ≤ c.work ∧
      (c'.Finished ∨ ∃ l, busy l = true ∧ (c'.stepWhen buffers l).isSome) := by
  have hstep : stepWhen buffers = Cluster.step := by
    funext c l
    exact if_pos (hbuffers c l)
  rw [hstep] at h h' ⊢
  have hkeep : ∀ {s s' : Cluster × List ClusterEvent} {l : ClusterLabel}, s.1.phase ≠ .loop →
      logged Cluster.step s l = some s' → s'.1.phase ≠ .loop := by
    intro s s' l hs hstep
    obtain ⟨es, hone, -⟩ := logged_eq_some_iff.1 hstep
    exact phase_ne_loop hs (transition_of_step hone)
  have hbound := h'.countP_add_le (I := fun s => s.1.phase ≠ .loop) (μ := fun s => s.1.work) hkeep
    (fun hs hstep => by
      obtain ⟨es, hone, -⟩ := logged_eq_some_iff.1 hstep
      exact work_of_transition hs (transition_of_step hone)) hleft
  refine ⟨(Nat.le_add_right _ _).trans hbound, ?_⟩
  have hreach := reached_of_run (h.append h')
  refine hreach.channels.progress hreach.layout ?_
  exact h'.invariant (I := fun s => s.1.phase ≠ .loop) hkeep hleft

/-- The steps of `oneTask` after the head has left its loop. -/
theorem shutdown_terminates_oneTask :
    ∃ s s', Run (logged (stepWhen fun _ _ => true)) (create 3 2, []) (oneTask.take 6) s ∧
      s.1.phase ≠ .loop ∧ Run (logged (stepWhen fun _ _ => true)) s (oneTask.drop 6) s' ∧
      (oneTask.drop 6).countP busy ≤ s.1.work := by
  obtain ⟨⟨c, log⟩, ⟨c', log'⟩, h, hleft, h'⟩ :
      ∃ s s', Run (logged (stepWhen fun _ _ => true)) (create 3 2, []) (oneTask.take 6) s ∧
        s.1.phase ≠ .loop ∧ Run (logged (stepWhen fun _ _ => true)) s (oneTask.drop 6) s' :=
    ⟨_, _, run_get (by decide), by decide, run_get (by decide)⟩
  exact ⟨_, _, h, hleft, h', (shutdown_terminates (fun _ _ _ => rfl) h hleft h').1⟩

end Cluster

end DistributedComputing
