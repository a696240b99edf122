import DistributedComputing.Foundations.Turns
import DistributedComputing.Worker.Loop

/-!
# How a cluster head distributes its tasks

The head keeps the number of the next rank in a static variable, hands every task it takes out of
its queue to that rank (`distribute_to_mpi_worker`), and moves the number on by `next_worker %
(mpi_size - 1) + 1`. `Distribution` is the worker's loop together with the ranks that were sent a
task since the start. They are read off the messages that a step puts on their way (`handedTo`), not
off the variable.

A step of the worker hands over a task to the next rank and moves on, or hands over nothing and
leaves the variable alone (`handedTo_cases`). The choice is thus that of `Turns`, along every run;
`distribution_balanced` is what follows for the ranks.
-/

namespace DistributedComputing

open Mailbox StepRun

/-- A worker, and the ranks it has handed tasks to, the first one first. -/
structure Distribution where
  worker : Worker
  ranks : List ℕ := []

namespace Distribution

/-- The start of `run_worker`. -/
def create (id : UInt32) (mpiSize : ℕ) : Distribution := { worker := .create id mpiSize }

/-- The ranks that a step from `w` to `w'` sends tasks to. -/
def handedTo (w w' : Worker) : List ℕ := (w'.toRanks.drop w.toRanks.length).map Prod.fst

/-- One step. -/
def step (s : Distribution) (l : WorkerLabel) : Option Distribution :=
  (s.worker.step l).map fun r =>
    { worker := r.1
      ranks := s.ranks ++ handedTo s.worker r.1 }

/-! ### What a step hands over -/

variable {w w' : Worker} {l : WorkerLabel} {es : List WorkerEvent}

theorem handedTo_of_le (h : w'.toRanks.length ≤ w.toRanks.length) : handedTo w w' = [] := by
  rw [handedTo, List.drop_eq_nil_of_le h, List.map_nil]

theorem handedTo_append {r : ℕ} {t : Task} (h : w'.toRanks = w.toRanks ++ [(r, t)]) :
    handedTo w w' = [r] := by
  rw [handedTo, h, List.drop_left, List.map_singleton]

/-- **One step** hands a task to the next rank, or nothing to anyone. -/
theorem handedTo_cases (h : Worker.Transition w l w' es) :
    w'.mpiSize = w.mpiSize ∧
      (handedTo w w' = [] ∧ w'.nextWorker = w.nextWorker ∨
        handedTo w w' = [w.nextWorker] ∧
          w'.nextWorker = Turns.next (w.mpiSize - 1) w.nextWorker) := by
  cases h with
  | processRank => exact ⟨rfl, .inr ⟨handedTo_append rfl, rfl⟩⟩
  | rank hmsg =>
    refine ⟨rfl, .inl ⟨handedTo_of_le ?_, rfl⟩⟩
    rw [length_deliver hmsg]
    exact Nat.le_succ _
  | _ =>
    exact ⟨rfl, .inl ⟨handedTo_of_le (Nat.le_refl _), rfl⟩⟩

/-! ### Along a run -/

/-- What holds in every state of a head. -/
structure RoundRobin (mpiSize : ℕ) (s : Distribution) : Prop where
  mpiSize_eq : s.worker.mpiSize = mpiSize
  fair : Turns.Fair (mpiSize - 1) s.worker.nextWorker s.ranks

variable {mpiSize : ℕ} {s t : Distribution} {labels : List WorkerLabel}

theorem roundRobin_create (id : UInt32) (h : 2 ≤ mpiSize) :
    RoundRobin mpiSize (create id mpiSize) where
  mpiSize_eq := rfl
  fair := Turns.fair_nil (by omega)

/-- **One step** keeps the turns. -/
theorem RoundRobin.step (h : RoundRobin mpiSize s) (hs : s.step l = some t) :
    RoundRobin mpiSize t := by
  obtain ⟨⟨w, es⟩, hw, rfl⟩ := Option.map_eq_some_iff.1 hs
  obtain ⟨hsize, hcases⟩ := handedTo_cases (Worker.transition_of_step hw)
  refine ⟨hsize.trans h.mpiSize_eq, ?_⟩
  dsimp only
  rcases hcases with ⟨hranks, hnext⟩ | ⟨hranks, hnext⟩
  · rw [hranks, hnext, List.append_nil]
    exact h.fair
  · rw [hranks, hnext, h.mpiSize_eq]
    exact h.fair.choose

/-- **Every run** keeps the turns. -/
theorem RoundRobin.run (h : RoundRobin mpiSize s) (hrun : Run Distribution.step s labels t) :
    RoundRobin mpiSize t :=
  hrun.invariant RoundRobin.step h

/-! ### Runs that distribute any number of tasks -/

/-- A head at the top of its loop, with an empty queue, that has handed over `k` tasks. -/
structure Idle (k : ℕ) (s : Distribution) : Prop where
  pc : s.worker.pc = .heartbeat
  mode : s.worker.mode = .clusterHead
  queue : s.worker.queue.tasks = []
  room : s.worker.tasksRunning = 0
  length_ranks : s.ranks.length = k

/-- A batch of one task for an empty queue. -/
theorem tasks_enqueueAll_singleton {q : ValidQueue} (h : q.tasks = []) (t : Task) :
    (q.enqueueAll [t]).1.tasks = [t] := by
  show (q.enqueue t).2.tasks = [t]
  rw [(ValidQueue.enqueue_of_accepts (q.accepts_of_nil h t)).2.1, h, ValidQueue.insertTask_nil]

theorem processStep_head {t : Task} {ts : List Task} (hmode : w.mode = .clusterHead)
    (hroom : w.tasksRunning = 0) (htasks : w.queue.tasks = t :: ts) :
    w.processStep = ({ w with
      queue := w.queue.dequeue.2
      toRanks := w.toRanks ++ [(w.nextWorker, t)]
      nextWorker := w.nextWorker % (w.mpiSize - 1) + 1
      pc := .heartbeat }, []) := by
  have hdeq : w.queue.dequeue = (some t, w.queue.dequeue.2) :=
    Prod.ext (ValidQueue.dequeue_of_cons htasks).1 rfl
  have hlimit : ¬ Worker.maxConcurrentTasks ≤ w.tasksRunning := by
    rw [hroom]
    decide
  rw [Worker.processStep, hdeq]
  dsimp only
  rw [if_neg hlimit, hmode]

theorem step_of_toRanks_eq (h : s.worker.step l = some (w', es))
    (hranks : w'.toRanks = s.worker.toRanks) : s.step l = some ⟨w', s.ranks⟩ := by
  rw [step, h, Option.map_some, handedTo_of_le (hranks ▸ Nat.le_refl _), List.append_nil]

theorem step_of_toRanks_append {r : ℕ} {t : Task} (h : s.worker.step l = some (w', es))
    (hranks : w'.toRanks = s.worker.toRanks ++ [(r, t)]) :
    s.step l = some ⟨w', s.ranks ++ [r]⟩ := by
  rw [step, h, Option.map_some, handedTo_append hranks]

/-- **One round**: a batch of one task arrives, and the task is handed over. -/
theorem Idle.round {k : ℕ} (h : Idle k s) (t : Task) :
    ∃ labels s', Run Distribution.step s labels s' ∧ Idle (k + 1) s' := by
  have hnow : ¬ 10 ≤ s.worker.lastHeartbeat - s.worker.lastHeartbeat := by
    rw [Int.sub_self]
    decide
  have hbeat : s.worker.step (.heartbeat s.worker.lastHeartbeat true) =
      some ({ s.worker with pc := .recv }, []) := by
    rw [Worker.step, h.pc]
    dsimp only
    rw [Worker.heartbeatStep, if_neg hnow]
  have htasks := tasks_enqueueAll_singleton h.queue t
  have hproc := processStep_head
    (w := { s.worker with queue := (s.worker.queue.enqueueAll [t]).1, pc := .process })
    h.mode h.room htasks
  refine ⟨[.heartbeat s.worker.lastHeartbeat true, .recv (some [t]), .process], _,
    .cons (step_of_toRanks_eq hbeat rfl) (.cons (step_of_toRanks_eq rfl rfl)
      (.cons (step_of_toRanks_append (congrArg some hproc) rfl) (.nil _))), rfl, h.mode, ?_,
    h.room, ?_⟩
  · exact (ValidQueue.dequeue_of_cons htasks).2.1
  · show (s.ranks ++ [_]).length = k + 1
    rw [List.length_append, h.length_ranks, List.length_singleton]

/-- **Any number of tasks** is distributed by some run. -/
theorem exists_run_idle (id : UInt32) (h : 2 ≤ mpiSize) (k : ℕ) :
    ∃ labels s, Run step (create id mpiSize) labels s ∧ Idle k s := by
  induction k with
  | zero => exact ⟨[.register true 0], _, .cons rfl (.nil _), rfl, if_pos h, rfl, rfl, rfl⟩
  | succ k ih =>
    obtain ⟨labels, s, hrun, hidle⟩ := ih
    obtain ⟨more, s', hround, hidle'⟩ := hidle.round { taskId := .ofNat k }
    exact ⟨labels ++ more, s', hrun.append hround, hidle'⟩

/-- **The distribution is balanced.** For every number of MPI processes from two on and every number
`k`, there are runs of the cluster head that distribute `k` tasks; and in each of them, every task
was sent to one of the ranks `1, …, mpiSize - 1`, and the numbers of tasks sent to two of these
ranks differ by at most one. -/
theorem distribution_balanced (id : UInt32) {mpiSize : ℕ} (hsize : 2 ≤ mpiSize) (k : ℕ) :
    (∃ labels s, Run step (create id mpiSize) labels s ∧ s.ranks.length = k) ∧
    ∀ labels s, Run step (create id mpiSize) labels s → s.ranks.length = k →
      (∀ r ∈ s.ranks, 1 ≤ r ∧ r ≤ mpiSize - 1) ∧
      ∀ r r', 1 ≤ r ∧ r ≤ mpiSize - 1 → 1 ≤ r' ∧ r' ≤ mpiSize - 1 →
        s.ranks.count r ≤ s.ranks.count r' + 1 := by
  constructor
  · obtain ⟨labels, s, hrun, hidle⟩ := exists_run_idle id hsize k
    exact ⟨labels, s, hrun, hidle.length_ranks⟩
  · intro labels s hrun _
    have hfair := ((roundRobin_create id hsize).run hrun).fair
    exact ⟨hfair.mem, fun r r' hr hr' => hfair.count_le hr hr'⟩

/-- A batch of three tasks, and what the loop does with it. -/
def threeTasks : List WorkerLabel :=
  [.register true 0, .heartbeat 0 true,
    .recv (some [{ taskId := 0 }, { taskId := 1 }, { taskId := 2 }]), .process,
    .heartbeat 0 true, .recv none, .process, .heartbeat 0 true, .recv none, .process]

/-- With two ranks, the first one gets the third task again. -/
theorem distribution_balanced_threeTasks :
    ∃ s, Run step (create 0 3) threeTasks s ∧ s.ranks = [1, 2, 1] ∧
      s.ranks.count 1 ≤ s.ranks.count 2 + 1 := by
  have hrun := run_get (by decide : (exec step (create 0 3) threeTasks).isSome)
  obtain ⟨-, hruns⟩ := distribution_balanced 0 (by decide : 2 ≤ 3) 3
  obtain ⟨-, hcount⟩ := hruns threeTasks _ hrun (by decide)
  exact ⟨_, hrun, by decide, hcount 1 2 (by decide) (by decide)⟩

end Distribution

end DistributedComputing
