import Mathlib.Data.Finset.Card
import DistributedComputing.Foundations.StepRun

/-!
# Task slots

`resource_limits` lets a worker run at most `max_concurrent_tasks` tasks at a time. A client
reserves a slot, and releases it once if it got one. Every function runs under `limits->mutex`, so a
call is one atomic step, and threads are the interleavings of their calls.

`SlotClients` is the limiter together with the clients that hold a reservation, for any set of
clients. The release saturates at zero, and the limit can be moved while slots are held, also below
the number of tasks that are running; so the count says nothing about the limit by itself.
`slots_not_oversubscribed` is what does hold.

The CPU percentage, a floating-point number that only `resource_limits_check` reads, is left out, as
are the limits on CPU time, disk space and open files.
-/

namespace DistributedComputing

open StepRun

/-! ### The limiter -/

/-- `struct resource_limits`, the part that counts tasks. -/
structure ResourceLimits where
  maxConcurrentTasks : UInt32
  tasksRunning : UInt32 := 0
  tasksCompleted : UInt64 := 0
  tasksFailed : UInt64 := 0
  deriving DecidableEq, Repr

namespace ResourceLimits

/-- `resource_limits_reserve_task`. -/
def reserveTask (r : ResourceLimits) : ℤ × ResourceLimits :=
  if r.maxConcurrentTasks ≤ r.tasksRunning then (-1, r)
  else (0, { r with tasksRunning := r.tasksRunning + 1 })

/-- `resource_limits_release_task`. -/
def releaseTask (r : ResourceLimits) (taskSuccess : Bool) : ResourceLimits :=
  let r := if 0 < r.tasksRunning then { r with tasksRunning := r.tasksRunning - 1 } else r
  if taskSuccess then { r with tasksCompleted := r.tasksCompleted + 1 }
  else { r with tasksFailed := r.tasksFailed + 1 }

theorem completed_add_zero (r : ResourceLimits) :
    r = { r with tasksCompleted := r.tasksCompleted + 0 } := by
  rw [UInt64.add_zero]

/-- **A reservation that is released at once** leaves only the completed task behind. -/
theorem release_reserve {r : ResourceLimits} (hrun : r.tasksRunning = 0)
    (hmax : 0 < r.maxConcurrentTasks) :
    r.reserveTask.1 = 0 ∧
      r.reserveTask.2.releaseTask true = { r with tasksCompleted := r.tasksCompleted + 1 } := by
  have hroom : ¬ r.maxConcurrentTasks ≤ r.tasksRunning := by
    rw [hrun]
    exact UInt32.not_le.2 hmax
  have hone : 0 < r.tasksRunning + 1 := by
    rw [hrun]
    decide
  have hback : r.tasksRunning + 1 - 1 = r.tasksRunning := by
    rw [hrun]
    decide
  rw [reserveTask, if_neg hroom]
  refine ⟨rfl, ?_⟩
  simp only [releaseTask, if_pos hone, if_true, hback]

/-! ### One call -/

theorem reserveTask_of_full {r : ResourceLimits} (h : r.maxConcurrentTasks ≤ r.tasksRunning) :
    r.reserveTask = (-1, r) :=
  if_pos h

theorem reserveTask_of_room {r : ResourceLimits} (h : r.tasksRunning < r.maxConcurrentTasks) :
    r.reserveTask = (0, { r with tasksRunning := r.tasksRunning + 1 }) :=
  if_neg (UInt32.not_le.2 h)

theorem reserveTask_ne_zero_iff (r : ResourceLimits) :
    r.reserveTask.1 ≠ 0 ↔ r.maxConcurrentTasks ≤ r.tasksRunning := by
  by_cases h : r.maxConcurrentTasks ≤ r.tasksRunning
  · rw [reserveTask_of_full h]
    exact iff_of_true (Int.neg_ne_zero.2 (by decide)) h
  · rw [reserveTask_of_room (UInt32.not_le.1 h)]
    exact iff_of_false (not_not_intro rfl) h

theorem toNat_succ {r : ResourceLimits} (h : r.tasksRunning < r.maxConcurrentTasks) :
    (r.tasksRunning + 1).toNat = r.tasksRunning.toNat + 1 := by
  have hlt : r.tasksRunning.toNat < r.maxConcurrentTasks.toNat := UInt32.lt_iff_toNat_lt.1 h
  have hmax := r.maxConcurrentTasks.toNat_lt
  rw [UInt32.toNat_add, Nat.mod_eq_of_lt]
  · rfl
  · show r.tasksRunning.toNat + 1 < 2 ^ 32
    omega

theorem tasksRunning_releaseTask (r : ResourceLimits) (taskSuccess : Bool) :
    (r.releaseTask taskSuccess).tasksRunning =
      if 0 < r.tasksRunning then r.tasksRunning - 1 else r.tasksRunning := by
  by_cases hpos : 0 < r.tasksRunning
  · simp only [releaseTask, if_pos hpos]
    split <;> rfl
  · simp only [releaseTask, if_neg hpos]
    split <;> rfl

theorem toNat_tasksRunning_releaseTask (r : ResourceLimits) (taskSuccess : Bool) :
    (r.releaseTask taskSuccess).tasksRunning.toNat = r.tasksRunning.toNat - 1 := by
  rw [tasksRunning_releaseTask]
  split
  · next hpos =>
    have hle : 1 ≤ r.tasksRunning := UInt32.le_iff_toNat_le.2 (UInt32.lt_iff_toNat_lt.1 hpos)
    exact UInt32.toNat_sub_of_le _ _ hle
  · next hzero =>
    rw [UInt32.lt_iff_toNat_lt, Nat.not_lt] at hzero
    rw [Nat.le_zero.1 hzero]

end ResourceLimits

/-! ### The limiter with its statistics -/

/-- `resource_type_t`. -/
inductive ResourceType
  | cpuTime
  | memory
  | diskSpace
  | openFiles
  | tasksRunning
  deriving DecidableEq, Repr

/-- `resource_stats_t`, less the counts of tasks that ended. -/
structure ResourceStats where
  cpuTimeUs : UInt64 := 0
  memoryRssBytes : UInt64 := 0
  memoryVirtBytes : UInt64 := 0
  memoryPeakBytes : UInt64 := 0
  numThreads : Int32 := 0
  openFiles : Int32 := 0
  tasksRunning : UInt32 := 0
  deriving DecidableEq, Repr

/-- `struct resource_limits`. -/
structure Limiter extends ResourceLimits where
  maxMemoryBytes : UInt64
  warnMemoryBytes : UInt64
  stats : ResourceStats := {}
  deriving DecidableEq, Repr

/-- What `resource_limits_update` reads from the system, where it can: the memory in use, resident
and virtual, the CPU time, the open files, the threads. -/
structure Readings where
  memory : Option (UInt64 × UInt64)
  cpuTimeUs : Option UInt64
  openFiles : Int32
  numThreads : Option Int32
  deriving DecidableEq, Repr

namespace Limiter

/-- `resource_limits_create`. -/
def create (maxConcurrentTasks : UInt32) (maxMemoryBytes warnMemoryBytes : UInt64) : Limiter :=
  { maxConcurrentTasks, maxMemoryBytes, warnMemoryBytes }

/-- The statistics after `resource_limits_update`. -/
def updatedStats (l : Limiter) (r : Readings) : ResourceStats where
  cpuTimeUs := r.cpuTimeUs.getD l.stats.cpuTimeUs
  memoryRssBytes := (r.memory.map Prod.fst).getD l.stats.memoryRssBytes
  memoryVirtBytes := (r.memory.map Prod.snd).getD l.stats.memoryVirtBytes
  memoryPeakBytes :=
    match r.memory with
    | some (rss, _) => if l.stats.memoryPeakBytes < rss then rss else l.stats.memoryPeakBytes
    | none => l.stats.memoryPeakBytes
  numThreads := r.numThreads.getD l.stats.numThreads
  openFiles := if 0 ≤ r.openFiles then r.openFiles else l.stats.openFiles
  -- copied for the readers of the statistics
  tasksRunning := l.tasksRunning

/-- `resource_limits_update`. -/
def update (l : Limiter) (r : Readings) : Limiter := { l with stats := l.updatedStats r }

/-- `resource_limits_set_hard_limit`. The number of tasks is cut to 32 bits. -/
def setHardLimit (l : Limiter) (type : ResourceType) (value : UInt64) : ℤ × Limiter :=
  match type with
  | .memory => (0, { l with maxMemoryBytes := value })
  | .tasksRunning => (0, { l with maxConcurrentTasks := value.toUInt32 })
  | _ => (-1, l)

/-- `resource_limits_set_soft_limit`. -/
def setSoftLimit (l : Limiter) (type : ResourceType) (value : UInt64) : ℤ × Limiter :=
  match type with
  | .memory => (0, { l with warnMemoryBytes := value })
  | _ => (-1, l)

/-- `resource_limits_reset_stats`. -/
def resetStats (l : Limiter) : Limiter :=
  { l with
    tasksCompleted := 0
    tasksFailed := 0
    stats := { l.stats with memoryPeakBytes := l.stats.memoryRssBytes } }

/-- `resource_limits_reserve_task`. -/
def reserve (l : Limiter) : ℤ × Limiter :=
  (l.reserveTask.1, { l with toResourceLimits := l.reserveTask.2 })

/-- `resource_limits_release_task`. -/
def release (l : Limiter) (taskSuccess : Bool) : Limiter :=
  { l with toResourceLimits := l.releaseTask taskSuccess }

theorem tasksRunning_setHardLimit (l : Limiter) (type : ResourceType) (value : UInt64) :
    (l.setHardLimit type value).2.tasksRunning = l.tasksRunning := by
  cases type <;> rfl

theorem tasksRunning_setSoftLimit (l : Limiter) (type : ResourceType) (value : UInt64) :
    (l.setSoftLimit type value).2.tasksRunning = l.tasksRunning := by
  cases type <;> rfl

end Limiter

/-! ### Clients -/

/-- The limiter, and the clients that hold a reservation. -/
structure SlotClients (ι : Type) where
  limiter : Limiter
  holders : Finset ι

/-- A call. Clients that hold a reservation release it, and the others reserve. -/
inductive SlotLabel (ι : Type)
  | reserve (client : ι)
  | release (client : ι) (taskSuccess : Bool)
  | setHardLimit (type : ResourceType) (value : UInt64)
  | setSoftLimit (type : ResourceType) (value : UInt64)
  | update (readings : Readings)
  | resetStats
  deriving DecidableEq, Repr

namespace SlotClients

variable {ι : Type} [DecidableEq ι]

/-- One call. -/
def step (s : SlotClients ι) : SlotLabel ι → Option (SlotClients ι)
  | .reserve client =>
    if client ∈ s.holders then none
    else
      some ⟨s.limiter.reserve.2,
        if s.limiter.reserve.1 = 0 then insert client s.holders else s.holders⟩
  | .release client taskSuccess =>
    if client ∈ s.holders then
      some ⟨s.limiter.release taskSuccess, s.holders.erase client⟩
    else none
  | .setHardLimit type value => some { s with limiter := (s.limiter.setHardLimit type value).2 }
  | .setSoftLimit type value => some { s with limiter := (s.limiter.setSoftLimit type value).2 }
  | .update readings => some { s with limiter := s.limiter.update readings }
  | .resetStats => some { s with limiter := s.limiter.resetStats }

/-- The count is the number of holders. -/
def Counted (s : SlotClients ι) : Prop := s.limiter.tasksRunning.toNat = s.holders.card

variable {s t : SlotClients ι}

theorem Counted.reserve {client : ι} (h : s.Counted) (hs : s.step (.reserve client) = some t) :
    t.Counted := by
  rw [step] at hs
  split at hs
  · cases hs
  next hnot =>
  obtain rfl := Option.some.inj hs
  by_cases hfull : s.limiter.maxConcurrentTasks ≤ s.limiter.tasksRunning
  · rw [Limiter.reserve, ResourceLimits.reserveTask_of_full hfull]
    exact h
  · have hroom := UInt32.not_le.1 hfull
    rw [Limiter.reserve, ResourceLimits.reserveTask_of_room hroom]
    show (s.limiter.tasksRunning + 1).toNat = (insert client s.holders).card
    rw [ResourceLimits.toNat_succ hroom, Finset.card_insert_of_notMem hnot, h]

theorem Counted.release {client : ι} {taskSuccess : Bool} (h : s.Counted)
    (hs : s.step (.release client taskSuccess) = some t) : t.Counted := by
  rw [step] at hs
  split at hs
  · next hmem =>
    obtain rfl := Option.some.inj hs
    show (s.limiter.releaseTask taskSuccess).tasksRunning.toNat = (s.holders.erase client).card
    rw [ResourceLimits.toNat_tasksRunning_releaseTask, Finset.card_erase_of_mem hmem, h]
  · cases hs

/-- **One call keeps the count.** -/
theorem Counted.step {l : SlotLabel ι} (h : s.Counted) (hs : s.step l = some t) : t.Counted := by
  cases l with
  | reserve client => exact h.reserve hs
  | release client taskSuccess => exact h.release hs
  | setHardLimit type value =>
    obtain rfl := Option.some.inj hs
    rw [Counted, Limiter.tasksRunning_setHardLimit]
    exact h
  | setSoftLimit type value =>
    obtain rfl := Option.some.inj hs
    rw [Counted, Limiter.tasksRunning_setSoftLimit]
    exact h
  | update | resetStats =>
    obtain rfl := Option.some.inj hs
    exact h

/-- **Slots are not oversubscribed.** For any clients and any interleaving of their calls with those
that set limits and update the statistics: the count is the number of holders; a reservation that
succeeds leaves it within the limit in force; and one fails exactly if the count has reached the
limit. -/
theorem slots_not_oversubscribed {maxConcurrentTasks : UInt32} {maxMemory warnMemory : UInt64}
    {labels : List (SlotLabel ι)}
    (h : Run step ⟨.create maxConcurrentTasks maxMemory warnMemory, ∅⟩ labels s) :
    s.limiter.tasksRunning.toNat = s.holders.card ∧
      (s.limiter.reserve.1 = 0 →
        s.limiter.reserve.2.tasksRunning ≤ s.limiter.reserve.2.maxConcurrentTasks) ∧
      (s.limiter.reserve.1 ≠ 0 ↔ s.limiter.maxConcurrentTasks ≤ s.limiter.tasksRunning) := by
  have hstart : Counted (⟨.create maxConcurrentTasks maxMemory warnMemory, ∅⟩ : SlotClients ι) :=
    rfl
  refine ⟨h.invariant Counted.step hstart, fun hzero => ?_, ?_⟩
  · have hroom : s.limiter.tasksRunning < s.limiter.maxConcurrentTasks := by
      refine UInt32.not_le.1 fun hfull => ?_
      exact (s.limiter.reserveTask_ne_zero_iff.2 hfull) hzero
    rw [Limiter.reserve, ResourceLimits.reserveTask_of_room hroom]
    show s.limiter.tasksRunning + 1 ≤ s.limiter.maxConcurrentTasks
    rw [UInt32.le_iff_toNat_le, ResourceLimits.toNat_succ hroom]
    exact UInt32.lt_iff_toNat_lt.1 hroom
  · exact s.limiter.reserveTask_ne_zero_iff

/-- Two clients, and a limit that is lowered while both hold a reservation. -/
theorem slots_not_oversubscribed_lowered :
    ∃ s : SlotClients ℕ, Run step ⟨.create 2 0 0, ∅⟩
        [.reserve 0, .reserve 1, .setHardLimit .tasksRunning 1, .release 0 true, .reserve 0] s ∧
      s.limiter.tasksRunning.toNat = s.holders.card := by
  obtain ⟨s, hrun⟩ : ∃ s : SlotClients ℕ, Run step ⟨.create 2 0 0, ∅⟩
      [.reserve 0, .reserve 1, .setHardLimit .tasksRunning 1, .release 0 true, .reserve 0] s :=
    ⟨_, run_get (by decide)⟩
  exact ⟨s, hrun, (slots_not_oversubscribed hrun).1⟩

end SlotClients

end DistributedComputing
