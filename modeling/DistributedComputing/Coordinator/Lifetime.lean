import DistributedComputing.Coordinator.Loop
import DistributedComputing.Foundations.Bytes

/-!
# The lifetime of the coordinator's queue

A model of the coordinator's `main` around its loop: the command line, the calls that can fail
before the loop, the end of the loop, and `load_tasks_from_file`, which is only called after
`run_coordinator` has returned. The steps report what happens to the queue, in the order in which it
happens.

`run_coordinator` calls `log_fatal` where it could not create something, and `log_fatal` aborts the
process. So it returns after the loop only, when the queue has been destroyed; but the pointer is
never reset, and `main` takes it for a queue. `RespectsLifetime` is what should hold of the events:
every use of the queue is between its creation and its destruction, and every task that is loaded
into it is there for an evaluation of the scheduling section. `Process.Inv` is what the steps before
the loading keep; `queue_lifetime_iff` says that the lifetime is respected exactly if the run does
not come to load anything.

`fgets` and `sscanf` are modelled as the C library has them, with numbers that are too large taken
for the largest one. Whether log, transport, queue and scheduler could be created, and what is in
the file, is up to the environment. The other objects of the process are left out.
-/

namespace DistributedComputing

open Bytes StepRun

/-! ### The command line -/

/-- The options. -/
structure CoordinatorOptions where
  endpoint : String := "tcp://0.0.0.0:5555"
  taskFile : Option String := none
  deriving DecidableEq, Repr

/-- The loop over the arguments. It is `none` for `--help`, which ends the program. -/
def parseArgs : CoordinatorOptions → List String → Option CoordinatorOptions
  | o, [] => some o
  | o, [arg] => if arg = "--help" then none else some o
  | o, arg :: value :: rest =>
    if arg = "--endpoint" then parseArgs { o with endpoint := value } rest
    else if arg = "--tasks" then parseArgs { o with taskFile := some value } rest
    else if arg = "--help" then none
    else parseArgs o (value :: rest)

/-! ### The task file -/

/-- The byte that ends a line. -/
def newline : UInt8 := 0x0A

/-- The size of the buffer for a line. -/
def lineSize : ℕ := 1024

/-- The lines that `fgets` returns, one after the other, with the bytes already read of the first
one. -/
def fgetsLines : List UInt8 → List UInt8 → List (List UInt8)
  | line, [] => if line = [] then [] else [line]
  | line, c :: rest =>
    if c = newline ∨ line.length + 1 = lineSize - 1 then (line ++ [c]) :: fgetsLines [] rest
    else fgetsLines (line ++ [c]) rest

/-- `isspace`. -/
def isSpace (c : UInt8) : Bool := c = 0x20 ∨ (0x09 ≤ c ∧ c ≤ 0x0D)

/-- `isdigit`. -/
def isDigit (c : UInt8) : Bool := 0x30 ≤ c ∧ c ≤ 0x39

/-- The number with the given digits. -/
def digitsValue (digits : List UInt8) : ℕ := digits.foldl (fun n c => n * 10 + (c.toNat - 0x30)) 0

/-- A conversion of `sscanf` to `unsigned long`: blanks, a sign, and at least one digit. -/
def scanUnsigned (bytes : List UInt8) : Option (UInt64 × List UInt8) :=
  let bytes := bytes.dropWhile isSpace
  let negative := bytes.head? = some 0x2D
  let bytes := if negative ∨ bytes.head? = some 0x2B then bytes.tail else bytes
  let digits := bytes.takeWhile isDigit
  let n := digitsValue digits
  if digits = [] then none
  else some
    (if 2 ^ 64 ≤ n then .ofNat (2 ^ 64 - 1) else if negative then -.ofNat n else .ofNat n,
      bytes.dropWhile isDigit)

/-- `API_VERSION_CURRENT`. -/
def apiVersionCurrent : UInt32 := 1

/-- The task of a line, if it has four numbers. The second one is converted to 32 bits. -/
def parseTask (line : List UInt8) : Option Task := do
  let (taskId, rest) ← scanUnsigned (cString line)
  let (modelId, rest) ← scanUnsigned rest
  let (inputSize, rest) ← scanUnsigned rest
  let (outputSize, _) ← scanUnsigned rest
  return {
    taskId
    modelId := modelId.toUInt32
    inputSize
    outputSize
    apiVersion := apiVersionCurrent
    traceId := taskId
    timeoutSecs := 300
    flags := 0 }

/-- The tasks of a file. -/
def parseTasks (contents : List UInt8) : List Task := (fgetsLines [] contents).filterMap parseTask

/-! ### The process -/

/-- What happens to the queue. -/
inductive HandleEvent
  | created
  | isEmpty
  | dequeue
  | requeue (task : Task)
  | load (task : Task)
  | scheduling
  | shutdown
  | destroyed
  deriving DecidableEq, Repr

/-- The process: not yet running, in the loop, behind `run_coordinator` with a pointer to the queue
it has destroyed, or at its end. -/
inductive Process
  | launched
  | looping (taskFile : Option String) (c : Coordinator)
  | returned (taskFile : Option String)
  | exited

/-- The calls before the loop that fail. -/
structure LaunchFaults where
  log : Bool := false
  transport : Bool := false
  queue : Bool := false
  scheduler : Bool := false
  deriving DecidableEq, Repr

/-- What the environment chooses. `stop` is the end of the loop, once a signal has arrived, and
`finish` the rest of `main`, with what is in the task file if it can be opened. -/
inductive ProcessLabel
  | launch (args : List String) (faults : LaunchFaults)
  | loop (l : Label)
  | stop
  | finish (contents : Option (List UInt8))

/-- `load_tasks_from_file`, if `main` calls it: the calls of `task_queue_enqueue`. -/
def loadEvents (taskFile : Option String) (contents : Option (List UInt8)) : List HandleEvent :=
  match taskFile, contents with
  | some _, some bytes => (parseTasks bytes).map .load
  | _, _ => []

/-- What a step of the loop does to the queue. -/
def loopEvents (c : Coordinator) : Label → List HandleEvent
  | .internal =>
    match c.pc with
    | .schedule => [.scheduling]
    | .dispatch (_ :: _) => [.isEmpty]
    | .collect w _ batch => if batch.length < Coordinator.maxBatch w then [.dequeue] else []
    | .requeue _ (t :: _) => [.requeue t]
    | _ => []
  | _ => []

/-- Nobody else adds to the queue while the loop is running. -/
def Label.fromLoop : Label → Bool
  | .enqueue _ => false
  | _ => true

namespace Process

/-- `main` up to the loop. The process ends before it for `--help` and where a call fails: without a
log in `main`, and else in `log_fatal`. -/
def launch (args : List String) (faults : LaunchFaults) : Process × List HandleEvent :=
  if faults.log then (exited, [])
  else
    match parseArgs {} args with
    | none => (exited, [])
    | some o =>
      if faults.transport then (exited, [])
      else if faults.queue then (exited, [])
      else if faults.scheduler then (exited, [.created])
      else (looping o.taskFile Coordinator.init, [.created])

/-- One step. -/
def step : Process → ProcessLabel → Option (Process × List HandleEvent)
  | launched, .launch args faults => some (launch args faults)
  | looping f c, .loop l =>
    if l.fromLoop then (c.step l).map fun r => (looping f r.1, loopEvents c l) else none
  | looping f c, .stop =>
    match c.pc with
    | .recv => some (returned f, [.shutdown, .destroyed])
    | _ => none
  | returned f, .finish contents => some (exited, loadEvents f contents)
  | _, _ => none

/-- Every way in which a step can go. -/
inductive Move : Process → ProcessLabel → Process → List HandleEvent → Prop
  | launch {args faults p es} (h : launch args faults = (p, es)) :
      Move launched (.launch args faults) p es
  | loop {f c l c' es} (h : c.step l = some (c', es)) :
      Move (looping f c) (.loop l) (looping f c') (loopEvents c l)
  | stop {f c} (hpc : c.pc = .recv) :
      Move (looping f c) .stop (returned f) [.shutdown, .destroyed]
  | finish {f contents} : Move (returned f) (.finish contents) exited (loadEvents f contents)

variable {p p' : Process} {l : ProcessLabel} {es : List HandleEvent}

/-- **Inversion of a step of the process.** -/
theorem move_of_step (h : p.step l = some (p', es)) : Move p l p' es := by
  rw [step.eq_def] at h
  split at h
  · next args faults => exact .launch (Option.some.inj h)
  · next f c l =>
    split at h
    · obtain ⟨⟨c', evs⟩, hc, hr⟩ := Option.map_eq_some_iff.1 h
      cases hr
      exact .loop hc
    · exact absurd h (by simp)
  · next f c =>
    split at h
    · next hpc =>
      cases h
      exact .stop hpc
    · exact absurd h (by simp)
  · next f contents =>
    cases h
    exact .finish
  · exact absurd h (by simp)

end Process

/-! ### What should hold of the events -/

/-- The operations on the queue. -/
def HandleEvent.IsUse : HandleEvent → Prop
  | .isEmpty | .dequeue | .requeue _ | .load _ => True
  | _ => False

/-- A call of `task_queue_enqueue` in `load_tasks_from_file`. -/
def HandleEvent.IsLoad : HandleEvent → Prop
  | .load _ => True
  | _ => False

/-- After these events the queue exists. -/
def QueueAlive (es : List HandleEvent) : Prop := .created ∈ es ∧ .destroyed ∉ es

/-- Every operation comes after the creation and before the destruction. -/
def UsedWhileAlive (es : List HandleEvent) : Prop :=
  ∀ front e back, es = front ++ e :: back → e.IsUse → QueueAlive front

/-- After every task that is loaded into the queue the scheduling section is evaluated, before
shutdown begins. -/
def LoadsVisible (es : List HandleEvent) : Prop :=
  ∀ front t back, es = front ++ .load t :: back →
    ∃ mid rest, back = mid ++ .scheduling :: rest ∧ .shutdown ∉ front ++ mid

/-- The lifetime of the queue is respected. -/
def RespectsLifetime (es : List HandleEvent) : Prop := UsedWhileAlive es ∧ LoadsVisible es

section Events

variable {es es' : List HandleEvent}

/-- Nothing is loaded. -/
def NoLoad (es : List HandleEvent) : Prop := ∀ e ∈ es, ¬ e.IsLoad

theorem NoLoad.append (h : NoLoad es) (h' : NoLoad es') : NoLoad (es ++ es') := fun e he =>
  (List.mem_append.1 he).elim (h e) (h' e)

theorem NoLoad.visible (h : NoLoad es) : LoadsVisible es := by
  rintro front t back rfl
  exact absurd trivial (h (.load t) (by simp))

theorem noLoad_nil : NoLoad [] := fun _ he => absurd he List.not_mem_nil

theorem noLoad_created : NoLoad [.created] := fun e he => by
  obtain rfl := List.mem_singleton.1 he
  exact id

theorem usedWhileAlive_nil : UsedWhileAlive [] := fun front e back heq => absurd heq (by simp)

theorem usedWhileAlive_append_iff :
    UsedWhileAlive (es ++ es') ↔
      UsedWhileAlive es ∧ ∀ front e back, es' = front ++ e :: back → e.IsUse →
        QueueAlive (es ++ front) := by
  constructor
  · intro h
    refine ⟨fun front e back heq => h front e (back ++ es') ?_, fun front e back heq =>
      h (es ++ front) e back ?_⟩
    · rw [heq, List.append_assoc, List.cons_append]
    · rw [heq, List.append_assoc]
  · rintro ⟨hl, hr⟩ front e back heq huse
    -- the operation is in the first part or in the second
    rcases List.append_eq_append_iff.1 heq with ⟨mid, rfl, hmid⟩ | ⟨mid, hes, hback⟩
    · exact hr mid e back hmid huse
    · rcases mid with - | ⟨m, mid⟩
      · rw [List.append_nil] at hes
        rw [← hes, ← List.append_nil es]
        exact hr [] e back hback.symm huse
      · obtain ⟨rfl, -⟩ := List.cons.inj hback
        exact hl front e mid hes huse

/-- Nothing can go wrong while the queue exists. -/
theorem UsedWhileAlive.append_of_alive (h : UsedWhileAlive es) (ha : QueueAlive es)
    (hd : .destroyed ∉ es') : UsedWhileAlive (es ++ es') := by
  refine usedWhileAlive_append_iff.2 ⟨h, fun front e back heq _ => ⟨?_, fun hmem => ?_⟩⟩
  · exact List.mem_append_left _ ha.1
  · rcases List.mem_append.1 hmem with hmem | hmem
    · exact ha.2 hmem
    · exact hd (heq ▸ List.mem_append_left _ hmem)

theorem UsedWhileAlive.append_of_no_use (h : UsedWhileAlive es) (hu : ∀ e ∈ es', ¬ e.IsUse) :
    UsedWhileAlive (es ++ es') :=
  usedWhileAlive_append_iff.2 ⟨h, fun front e back heq huse => absurd huse (hu e (by simp [heq]))⟩

theorem usedWhileAlive_created : UsedWhileAlive [.created] :=
  usedWhileAlive_nil.append_of_no_use fun e he => by
    obtain rfl := List.mem_singleton.1 he
    exact id

end Events

/-! ### The steps before the loading -/

/-- The command line leads to the given task file. -/
def Starts (args : List String) (taskFile : Option String) : Prop :=
  ∃ o, parseArgs {} args = some o ∧ o.taskFile = taskFile

/-- **What the steps before the loading keep.** -/
def Process.Inv (args : List String) : Process × List HandleEvent → Prop
  | (.launched, _) => False
  | (.looping f _, es) => Starts args f ∧ UsedWhileAlive es ∧ NoLoad es ∧ QueueAlive es
  | (.returned f, es) => Starts args f ∧ UsedWhileAlive es ∧ NoLoad es ∧ .destroyed ∈ es
  | (.exited, _) => True

/-- The loop does not load and does not destroy. -/
theorem not_load_of_mem_loopEvents {c : Coordinator} {l : Label} {e : HandleEvent}
    (he : e ∈ loopEvents c l) : ¬ e.IsLoad ∧ e ≠ .destroyed := by
  rw [loopEvents.eq_def] at he
  split at he
  · split at he
    · obtain rfl := List.mem_singleton.1 he
      exact ⟨id, by simp⟩
    · obtain rfl := List.mem_singleton.1 he
      exact ⟨id, by simp⟩
    · split at he
      · obtain rfl := List.mem_singleton.1 he
        exact ⟨id, by simp⟩
      · exact absurd he List.not_mem_nil
    · obtain rfl := List.mem_singleton.1 he
      exact ⟨id, by simp⟩
    · exact absurd he List.not_mem_nil
  · exact absurd he List.not_mem_nil

namespace Process

variable {args : List String} {faults : LaunchFaults} {p p' : Process} {l : ProcessLabel}
  {as : List ProcessLabel} {es es' : List HandleEvent}

theorem inv_launch (h : launch args faults = (p, es)) :
    Inv args (p, es) ∧ UsedWhileAlive es ∧ NoLoad es := by
  have hnil : UsedWhileAlive [] ∧ NoLoad [] := ⟨usedWhileAlive_nil, noLoad_nil⟩
  have hcreated : UsedWhileAlive [.created] ∧ NoLoad [.created] :=
    ⟨usedWhileAlive_created, noLoad_created⟩
  rw [launch] at h
  rcases hargs : parseArgs {} args with - | o
  · rw [hargs] at h
    split_ifs at h
    all_goals
      cases h
      exact ⟨trivial, hnil⟩
  rw [hargs] at h
  dsimp only at h
  split_ifs at h
  · cases h
    exact ⟨trivial, hnil⟩
  · cases h
    exact ⟨trivial, hnil⟩
  · cases h
    exact ⟨trivial, hnil⟩
  · cases h
    exact ⟨trivial, hcreated⟩
  · cases h
    exact ⟨⟨⟨o, hargs, rfl⟩, hcreated.1, hcreated.2, by simp [QueueAlive]⟩, hcreated⟩

/-- **The step.** -/
theorem inv_step {s t : Process × List HandleEvent} (hs : Inv args s)
    (h : logged step s l = some t) : Inv args t := by
  obtain ⟨es', hstep, hes⟩ := logged_eq_some_iff.1 h
  obtain ⟨p, es⟩ := s
  obtain ⟨p', log⟩ := t
  dsimp only at hstep hes
  subst hes
  cases move_of_step hstep with
  | launch => exact hs.elim
  | @loop f c l =>
    obtain ⟨hstart, hused, hquiet, halive⟩ := hs
    have hd : .destroyed ∉ loopEvents c l := fun hmem => (not_load_of_mem_loopEvents hmem).2 rfl
    refine ⟨hstart, hused.append_of_alive halive hd,
      hquiet.append fun e he => (not_load_of_mem_loopEvents he).1, List.mem_append_left _ halive.1,
      fun hmem => (List.mem_append.1 hmem).elim halive.2 hd⟩
  | stop =>
    obtain ⟨hstart, hused, hquiet, -⟩ := hs
    have hno : ∀ e ∈ [HandleEvent.shutdown, .destroyed], ¬ e.IsUse ∧ ¬ e.IsLoad := by
      simp [HandleEvent.IsUse, HandleEvent.IsLoad]
    exact ⟨hstart, hused.append_of_no_use fun e he => (hno e he).1,
      hquiet.append fun e he => (hno e he).2, by simp⟩
  | finish => trivial

end Process

/-! ### The loading -/

/-- There are tasks to load. -/
def Loads (args : List String) (contents : Option (List UInt8)) : Prop :=
  (∃ name, Starts args (some name)) ∧ ∃ bytes, contents = some bytes ∧ parseTasks bytes ≠ []

/-- A run in which `main` comes to load tasks. -/
def LoadsTasks (as : List ProcessLabel) : Prop :=
  ∃ args faults as' contents,
    as = .launch args faults :: (as' ++ [.finish contents]) ∧ Loads args contents

section Loading

variable {args : List String} {faults : LaunchFaults} {contents : Option (List UInt8)}
  {f f' : Option String} {es : List HandleEvent}

theorem Starts.unique (h : Starts args f) (h' : Starts args f') : f = f' := by
  obtain ⟨o, ho, rfl⟩ := h
  obtain ⟨o', ho', rfl⟩ := h'
  rw [Option.some.inj (ho.symm.trans ho')]

/-- Nothing is loaded exactly if there is nothing to load. -/
theorem loadEvents_eq_nil_iff (hstart : Starts args f) :
    loadEvents f contents = [] ↔ ¬ Loads args contents := by
  rcases f with - | name
  · refine iff_of_true rfl ?_
    rintro ⟨⟨name, hname⟩, -⟩
    exact absurd (hstart.unique hname) (by simp)
  rcases contents with - | bytes
  · refine iff_of_true rfl ?_
    rintro ⟨-, bytes, heq, -⟩
    exact absurd heq (by simp)
  rw [loadEvents, List.map_eq_nil_iff]
  constructor
  · rintro hnil ⟨-, bytes', heq, hne⟩
    exact hne (Option.some.inj heq ▸ hnil)
  · exact fun h => not_not.1 fun hne => h ⟨⟨name, hstart⟩, bytes, rfl, hne⟩

theorem not_respectsLifetime_destroyed (hd : .destroyed ∈ es) (t : Task)
    (back : List HandleEvent) : ¬ RespectsLifetime (es ++ .load t :: back) := fun h =>
  (h.1 es (.load t) back rfl trivial).2 hd

/-- **The end of `main`.** -/
theorem respectsLifetime_finish_iff (hstart : Starts args f) (hd : .destroyed ∈ es)
    (hused : UsedWhileAlive es) (hquiet : NoLoad es) :
    RespectsLifetime (es ++ loadEvents f contents) ↔ ¬ Loads args contents := by
  rw [← loadEvents_eq_nil_iff hstart]
  constructor
  · intro h
    rw [loadEvents.eq_def] at h ⊢
    split
    · next name bytes =>
      rcases hts : parseTasks bytes with - | ⟨t, ts⟩
      · rfl
      · dsimp only at h
        rw [hts] at h
        exact absurd h (not_respectsLifetime_destroyed hd t _)
    · rfl
  · intro h
    rw [h, List.append_nil]
    exact ⟨hused, hquiet.visible⟩

/-- Only the last label can load. -/
theorem loadsTasks_iff {as : List ProcessLabel} {l : ProcessLabel} :
    LoadsTasks (.launch args faults :: (as ++ [l])) ↔
      ∃ contents, l = .finish contents ∧ Loads args contents := by
  constructor
  · rintro ⟨args', faults', as', contents, heq, hloads⟩
    obtain ⟨hlaunch, htail⟩ := List.cons.inj heq
    obtain ⟨rfl, rfl⟩ := ProcessLabel.launch.inj hlaunch
    exact ⟨contents, List.cons.inj (List.append_inj' htail rfl).2 |>.1, hloads⟩
  · rintro ⟨contents, rfl, hloads⟩
    exact ⟨args, faults, as, contents, rfl, hloads⟩

end Loading

/-- **The last step.** What the steps before it keep decides about it. -/
theorem respectsLifetime_iff_of_inv {args : List String} {faults : LaunchFaults}
    {as : List ProcessLabel} {l : ProcessLabel} {s t : Process × List HandleEvent}
    (hs : Process.Inv args s) (h : logged Process.step s l = some t) :
    RespectsLifetime t.2 ↔ ¬ LoadsTasks (.launch args faults :: (as ++ [l])) := by
  have ht := Process.inv_step hs h
  obtain ⟨es', hstep, hes⟩ := logged_eq_some_iff.1 h
  obtain ⟨p, es⟩ := s
  obtain ⟨p', log⟩ := t
  rw [loadsTasks_iff]
  cases Process.move_of_step hstep with
  | launch => exact hs.elim
  | loop =>
    obtain ⟨-, hused, hquiet, -⟩ := ht
    refine iff_of_true ⟨hused, hquiet.visible⟩ ?_
    rintro ⟨_, heq, -⟩
    exact absurd heq (by simp)
  | stop =>
    obtain ⟨-, hused, hquiet, -⟩ := ht
    refine iff_of_true ⟨hused, hquiet.visible⟩ ?_
    rintro ⟨_, heq, -⟩
    exact absurd heq (by simp)
  | @finish f contents =>
    obtain ⟨hstart, hused, hquiet, hd⟩ := hs
    rw [hes, respectsLifetime_finish_iff hstart hd hused hquiet]
    simp

/-- **The lifetime of the queue.** For every command line and every sequence of events, it is
respected exactly if the run does not come to load tasks. -/
theorem queue_lifetime_iff {as : List ProcessLabel} {p : Process} {es : List HandleEvent}
    (h : Run (logged Process.step) (.launched, []) as (p, es)) :
    RespectsLifetime es ↔ ¬ LoadsTasks as := by
  cases h with
  | nil =>
    refine iff_of_true ⟨usedWhileAlive_nil, noLoad_nil.visible⟩ ?_
    rintro ⟨_, _, _, _, heq, -⟩
    exact absurd heq (by simp)
  | @cons _ s _ a as ha hr =>
    obtain ⟨es₁, hstep, hlog⟩ := logged_eq_some_iff.1 ha
    obtain ⟨p₁, log⟩ := s
    obtain rfl : log = es₁ := hlog
    cases Process.move_of_step hstep with
    | @launch args faults _ _ hlaunch =>
      obtain ⟨hinv, hused, hquiet⟩ := Process.inv_launch hlaunch
      rcases List.eq_nil_or_concat as with rfl | ⟨front, l, rfl⟩
      · cases hr
        refine iff_of_true ⟨hused, hquiet.visible⟩ ?_
        rintro ⟨_, _, _, _, heq, -⟩
        exact absurd heq (by simp)
      · rw [List.concat_eq_append] at hr ⊢
        obtain ⟨s, hfront, hlast⟩ := hr.split
        cases hlast with
        | cons hl hnil =>
          cases hnil
          exact respectsLifetime_iff_of_inv (hfront.invariant Process.inv_step hinv) hl

/-- The line that asks for one task. -/
def oneTask : List UInt8 := [0x31, 0x20, 0x31, 0x20, 0x38, 0x20, 0x38, newline]

/-- Without a task file nothing is loaded, whatever there is to read. -/
theorem queue_lifetime_iff_no_tasks :
    Run (logged Process.step) (.launched, [])
        [.launch [] {}, .stop, .finish (some oneTask)]
        (.exited, [.created, .shutdown, .destroyed]) ∧
      RespectsLifetime [.created, .shutdown, .destroyed] := by
  have hrun : Run (logged Process.step) (.launched, [])
      [.launch [] {}, .stop, .finish (some oneTask)]
      (.exited, [.created, .shutdown, .destroyed]) := run_of_exec rfl
  refine ⟨hrun, (queue_lifetime_iff hrun).2 ?_⟩
  rintro ⟨args, faults, as, contents, heq, ⟨name, o, ho, hname⟩, -⟩
  obtain ⟨rfl, -⟩ := ProcessLabel.launch.inj (List.cons.inj heq).1
  obtain rfl := Option.some.inj ho
  exact absurd hname (by simp)

/-- The task of that line. -/
def loadedTask : Task :=
  { taskId := 1, modelId := 1, inputSize := 8, outputSize := 8, apiVersion := 1, traceId := 1,
    timeoutSecs := 300 }

/-- A coordinator that is stopped by a signal loads its task file into the queue it has
destroyed. -/
theorem tasks_loaded_after_destroy :
    Run (logged Process.step) (.launched, [])
        [.launch ["--tasks", "tasks.txt"] {}, .stop, .finish (some oneTask)]
        (.exited, [.created, .shutdown, .destroyed, .load loadedTask]) ∧
      ¬ RespectsLifetime [.created, .shutdown, .destroyed, .load loadedTask] := by
  refine ⟨run_of_exec rfl, ?_⟩
  have hd : HandleEvent.destroyed ∈ [HandleEvent.created, .shutdown, .destroyed] := by simp
  exact not_respectsLifetime_destroyed hd _ []

end DistributedComputing
