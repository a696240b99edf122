import DistributedComputing.Coordinator.Departure

/-!
# How many tasks one batch can take

`create_task_batch` fills an array that its caller has declared with 100 elements, up to a limit its
caller takes from the worker's registration. The limit is a 32-bit word of the registration's
payload, and nobody compares it with 100: a batch is the front of the queue, cut off at the limit
(`createTaskBatch_eq`), so it fits the array exactly if the limit does or the queue is short enough
(`createTaskBatch_fits_iff`). A cluster head of 21 ranks registers with a limit of 105.

The limit that counts is that of a registration received earlier from the same worker,
`Message.batchLimit` of its bytes; `registeredIn_of_run` carries this through the loop. The function
is connected with the loop, where other threads get their turns between the rounds of
`create_task_batch`, by `run_collect` and `run_collect_overrun`: left alone, the loop collects
exactly this batch and goes on, or writes past the array.
-/

namespace DistributedComputing

open StepRun

namespace Coordinator

/-! ### The function -/

/-- `create_task_batch`: the tasks stored, one after the other from `batch[0]` on, and the queue
afterwards. -/
def createTaskBatch : ValidQueue → ℕ → List Task × ValidQueue
  | q, 0 => ([], q)
  | q, n + 1 =>
    match q.dequeue with
    | (none, _) => ([], q)
    | (some t, q') => (t :: (createTaskBatch q' n).1, (createTaskBatch q' n).2)

theorem createTaskBatch_of_nil {q : ValidQueue} (h : q.tasks = []) (n : ℕ) :
    createTaskBatch q n = ([], q) := by
  cases n with
  | zero => rfl
  | succ n => rw [createTaskBatch, ValidQueue.dequeue_of_nil h]

theorem createTaskBatch_of_cons {q : ValidQueue} {t : Task} {ts : List Task}
    (h : q.tasks = t :: ts) (n : ℕ) :
    createTaskBatch q (n + 1) =
      (t :: (createTaskBatch q.dequeue.2 n).1, (createTaskBatch q.dequeue.2 n).2) := by
  obtain ⟨hfst, -, -⟩ := ValidQueue.dequeue_of_cons h
  rw [createTaskBatch, show q.dequeue = (some t, q.dequeue.2) from Prod.ext hfst rfl]

/-- **The batch is the front of the queue**, and the rest stays queued. -/
theorem createTaskBatch_eq (q : ValidQueue) (n : ℕ) :
    (createTaskBatch q n).1 = q.tasks.take n ∧ (createTaskBatch q n).2.tasks = q.tasks.drop n ∧
      TaskQueue.SameConfig q.1 (createTaskBatch q n).2.1 := by
  induction n generalizing q with
  | zero => exact ⟨rfl, rfl, rfl, rfl⟩
  | succ n ih =>
    rcases htasks : q.tasks with - | ⟨t, ts⟩
    · rw [createTaskBatch_of_nil htasks, htasks]
      exact ⟨rfl, rfl, rfl, rfl⟩
    · obtain ⟨-, hrest, hcfg⟩ := ValidQueue.dequeue_of_cons htasks
      obtain ⟨h1, h2, h3⟩ := ih q.dequeue.2
      rw [createTaskBatch_of_cons htasks, h1, h2, hrest]
      exact ⟨rfl, rfl, h3.maxSize.trans hcfg.maxSize,
        h3.allowDuplicates.trans hcfg.allowDuplicates⟩

theorem length_createTaskBatch (q : ValidQueue) (n : ℕ) :
    (createTaskBatch q n).1.length = min n q.tasks.length := by
  rw [(createTaskBatch_eq q n).1, List.length_take]

/-! ### The rounds of the loop -/

variable {c c' : Coordinator} {w : WorkerInfo} {rest : List WorkerInfo} {batch : List Task}

theorem next_collect (hpc : c.pc = .collect w rest batch) :
    c.next .internal = some (c.collectStep w rest batch) := by
  rw [next, step, internalStep, hpc]
  rfl

theorem collectStep_done (h : maxBatch w ≤ batch.length ∨ c.queue.tasks = []) :
    c.collectStep w rest batch = c.finishBatch w rest batch := by
  rw [collectStep]
  split
  · next hlt =>
    rw [ValidQueue.dequeue_of_nil (h.resolve_left (Nat.not_le.2 hlt))]
  · rfl

/-- The next task goes into the array, or past its end. -/
theorem collectStep_task {t : Task} {ts : List Task} (hlt : batch.length < maxBatch w)
    (htasks : c.queue.tasks = t :: ts) :
    c.collectStep w rest batch =
      if batch.length < batchCapacity then
        { c with queue := c.queue.dequeue.2, pc := .collect w rest (batch ++ [t]) }
      else { c with queue := c.queue.dequeue.2, pc := .overrun } := by
  obtain ⟨hfst, -, -⟩ := ValidQueue.dequeue_of_cons htasks
  rw [collectStep, if_pos hlt, show c.queue.dequeue = (some t, c.queue.dequeue.2) from
    Prod.ext hfst rfl]

/-- **The loop collects the batch**, if it fits the array. By induction on what is left of the
limit. -/
theorem run_collect {n : ℕ} (hpc : c.pc = .collect w rest batch)
    (hn : batch.length + n = maxBatch w)
    (hcap : batch.length + (createTaskBatch c.queue n).1.length ≤ batchCapacity) :
    Run next c (List.replicate ((createTaskBatch c.queue n).1.length + 1) .internal)
      (finishBatch { c with queue := (createTaskBatch c.queue n).2 } w rest
        (batch ++ (createTaskBatch c.queue n).1)) := by
  induction n generalizing c batch with
  | zero =>
    rw [createTaskBatch, List.append_nil]
    refine .cons (next_collect hpc) ?_
    rw [collectStep_done (.inl (Nat.le_of_eq hn.symm))]
    exact .nil _
  | succ n ih =>
    rcases htasks : c.queue.tasks with - | ⟨t, ts⟩
    · rw [createTaskBatch_of_nil htasks, List.append_nil]
      refine .cons (next_collect hpc) ?_
      rw [collectStep_done (.inr htasks)]
      exact .nil _
    · rw [createTaskBatch_of_cons htasks] at hcap ⊢
      dsimp only at hcap ⊢
      rw [List.length_cons] at hcap
      refine .cons (next_collect hpc) ?_
      rw [collectStep_task (by omega) htasks, if_pos (by omega),
        List.append_cons batch t (createTaskBatch c.queue.dequeue.2 n).1]
      have hlen : (batch ++ [t]).length = batch.length + 1 := List.length_append
      exact ih (c := { c with queue := c.queue.dequeue.2, pc := .collect w rest (batch ++ [t]) })
        rfl (by omega) (by dsimp only; omega)

/-- **Or it runs past the end** of the array: the round for the 101st task has no further step. -/
theorem run_collect_overrun {n : ℕ} (hpc : c.pc = .collect w rest batch)
    (hn : batch.length + n = maxBatch w) (hle : batch.length ≤ batchCapacity)
    (hcap : batchCapacity < batch.length + (createTaskBatch c.queue n).1.length) :
    ∃ c', Run next c (List.replicate (batchCapacity - batch.length + 1) .internal) c' ∧
      c'.pc = .overrun := by
  induction n generalizing c batch with
  | zero => exact absurd hcap (Nat.not_lt.2 hle)
  | succ n ih =>
    rcases htasks : c.queue.tasks with - | ⟨t, ts⟩
    · rw [createTaskBatch_of_nil htasks] at hcap
      exact absurd hcap (Nat.not_lt.2 hle)
    · have hstep := next_collect hpc
      rw [collectStep_task (by omega) htasks] at hstep
      rcases Nat.lt_or_ge batch.length batchCapacity with hlt | hge
      · rw [if_pos hlt] at hstep
        rw [createTaskBatch_of_cons htasks] at hcap
        dsimp only at hcap
        rw [List.length_cons] at hcap
        have hlen : (batch ++ [t]).length = batch.length + 1 := List.length_append
        obtain ⟨c', hrun, hover⟩ := ih (c := { c with
            queue := c.queue.dequeue.2, pc := .collect w rest (batch ++ [t]) })
          rfl (by omega) (by omega) (by dsimp only; omega)
        refine ⟨c', ?_, hover⟩
        rw [show batchCapacity - batch.length + 1 =
          batchCapacity - (batch ++ [t]).length + 1 + 1 by omega]
        exact .cons hstep hrun
      · rw [if_neg (Nat.not_lt.2 hge)] at hstep
        rw [show batchCapacity - batch.length + 1 = 1 by omega]
        exact ⟨_, .cons hstep (.nil _), rfl⟩

/-! ### Where the limit comes from -/

end Coordinator

/-- The limit `handle_worker_register` stores for the sender of a registration, and
`run_coordinator` reads: the second word of the payload, 10 if it is missing or zero. -/
def Message.batchLimit (msg : Message) : ℕ :=
  if 12 ≤ msg.header.payloadLen.toNat then
    if UInt32.ofNat (MessageHeader.field msg.payload 4 4) = 0 then 10
    else (UInt32.ofNat (MessageHeader.field msg.payload 4 4)).toNat
  else 10

/-- Only a registration is handled as one. -/
theorem Message.incoming_eq_register {msg : Message} {caps : Option Capabilities}
    (h : msg.incoming = .register caps) :
    msg.header.msgType = msgTypeWorkerRegister ∧
      ∀ src now, Coordinator.maxBatch (Scheduler.registerInfo src caps now) = msg.batchLimit := by
  rw [Message.incoming] at h
  split at h
  · next htype =>
    cases h
    refine ⟨htype, fun src now => ?_⟩
    rw [Message.batchLimit, Coordinator.maxBatch, Scheduler.registerInfo]
    split
    · next hlen =>
      dsimp only [Option.getD_some]
      split
      · rfl
      · next hne => rw [if_pos (UInt32.pos_iff_ne_zero.2 hne)]
    · rfl
  · split at h
    · cases h
    · split at h
      · cases h
      · cases h

namespace Coordinator

variable {c c' : Coordinator} {w : WorkerInfo} {rest : List WorkerInfo}

/-- The loop on messages as the transport returns them. -/
def nextMessage (c : Coordinator) (l : MessageLabel) : Option Coordinator := c.next l.label

/-- A registration of the worker with this limit is among the messages received. -/
def RegisteredIn (ls : List MessageLabel) (w : WorkerInfo) : Prop :=
  ∃ msg now registeredAt, .recv (some (w.workerId, msg)) now registeredAt ∈ ls ∧
    msg.header.msgType = msgTypeWorkerRegister ∧ maxBatch w = msg.batchLimit

theorem ofRegistration_registeredIn (ls : List MessageLabel) :
    OfRegistration (RegisteredIn ls) := by
  intro v w hid hsize hv
  rw [RegisteredIn, maxBatch, hid, hsize]
  exact hv

/-- What a registration message leaves in the table. -/
theorem registeredIn_of_label {ls : List MessageLabel} {l : MessageLabel} {src : UInt32}
    {caps : Option Capabilities} {now registeredAt : Time} (hl : l ∈ ls)
    (hlabel : l.label = .recv (some (src, .register caps)) now registeredAt) :
    RegisteredIn ls (Scheduler.registerInfo src caps now) := by
  cases l with
  | recv msg now' registeredAt' =>
    rcases msg with - | ⟨src', msg⟩
    · cases hlabel
    · have hreg : msg.incoming = .register caps := by
        injection hlabel with hmsg
        exact (Prod.mk.inj (Option.some.inj hmsg)).2
      have hsrc : src' = src := by
        injection hlabel with hmsg
        exact (Prod.mk.inj (Option.some.inj hmsg)).1
      obtain ⟨htype, hlimit⟩ := Message.incoming_eq_register hreg
      refine ⟨msg, now', registeredAt', ?_, htype, hlimit src now⟩
      rw [show (Scheduler.registerInfo src caps now).workerId = src' from hsrc.symm]
      exact hl
  | enqueue | internal | send | timeouts => cases hlabel

/-- **Every worker has registered with its limit.** By induction on the run; `ls₀` are the labels
before it. -/
theorem registeredIn_of_run {ls₀ ls : List MessageLabel} (h : Run nextMessage c ls c')
    (hw : ∀ w ∈ c.sched.workers, RegisteredIn ls₀ w) (hp : ∀ w ∈ c.pc.pending, RegisteredIn ls₀ w) :
    (∀ w ∈ c'.sched.workers, RegisteredIn (ls₀ ++ ls) w) ∧
      ∀ w ∈ c'.pc.pending, RegisteredIn (ls₀ ++ ls) w := by
  induction h generalizing ls₀ with
  | nil c =>
    rw [List.append_nil]
    exact ⟨hw, hp⟩
  | @cons c d _ l ls hstep _ ih =>
    have hmono : ∀ w, RegisteredIn ls₀ w → RegisteredIn (ls₀ ++ [l]) w := by
      rintro w ⟨msg, now, registeredAt, hmem, hreg⟩
      exact ⟨msg, now, registeredAt, List.mem_append_left [l] hmem, hreg⟩
    obtain ⟨es, ht⟩ := transition_of_next hstep
    obtain ⟨hw', hp'⟩ := forall_workers_step (ofRegistration_registeredIn (ls₀ ++ [l])) ht
      (fun _ _ _ _ hlabel => registeredIn_of_label (by simp) hlabel)
      (fun w hmem => hmono w (hw w hmem)) fun w hmem => hmono w (hp w hmem)
    rw [List.append_cons]
    exact ih hw' hp'

/-- **When a batch fits.** The limit of the worker that is about to be served is that of a
registration it has sent, and the call of `create_task_batch` for it stores at most 100 tasks
exactly if that limit, or the number of queued tasks, is at most 100. -/
theorem createTaskBatch_fits_iff {ls : List MessageLabel} (h : Run nextMessage init ls c)
    (hpc : c.pc = .dispatch (w :: rest)) :
    ∃ msg now registeredAt, .recv (some (w.workerId, msg)) now registeredAt ∈ ls ∧
      msg.header.msgType = msgTypeWorkerRegister ∧ maxBatch w = msg.batchLimit ∧
      ((createTaskBatch c.queue (maxBatch w)).1.length ≤ batchCapacity ↔
        msg.batchLimit ≤ batchCapacity ∨ c.queue.tasks.length ≤ batchCapacity) := by
  obtain ⟨-, hp⟩ :=
    registeredIn_of_run h (List.forall_mem_nil (RegisteredIn [])) (List.forall_mem_nil _)
  rw [hpc] at hp
  obtain ⟨msg, now, registeredAt, hmem, htype, hlimit⟩ := hp w List.mem_cons_self
  refine ⟨msg, now, registeredAt, hmem, htype, hlimit, ?_⟩
  rw [length_createTaskBatch, hlimit, min_le_iff]

/-! ### A registration that asks for too much -/

/-- A `WORKER_REGISTER` of one rank with the given word as its batch limit. -/
def registrationMessage (maxBatchSize : UInt8) : Message where
  header := ⟨messageMagic, envelopeVersion, msgTypeWorkerRegister, 0, 12⟩
  payload := [1, 0, 0, 0, maxBatchSize, 0, 0, 0, 0, 0, 0, 0]
  payloadCapacity := 12

/-- The labels that enqueue `n` tasks. -/
def enqueueLabels (n : ℕ) : List MessageLabel :=
  (List.range n).map fun i => .enqueue { taskId := .ofNat i }

/-- A queue with room takes them all. -/
theorem run_enqueueLabels {n : ℕ} (hn : n ≤ c.queue.1.maxSize) (hsize : n < 2 ^ 64)
    (hnil : c.queue.tasks = []) :
    ∃ c', Run nextMessage c (enqueueLabels n) c' ∧ c'.sched = c.sched ∧ c'.pc = c.pc ∧
      c'.queue.tasks.length = n ∧ (∀ t ∈ c'.queue.tasks, t.taskId.toNat < n) ∧
      c'.queue.1.maxSize = c.queue.1.maxSize := by
  induction n with
  | zero => exact ⟨c, .nil c, rfl, rfl, by rw [hnil]; rfl, by simp [hnil], rfl⟩
  | succ n ih =>
    obtain ⟨d, hrun, hsched, hpc, hlen, hids, hmax⟩ := ih (by omega) (by omega)
    have hid : (UInt64.ofNat n).toNat = n := by
      rw [UInt64.toNat_ofNat', Nat.mod_eq_of_lt (by omega)]
    have hacc : d.queue.Accepts { taskId := .ofNat n } := by
      refine ⟨Bool.eq_false_iff.2 fun hfull => ?_, fun _ hmem => ?_⟩
      · obtain ⟨-, hle⟩ := (TaskQueue.isFull_iff d.queue.1).1 hfull
        rw [← d.queue.length_tasks, hlen, hmax] at hle
        omega
      · obtain ⟨t, ht, heq⟩ := List.mem_map.1 hmem
        have hlt := hids t ht
        rw [heq] at hlt
        dsimp only at hlt
        omega
    obtain ⟨hrc, htasks, hcfg⟩ := ValidQueue.enqueue_of_accepts hacc
    have hperm := ValidQueue.insertTask_perm { taskId := .ofNat n } d.queue.tasks
    refine ⟨{ d with queue := (d.queue.enqueue { taskId := .ofNat n }).2 }, ?_, hsched, hpc, ?_, ?_,
      hcfg.maxSize.trans hmax⟩
    · rw [enqueueLabels, List.range_succ, List.map_append]
      exact hrun.append (.cons rfl (.nil _))
    · show ((d.queue.enqueue _).2.tasks).length = n + 1
      rw [htasks, hperm.length_eq, List.length_cons, hlen]
    · intro t ht
      change t ∈ (d.queue.enqueue { taskId := .ofNat n }).2.tasks at ht
      rw [htasks] at ht
      rcases List.mem_cons.1 (hperm.subset ht) with rfl | ht
      · show (UInt64.ofNat n).toNat < n + 1
        omega
      · exact Nat.lt_succ_of_lt (hids t ht)

/-- A worker with a small limit, and a queue of three. -/
theorem createTaskBatch_fits_small :
    ∃ c w, Run nextMessage init
        ([.recv (some (7, registrationMessage 5)) 0 0, .internal] ++ enqueueLabels 3) c ∧
      c.pc = .dispatch [w] ∧ (createTaskBatch c.queue (maxBatch w)).1.length ≤ batchCapacity := by
  obtain ⟨d, w, hrun, hpc, hnil, hmax⟩ : ∃ d w, Run nextMessage init
      [.recv (some (7, registrationMessage 5)) 0 0, .internal] d ∧ d.pc = .dispatch [w] ∧
      d.queue.tasks = [] ∧ d.queue.1.maxSize = 10000 :=
    ⟨_, _, run_get (by decide), rfl, by decide, by decide⟩
  obtain ⟨c, hrun', -, hpc', hlen, -⟩ := run_enqueueLabels (n := 3) (by omega) (by decide) hnil
  obtain ⟨msg, -, -, -, -, -, hiff⟩ := createTaskBatch_fits_iff (hrun.append hrun') (hpc'.trans hpc)
  refine ⟨c, w, hrun.append hrun', hpc'.trans hpc, hiff.2 (.inr ?_)⟩
  rw [hlen]
  decide

/-- A worker registers with a limit of 101, and 101 tasks are queued: one call stores 101 tasks, and
the loop writes past its array. -/
theorem createTaskBatch_overruns :
    ∃ c w, Run nextMessage init
        ([.recv (some (7, registrationMessage 101)) 0 0, .internal] ++ enqueueLabels 101) c ∧
      c.pc = .dispatch [w] ∧ (createTaskBatch c.queue (maxBatch w)).1.length = 101 ∧
      ∃ c', Run next c (List.replicate 102 .internal) c' ∧ c'.pc = .overrun := by
  obtain ⟨d, w, hrun, hpc, hnil, hmax, hlimit⟩ : ∃ d w, Run nextMessage init
      [.recv (some (7, registrationMessage 101)) 0 0, .internal] d ∧ d.pc = .dispatch [w] ∧
      d.queue.tasks = [] ∧ d.queue.1.maxSize = 10000 ∧ maxBatch w = 101 :=
    ⟨_, _, run_get (by decide), rfl, by decide, by decide, by decide⟩
  obtain ⟨c, hrun', -, hpc', hlen, -⟩ := run_enqueueLabels (n := 101) (by omega) (by decide) hnil
  have hstored : (createTaskBatch c.queue (maxBatch w)).1.length = 101 := by
    rw [length_createTaskBatch, hlimit, hlen]
    rfl
  have hempty : ¬ c.queue.isEmpty = true := fun h => by
    rw [ValidQueue.isEmpty_iff.1 h] at hlen
    cases hlen
  have hstep : c.next .internal = some { c with pc := .collect w [] [] } := by
    rw [next, step, internalStep, hpc'.trans hpc]
    dsimp only
    rw [if_neg hempty]
    rfl
  obtain ⟨c', hrun'', hover⟩ := run_collect_overrun (c := { c with pc := .collect w [] [] })
    (n := maxBatch w) rfl (Nat.zero_add _) (Nat.zero_le _) (by rw [hstored]; decide)
  exact ⟨c, w, hrun.append hrun', hpc'.trans hpc, hstored, c', .cons hstep hrun'', hover⟩

end Coordinator

end DistributedComputing
