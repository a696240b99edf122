import DistributedComputing.Net.Attribution

/-!
# The numbers of the workers

The coordinator knows a worker by its index in the registry of the ZeroMQ transport, and the
scheduler uses that index as the worker's id for good. `worker_numbers` is what makes this work,
over every sequence of registrations and heartbeats from identities that fit an entry. It rests on
`Numbered`, which relates the registry to the registrations so far: entries are only appended, and
`firstRegistrations` is what the registry should then hold.

`IdentityString` is the strings that fit. What a peer sends need not be one: `identity_frames_iff`
says for any two identity frames what `transport_zmq_recv` makes of them. The buffer has room for 63
bytes and a zero, but the zero is written at the size of the **frame**, which can be more; and
everything is compared as a string, so that frames that differ behind a zero byte only are one
worker.
-/

namespace DistributedComputing

open Bytes KeyedTable StepRun

/-! ### Registration -/

/-- The size of the identity of an entry, and of the identity buffer of `transport_zmq_recv`. -/
def identitySize : ℕ := 64

/-- The strings that fit an entry. -/
@[ext] structure IdentityString where
  bytes : List UInt8
  no_zero : 0 ∉ bytes
  length_le : bytes.length ≤ identitySize - 1
  deriving Repr

instance : DecidableEq IdentityString := fun _ _ => decidable_of_iff _ IdentityString.ext_iff.symm

/-- `zmq_register_worker`, with the copy into the new entry. -/
def zmqRegisterWorker (workers : List WorkerEntry) (identity : List UInt8) (now : UInt64) :
    ℤ × List WorkerEntry :=
  match registryIndex workers (cString identity) with
  | some i =>
    (i, update WorkerEntry.identity (cString identity)
      (fun w => { w with lastHeartbeat := now, active := true }) workers)
  | none =>
    if maxRegistered ≤ workers.length then (-1, workers)
    else
      (workers.length,
        workers ++ [{ identity := strncpy (identitySize - 1) identity, lastHeartbeat := now }])

section Registration

variable {workers : List WorkerEntry} {i : IdentityString} {now : UInt64}

/-- Nothing of an identity that fits is lost in the copy. -/
theorem zmqRegisterWorker_eq (workers : List WorkerEntry) (i : IdentityString) (now : UInt64) :
    zmqRegisterWorker workers i.bytes now = registerIdentity workers i.bytes now := by
  rw [zmqRegisterWorker, cString_eq_self i.no_zero, strncpy_eq_self i.no_zero i.length_le]
  rfl

theorem zmqRegisterWorker_of_known {k : ℕ} (h : registryIndex workers i.bytes = some k) :
    zmqRegisterWorker workers i.bytes now =
      ((k : ℤ), update WorkerEntry.identity i.bytes
        (fun w => { w with lastHeartbeat := now, active := true }) workers) := by
  rw [zmqRegisterWorker_eq, registerIdentity, h]

theorem zmqRegisterWorker_of_full (h : registryIndex workers i.bytes = none)
    (hfull : maxRegistered ≤ workers.length) :
    zmqRegisterWorker workers i.bytes now = (-1, workers) := by
  rw [zmqRegisterWorker_eq, registerIdentity, h]
  exact if_pos hfull

theorem zmqRegisterWorker_of_new (h : registryIndex workers i.bytes = none)
    (hroom : workers.length < maxRegistered) :
    zmqRegisterWorker workers i.bytes now =
      ((workers.length : ℤ), workers ++ [{ identity := i.bytes, lastHeartbeat := now }]) := by
  rw [zmqRegisterWorker_eq, registerIdentity, h]
  exact if_neg (Nat.not_le.2 hroom)

theorem registryIndex_eq_some_iff (hnd : (workers.map WorkerEntry.identity).Nodup)
    {identity : List UInt8} {k : ℕ} :
    registryIndex workers identity = some k ↔
      (workers.map WorkerEntry.identity)[k]? = some identity := by
  rw [registryIndex, List.findIdx?_eq_some_iff_getElem]
  constructor
  · rintro ⟨hk, heq, -⟩
    rw [List.getElem?_map, List.getElem?_eq_getElem hk]
    exact congrArg some (of_decide_eq_true heq)
  · intro h
    obtain ⟨hk, heq⟩ := List.getElem?_eq_some_iff.1 h
    have hk' : k < workers.length := by rwa [List.length_map] at hk
    rw [List.getElem_map] at heq
    refine ⟨hk', decide_eq_true heq, fun j hj hjeq => ?_⟩
    -- an earlier entry with the identity would be a second one
    refine List.nodup_iff_getElem?_ne_getElem?.1 hnd j k hj hk (Eq.trans ?_ h.symm)
    rw [List.getElem?_map, List.getElem?_eq_getElem (hj.trans hk')]
    exact congrArg some (of_decide_eq_true hjeq)

end Registration

/-! ### Registrations in sequence -/

/-- A registration or a heartbeat. -/
inductive RegistryLabel
  | register (i : IdentityString) (now : UInt64)
  | heartbeat (i : IdentityString) (now : UInt64)
  deriving DecidableEq, Repr

/-- A registration, with what it returned. -/
abbrev Registration := IdentityString × ℤ

/-- One call. -/
def registryStep (workers : List WorkerEntry) :
    RegistryLabel → Option (List WorkerEntry × List Registration)
  | .register i now =>
    let r := zmqRegisterWorker workers i.bytes now
    some (r.2, [(i, r.1)])
  | .heartbeat i now => some (updateIdentity workers i.bytes now, [])

/-- The first successful registration of each identity, in order. -/
def firstRegistrations (log : List Registration) : List Registration :=
  log.foldl
    (fun firsts r =>
      if 0 ≤ r.2 ∧ r.1 ∉ firsts.map Prod.fst then firsts ++ [r] else firsts) []

theorem firstRegistrations_concat (log : List Registration) (r : Registration) :
    firstRegistrations (log ++ [r]) =
      if 0 ≤ r.2 ∧ r.1 ∉ (firstRegistrations log).map Prod.fst then firstRegistrations log ++ [r]
      else firstRegistrations log := by
  rw [firstRegistrations, List.foldl_append]
  rfl

/-- The registry holds the identities of the first registrations, in order, and these returned the
indices of the entries. Every later registration returned the same. -/
structure Numbered (s : List WorkerEntry × List Registration) : Prop where
  length_le : s.1.length ≤ maxRegistered
  nodup : (s.1.map WorkerEntry.identity).Nodup
  identities : (firstRegistrations s.2).map (fun r => r.1.bytes) = s.1.map WorkerEntry.identity
  indices : (firstRegistrations s.2).map Prod.snd = (List.range s.1.length).map Nat.cast
  mem_firsts : ∀ r ∈ s.2, 0 ≤ r.2 → r ∈ firstRegistrations s.2
  stable : s.2.Pairwise fun r r' => r'.1 = r.1 → 0 ≤ r.2 → r'.2 = r.2

theorem numbered_nil : Numbered ([], []) where
  length_le := Nat.zero_le _
  nodup := List.nodup_nil
  identities := rfl
  indices := rfl
  mem_firsts := List.forall_mem_nil _
  stable := .nil

namespace Numbered

variable {workers workers' : List WorkerEntry} {log : List Registration} {i : IdentityString}
  {now : UInt64} {k : ℕ}

/-- **The first registrations are the registry.** -/
theorem mem_iff (h : Numbered (workers, log)) :
    (i, (k : ℤ)) ∈ firstRegistrations log ↔ registryIndex workers i.bytes = some k := by
  -- the index that a first registration returned is its position
  have hpos : ∀ {j : ℕ} {r : Registration}, (firstRegistrations log)[j]? = some r → r.2 = j := by
    intro j r hj
    have hmap : ((firstRegistrations log).map Prod.snd)[j]? = some r.2 := by
      rw [List.getElem?_map, hj]
      rfl
    rw [h.indices, List.getElem?_map] at hmap
    obtain ⟨m, hm, hr⟩ := Option.map_eq_some_iff.1 hmap
    obtain ⟨_, hjm⟩ := List.getElem?_eq_some_iff.1 hm
    rw [List.getElem_range] at hjm
    rw [← hr, ← hjm]
  rw [registryIndex_eq_some_iff h.nodup, ← h.identities, List.getElem?_map, List.mem_iff_getElem?]
  constructor
  · rintro ⟨j, hj⟩
    have hkj : (k : ℤ) = j := hpos hj
    rw [Int.ofNat_inj.1 hkj, hj]
    rfl
  · intro hk
    obtain ⟨r, hr, hbytes⟩ := Option.map_eq_some_iff.1 hk
    refine ⟨k, hr.trans (congrArg some ?_)⟩
    exact Prod.ext (IdentityString.ext hbytes) (hpos hr)

theorem mem_map_fst_iff (h : Numbered (workers, log)) :
    i ∈ (firstRegistrations log).map Prod.fst ↔ registryIndex workers i.bytes ≠ none := by
  rw [Ne, registryIndex_eq_none_iff, not_not, ← h.identities, List.mem_map, List.mem_map]
  constructor
  · rintro ⟨r, hr, rfl⟩
    exact ⟨r, hr, rfl⟩
  · rintro ⟨r, hr, hbytes⟩
    exact ⟨r, hr, IdentityString.ext hbytes⟩

theorem registryIndex_of_mem (h : Numbered (workers, log)) {c : ℤ} (hmem : (i, c) ∈ log)
    (hc : 0 ≤ c) : registryIndex workers i.bytes = some c.toNat := by
  refine h.mem_iff.1 ?_
  rw [Int.toNat_of_nonneg hc]
  exact h.mem_firsts _ hmem hc

theorem code_of_mem (h : Numbered (workers, log)) {c : ℤ} (hmem : (i, c) ∈ log) (hc : 0 ≤ c) :
    (zmqRegisterWorker workers i.bytes now).1 = c := by
  rw [zmqRegisterWorker_of_known (h.registryIndex_of_mem hmem hc)]
  exact Int.toNat_of_nonneg hc

theorem stable_concat (h : Numbered (workers, log)) :
    (log ++ [(i, (zmqRegisterWorker workers i.bytes now).1)]).Pairwise
      fun r r' => r'.1 = r.1 → 0 ≤ r.2 → r'.2 = r.2 := by
  refine List.pairwise_append.2 ⟨h.stable, List.pairwise_singleton _ _, fun r hr r' hr' => ?_⟩
  rw [List.mem_singleton.1 hr']
  rintro rfl hc
  exact h.code_of_mem hr hc

theorem of_same (h : Numbered (workers, log))
    (hmap : workers'.map WorkerEntry.identity = workers.map WorkerEntry.identity) {r : Registration}
    (hmem : 0 ≤ r.2 → r ∈ firstRegistrations log)
    (hstable : (log ++ [r]).Pairwise fun r r' => r'.1 = r.1 → 0 ≤ r.2 → r'.2 = r.2) :
    Numbered (workers', log ++ [r]) := by
  have hlen : workers'.length = workers.length := by
    rw [← List.length_map WorkerEntry.identity, hmap, List.length_map]
  have hfirsts : firstRegistrations (log ++ [r]) = firstRegistrations log := by
    rw [firstRegistrations_concat, if_neg]
    rintro ⟨hc, hnot⟩
    exact hnot (List.mem_map_of_mem (hmem hc))
  refine ⟨hlen.trans_le h.length_le, hmap ▸ h.nodup, ?_, ?_, fun r' hr' hc => ?_, hstable⟩
  · rw [hfirsts, hmap, h.identities]
  · rw [hfirsts, hlen, h.indices]
  · rw [hfirsts]
    rcases List.mem_append.1 hr' with hold | hnew
    · exact h.mem_firsts r' hold hc
    · rw [List.mem_singleton.1 hnew] at hc ⊢
      exact hmem hc

/-- **A new entry.** -/
theorem of_new (h : Numbered (workers, log)) (hnone : registryIndex workers i.bytes = none)
    (hroom : workers.length < maxRegistered)
    (hstable : (log ++ [(i, (workers.length : ℤ))]).Pairwise
      fun r r' => r'.1 = r.1 → 0 ≤ r.2 → r'.2 = r.2) :
    Numbered (workers ++ [{ identity := i.bytes, lastHeartbeat := now }],
      log ++ [(i, (workers.length : ℤ))]) := by
  have hfirsts : firstRegistrations (log ++ [(i, (workers.length : ℤ))]) =
      firstRegistrations log ++ [(i, (workers.length : ℤ))] := by
    rw [firstRegistrations_concat, if_pos]
    exact ⟨Int.natCast_nonneg _, fun hmem => h.mem_map_fst_iff.1 hmem hnone⟩
  refine ⟨?_, ?_, ?_, ?_, fun r hr hc => ?_, hstable⟩
  · rw [List.length_append]
    exact hroom
  · rw [List.map_append, List.map_singleton, List.nodup_append]
    refine ⟨h.nodup, List.nodup_singleton _, fun a ha b hb => ?_⟩
    rw [List.mem_singleton.1 hb]
    rintro rfl
    exact registryIndex_eq_none_iff.1 hnone ha
  · rw [hfirsts, List.map_append, List.map_append, h.identities]
    rfl
  · rw [hfirsts, List.map_append, h.indices, List.length_append, List.length_singleton,
      List.range_succ, List.map_append]
    rfl
  · rw [hfirsts]
    rcases List.mem_append.1 hr with hold | hnew
    · exact List.mem_append_left _ (h.mem_firsts r hold hc)
    · exact List.mem_append_right _ hnew

theorem register (h : Numbered (workers, log)) (i : IdentityString) (now : UInt64) :
    Numbered ((zmqRegisterWorker workers i.bytes now).2,
      log ++ [(i, (zmqRegisterWorker workers i.bytes now).1)]) := by
  have hstable := @stable_concat workers log i now h
  rcases hidx : registryIndex workers i.bytes with - | k
  · rcases Nat.lt_or_ge workers.length maxRegistered with hroom | hfull
    · rw [zmqRegisterWorker_of_new hidx hroom] at hstable ⊢
      exact h.of_new hidx hroom hstable
    · rw [zmqRegisterWorker_of_full hidx hfull] at hstable ⊢
      exact h.of_same rfl (fun hc : (0 : ℤ) ≤ -1 => absurd hc (by decide)) hstable
  · rw [zmqRegisterWorker_of_known hidx] at hstable ⊢
    refine h.of_same (map_identity_update ?_) (fun _ => h.mem_iff.2 hidx) hstable
    exact fun _ => rfl

theorem heartbeat (h : Numbered (workers, log)) (i : IdentityString) (now : UInt64) :
    Numbered (updateIdentity workers i.bytes now, log) := by
  have hmap : (updateIdentity workers i.bytes now).map WorkerEntry.identity =
      workers.map WorkerEntry.identity := map_identity_update fun _ => rfl
  have hlen : (updateIdentity workers i.bytes now).length = workers.length := length_update
  refine ⟨hlen.trans_le h.length_le, hmap ▸ h.nodup, ?_, ?_, h.mem_firsts, h.stable⟩
  · rw [hmap]
    exact h.identities
  · rw [hlen]
    exact h.indices

/-- **One call keeps the numbers.** -/
theorem step {s t : List WorkerEntry × List Registration} {l : RegistryLabel} (h : Numbered s)
    (hs : logged registryStep s l = some t) : Numbered t := by
  obtain ⟨workers, log⟩ := s
  obtain ⟨es, hstep, hlog⟩ := logged_eq_some_iff.1 hs
  obtain ⟨workers', log'⟩ := t
  obtain rfl : log' = log ++ es := hlog
  cases l with
  | register i now =>
    obtain ⟨rfl, rfl⟩ := Prod.mk.inj (Option.some.inj hstep)
    exact h.register i now
  | heartbeat i now =>
    obtain ⟨rfl, rfl⟩ := Prod.mk.inj (Option.some.inj hstep)
    rw [List.append_nil]
    exact h.heartbeat i now

end Numbered

/-- **The numbers of the workers are stable and unique.** After every sequence of registrations and
heartbeats: a registration that returned an index is followed by registrations of the same identity
that return the same only; different identities have different indices; the first registrations
returned `0`, `1`, … in order, one for each entry of the registry; there are at most 1024 of them.
While there is room a new identity gets the next index and an entry at it, a full registry refuses
it and stays as it is, and a known identity still gets its index. -/
theorem worker_numbers {labels : List RegistryLabel} {workers : List WorkerEntry}
    {log : List Registration} (h : Run (logged registryStep) ([], []) labels (workers, log)) :
    (log.Pairwise fun r r' => r'.1 = r.1 → 0 ≤ r.2 → r'.2 = r.2) ∧
      (∀ r ∈ log, ∀ r' ∈ log, 0 ≤ r.2 → r'.2 = r.2 → r'.1 = r.1) ∧
      (firstRegistrations log).map (fun r => r.1.bytes) = workers.map WorkerEntry.identity ∧
      (firstRegistrations log).map Prod.snd = (List.range workers.length).map Nat.cast ∧
      workers.length ≤ 1024 ∧
      ∀ (i : IdentityString) (now : UInt64),
        (workers.length < 1024 → i.bytes ∉ workers.map WorkerEntry.identity →
          zmqRegisterWorker workers i.bytes now =
            ((workers.length : ℤ), workers ++ [{ identity := i.bytes, lastHeartbeat := now }])) ∧
        (workers.length = 1024 → i.bytes ∉ workers.map WorkerEntry.identity →
          zmqRegisterWorker workers i.bytes now = (-1, workers)) ∧
        ∀ c, (i, c) ∈ log → 0 ≤ c → (zmqRegisterWorker workers i.bytes now).1 = c := by
  have hnum : Numbered (workers, log) := h.invariant Numbered.step numbered_nil
  refine ⟨hnum.stable, ?_, hnum.identities, hnum.indices, hnum.length_le,
    fun i now => ⟨?_, ?_, ?_⟩⟩
  · rintro ⟨i, c⟩ hr ⟨j, c'⟩ hr' hc heq
    obtain rfl : c' = c := heq
    -- both stand at the same place of the registry
    have hi := (registryIndex_eq_some_iff hnum.nodup).1 (hnum.registryIndex_of_mem hr hc)
    have hj := (registryIndex_eq_some_iff hnum.nodup).1 (hnum.registryIndex_of_mem hr' hc)
    exact IdentityString.ext (Option.some.inj (hj.symm.trans hi))
  · exact fun hroom hnew =>
      zmqRegisterWorker_of_new (registryIndex_eq_none_iff.2 hnew) hroom
  · exact fun hfull hnew =>
      zmqRegisterWorker_of_full (registryIndex_eq_none_iff.2 hnew) hfull.ge
  · exact fun c hmem hc => hnum.code_of_mem hmem hc

/-- The identity `A`. -/
def identityA : IdentityString := ⟨[65], by decide, by decide⟩

/-- The identity `B`. -/
def identityB : IdentityString := ⟨[66], by decide, by decide⟩

/-- Two workers, the first of which registers again. A third one would get the index 2. -/
theorem worker_numbers_two :
    ∃ workers, Run (logged registryStep) ([], [])
        [.register identityA 0, .register identityB 1, .heartbeat identityB 2,
          .register identityA 3] (workers, [(identityA, 0), (identityB, 1), (identityA, 0)]) ∧
      (zmqRegisterWorker workers [67] 4).1 = 2 ∧ (zmqRegisterWorker workers [66] 4).1 = 1 := by
  have hrun : Run (logged registryStep) ([], [])
      [.register identityA 0, .register identityB 1, .heartbeat identityB 2,
        .register identityA 3] ([⟨[65], 3, true⟩, ⟨[66], 2, true⟩],
          [(identityA, 0), (identityB, 1), (identityA, 0)]) :=
    run_of_exec (by decide)
  have hnext := (worker_numbers hrun).2.2.2.2.2
  refine ⟨_, hrun, ?_, (hnext identityB 4).2.2 1 (by decide) (by decide)⟩
  rw [(hnext ⟨[67], by decide, by decide⟩ 4).1 (by decide) (by decide)]
  rfl

/-! ### Identity frames -/

/-- The identity buffer of `transport_zmq_recv` after a frame: `zmq_recv` has copied what fits in
front of the last byte, and a zero is written at the size of the frame. With a larger frame that is
outside the buffer. -/
def identityBuffer (frame : Frame) : Option (List UInt8) :=
  let copied := frame.take (identitySize - 1)
  let buffer := copied ++ List.replicate (identitySize - copied.length) 0
  if recvSize frame < identitySize then some (buffer.set (recvSize frame) 0) else none

/-- The index of the entry that a frame is mapped to. -/
def entryOf (workers : List WorkerEntry) (frame : Frame) : Option ℕ :=
  (identityBuffer frame).bind fun buffer => registryIndex workers (cString buffer)

section Frames

variable {f g : Frame}

/-- The zero is written into the buffer exactly after frames that leave room for it. -/
theorem recvSize_lt_iff : recvSize f < identitySize ↔ f.length < identitySize := by
  rw [recvSize, identitySize]
  omega

theorem identityBuffer_of_lt (h : f.length < identitySize) :
    identityBuffer f = some (f ++ List.replicate (identitySize - f.length) 0) := by
  have hsize : recvSize f = f.length := by
    rw [identitySize] at h
    rw [recvSize]
    omega
  have hpos : 0 < identitySize - f.length := Nat.sub_pos_of_lt h
  rw [identityBuffer, if_pos (recvSize_lt_iff.2 h), List.take_of_length_le (Nat.le_sub_one_of_lt h),
    hsize, List.set_append_right _ _ (Nat.le_refl _), Nat.sub_self]
  -- what is there is a zero already
  obtain ⟨n, hn⟩ := Nat.exists_eq_add_one.2 hpos
  rw [hn, List.replicate_succ, List.set_cons_zero]

theorem cString_identityBuffer (h : f.length < identitySize) :
    cString (f ++ List.replicate (identitySize - f.length) 0) = cString f := by
  obtain ⟨n, hn⟩ := Nat.exists_eq_add_one.2 (Nat.sub_pos_of_lt h)
  rw [hn, List.replicate_succ, cString_append_zero]

theorem entryOf_of_lt (h : f.length < identitySize) (workers : List WorkerEntry) :
    entryOf workers f = registryIndex workers (cString f) := by
  rw [entryOf, identityBuffer_of_lt h, Option.bind_some, cString_identityBuffer h]

/-- Every call of a coordinator that takes the frame for an identity writes inside the buffer. -/
def HandledInBounds (f : Frame) : Prop :=
  ∀ (z : ZmqTransport) (srcRank : Option ℤ) (now : UInt64) (allocated : Bool) (rest : Socket),
    z.role = .coordinator → z.socket.recv = some (f, rest) → z.recv srcRank now allocated ≠ none

/-- In no state that a coordinator reaches are both frames mapped to one entry. -/
def ToldApart (f g : Frame) : Prop :=
  ∀ (waiting : List Multipart) (srcRank : Option ℤ) (labels : List ReceiverLabel) (r : Receiver),
    Run Receiver.next (Receiver.start .coordinator waiting srcRank) labels r →
      ∀ i, ¬ (entryOf r.transport.workers f = some i ∧ entryOf r.transport.workers g = some i)

theorem identityBuffer_eq_none_iff : identityBuffer f = none ↔ identitySize ≤ f.length := by
  rw [identityBuffer, ← Nat.not_lt, ← recvSize_lt_iff]
  split
  · next h => exact iff_of_false (Option.some_ne_none _) (not_not_intro h)
  · next h => exact iff_of_true rfl h

/-- A call that takes the frame for an identity faults exactly where the buffer is left. -/
theorem recv_eq_none_iff {z : ZmqTransport} {srcRank : Option ℤ} {now : UInt64} {allocated : Bool}
    {rest : Socket} (hrole : z.role = .coordinator) (hrecv : z.socket.recv = some (f, rest)) :
    z.recv srcRank now allocated = none ↔ identityBuffer f = none := by
  rw [identityBuffer_eq_none_iff, ZmqTransport.recv, hrole, hrecv]
  dsimp only
  split
  · next h => exact iff_of_true rfl h
  · next h => exact iff_of_false (Option.some_ne_none _) h

/-- **In bounds.** -/
theorem handledInBounds_iff : HandledInBounds f ↔ f.length < identitySize := by
  rw [← Nat.not_le, ← identityBuffer_eq_none_iff]
  constructor
  · intro h hnone
    let z : ZmqTransport := { role := .coordinator, socket := { current := [f] } }
    exact h z none 0 true {} rfl rfl ((recv_eq_none_iff rfl rfl).2 hnone)
  · intro h z srcRank now allocated rest hrole hrecv hnone
    exact h ((recv_eq_none_iff hrole hrecv).1 hnone)

theorem recv_registration {r : Receiver} (h : f.length < identitySize)
    (hr : r = .start .coordinator [Receiver.registerMessage.frames.from f] none) :
    r.transport.recv r.srcRank 0 true =
      some (r.transport.deliverMessage {} none 0 f Receiver.registerMessage) := by
  have hfits : ¬ 63 < f.length := Nat.not_lt.2 (Nat.le_of_lt_succ h)
  subst hr
  show (if 63 < f.length then none else _) = _
  rw [if_neg hfits]
  rfl

theorem exists_run_entryOf (hne : f ≠ []) (h : f.length < identitySize) :
    ∃ r i, Run Receiver.next (Receiver.start .coordinator
        [Receiver.registerMessage.frames.from f] none) [.recv 0 true] r ∧
      entryOf r.transport.workers f = some i := by
  generalize hr : Receiver.start .coordinator [Receiver.registerMessage.frames.from f] none = r
  let res := r.transport.deliverMessage {} none 0 f Receiver.registerMessage
  have hstep : r.next (.recv 0 true) = some (r.received res).1 := by
    have hrun : ¬ r.faulted = true := hr ▸ Bool.false_ne_true
    rw [Receiver.next, Receiver.step, if_neg hrun, recv_registration h hr.symm]
    rfl
  have hworkers : res.transport.workers =
      (ZmqTransport.mapIdentity [] (cString f) msgTypeWorkerRegister 0 none).1 := by
    subst hr
    show (ZmqTransport.deliverMessage _ _ _ _ _ _).transport.workers = _
    rw [ZmqTransport.deliverMessage, if_neg (by decide), if_pos ⟨rfl, List.length_pos_iff.2 hne⟩]
    rfl
  obtain ⟨i, hi, -⟩ := (mapped_mapIdentity [] (cString f) msgTypeWorkerRegister 0 none).known
    (.inr ⟨rfl, by decide⟩)
  refine ⟨(r.received res).1, i, .cons hstep (.nil _), ?_⟩
  rw [entryOf_of_lt h]
  show registryIndex res.transport.workers _ = _
  rw [hworkers, hi]

/-- **Told apart.** Two frames that fit have entries of their own exactly if they differ as strings.
-/
theorem toldApart_iff (hne : f ≠ []) (hf : f.length < identitySize)
    (hg : g.length < identitySize) : ToldApart f g ↔ cString f ≠ cString g := by
  constructor
  · intro h heq
    obtain ⟨r, i, hrun, hi⟩ := exists_run_entryOf hne hf
    refine h _ _ _ r hrun i ⟨hi, ?_⟩
    rw [entryOf_of_lt hg, ← heq, ← entryOf_of_lt hf, hi]
  · rintro hdiff waiting srcRank labels r - i ⟨hi, hj⟩
    rw [entryOf_of_lt hf, registryIndex, List.findIdx?_eq_some_iff_getElem] at hi
    rw [entryOf_of_lt hg, registryIndex, List.findIdx?_eq_some_iff_getElem] at hj
    obtain ⟨_, hi, -⟩ := hi
    obtain ⟨_, hj, -⟩ := hj
    exact hdiff ((of_decide_eq_true hi).symm.trans (of_decide_eq_true hj))

/-- **Identity frames.** Any two frames that are not empty are handled inside the buffer, and not
mapped to one entry unless they are the same, exactly if they are shorter than the buffer and, if
they differ, differ in front of the first zero byte. -/
theorem identity_frames_iff (hf : f ≠ []) :
    (HandledInBounds f ∧ HandledInBounds g ∧ (f ≠ g → ToldApart f g)) ↔
      f.length < identitySize ∧ g.length < identitySize ∧ (f ≠ g → cString f ≠ cString g) := by
  rw [handledInBounds_iff, handledInBounds_iff]
  refine and_congr_right fun hlf => and_congr_right fun hlg => ?_
  exact imp_congr_right fun _ => toldApart_iff hf hlf hlg

/-- The identities `A` and `B`. -/
theorem identity_frames_iff_letters :
    (HandledInBounds [65] ∧ HandledInBounds [66] ∧ (([65] : Frame) ≠ [66] → ToldApart [65] [66])) ↔
      ([65] : Frame).length < identitySize ∧ ([66] : Frame).length < identitySize ∧
        (([65] : Frame) ≠ [66] → cString [65] ≠ cString [66]) :=
  identity_frames_iff (List.cons_ne_nil _ _)

/-- A frame of 64 bytes has its zero written outside the buffer; two frames of three bytes, equal up
to a zero byte, are one worker. -/
theorem identity_frames_fail :
    ¬ HandledInBounds (List.replicate 64 65) ∧ ([1, 0, 2] : Frame) ≠ [1, 0, 3] ∧
      ¬ ToldApart [1, 0, 2] [1, 0, 3] := by
  refine ⟨?_, by decide, ?_⟩
  · rw [handledInBounds_iff]
    decide
  · rw [toldApart_iff (List.cons_ne_nil _ _) (by decide) (by decide)]
    decide

end Frames

end DistributedComputing
