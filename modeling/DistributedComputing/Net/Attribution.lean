import DistributedComputing.Net.FrameSync

/-!
# Who sent it

The coordinator learns the sender of a message through `*src_rank` only. `transport_zmq_recv` writes
it when it finds the sender's identity in the registry, and when it handles a registration; in all
other cases it returns the message and leaves `*src_rank` as it was. The caller gives its variable
no value before the call, so a message from an unknown sender is handled as one from whoever was
heard last. (The MPI transport sets `*src_rank` for every message it returns.)

`attributed_along_iff` gives the exact condition for the right rank to be left, over any run of
calls that find conforming messages. Identities are compared as C strings, so one with a zero byte
is matched by its prefix, and must not be matched at all.
-/

namespace DistributedComputing

open Bytes KeyedTable StepRun

/-! ### The registry -/

section Registry

variable {workers workers' : List WorkerEntry} {identity : List UInt8} {now : UInt64}

theorem registryIndex_congr
    (h : workers'.map WorkerEntry.identity = workers.map WorkerEntry.identity) (key : List UInt8) :
    registryIndex workers' key = registryIndex workers key := by
  have hmap : ∀ ws : List WorkerEntry, registryIndex ws key =
      (ws.map WorkerEntry.identity).findIdx? fun i => i = key := fun ws => by
    rw [List.findIdx?_map]
    rfl
  rw [hmap, hmap, h]

theorem registryIndex_eq_none_iff :
    registryIndex workers identity = none ↔ identity ∉ workers.map WorkerEntry.identity := by
  rw [registryIndex, List.findIdx?_eq_none_iff]
  simp

theorem registryIndex_append_self (h : registryIndex workers identity = none) :
    registryIndex (workers ++ [{ identity, lastHeartbeat := now }]) identity =
      some workers.length := by
  rw [registryIndex] at h ⊢
  rw [List.findIdx?_append, h]
  simp

/-- The registry keeps C strings. -/
def CStrings (workers : List WorkerEntry) : Prop := ∀ w ∈ workers, 0 ∉ w.identity

/-- No entry has an identity with a zero byte. -/
theorem CStrings.registryIndex_eq_none (h : CStrings workers) (h0 : 0 ∈ identity) :
    registryIndex workers identity = none := by
  rw [registryIndex_eq_none_iff, List.mem_map]
  rintro ⟨w, hw, rfl⟩
  exact h w hw h0

theorem CStrings.of_map_eq (h : CStrings workers)
    (hmap : workers'.map WorkerEntry.identity = workers.map WorkerEntry.identity) :
    CStrings workers' := by
  intro w hw
  have hmem : w.identity ∈ workers.map WorkerEntry.identity := hmap ▸ List.mem_map_of_mem hw
  obtain ⟨v, hv, heq⟩ := List.mem_map.1 hmem
  rw [← heq]
  exact h v hv

/-- An identity that is found, or is going to be. -/
def Known (workers : List WorkerEntry) (identity : List UInt8) (msgType : UInt16) : Prop :=
  registryIndex workers identity ≠ none ∨
    msgType = msgTypeWorkerRegister ∧ workers.length < maxRegistered

/-- What a valid message does to the registry and the rank. -/
structure Mapped (workers : List WorkerEntry) (identity : List UInt8) (msgType : UInt16)
    (srcRank : Option ℤ) (res : List WorkerEntry × Option ℤ) : Prop where
  cStrings : CStrings workers → 0 ∉ identity → CStrings res.1
  known : Known workers identity msgType →
    ∃ i : ℕ, registryIndex res.1 identity = some i ∧ res.2 = srcRank.map fun _ => (i : ℤ)
  unknown : ¬ Known workers identity msgType → registryIndex res.1 identity = none ∧
    res.2 = if msgType = msgTypeWorkerRegister then srcRank.map fun _ => -1 else srcRank

/-- Neither a known registration nor a heartbeat moves an entry. -/
theorem map_identity_update {f : WorkerEntry → WorkerEntry}
    (hf : ∀ w, (f w).identity = w.identity) :
    (update WorkerEntry.identity identity f workers).map WorkerEntry.identity =
      workers.map WorkerEntry.identity :=
  map_key_update fun w hw => (hf w).trans hw

theorem mapped_of_map_eq {msgType : UInt16} {srcRank : Option ℤ}
    (noted : List WorkerEntry × Option ℤ)
    (hmap : noted.1.map WorkerEntry.identity = workers.map WorkerEntry.identity)
    (hsome : ∀ i, registryIndex workers identity = some i →
      noted.2.map (fun _ => (i : ℤ)) = srcRank.map fun _ => (i : ℤ))
    (hnone : registryIndex workers identity = none → ¬ Known workers identity msgType ∧
      noted.2 = if msgType = msgTypeWorkerRegister then srcRank.map fun _ => -1 else srcRank) :
    Mapped workers identity msgType srcRank
      (match registryIndex noted.1 identity with
        | some i => (noted.1, ZmqTransport.setRank noted.2 i)
        | none => noted) := by
  have hcongr := registryIndex_congr hmap identity
  rcases hidx : registryIndex workers identity with - | i
  · obtain ⟨hun, hr⟩ := hnone hidx
    rw [hcongr, hidx]
    exact ⟨fun h _ => h.of_map_eq hmap, fun hk => absurd hk hun, fun _ => ⟨hcongr.trans hidx, hr⟩⟩
  · rw [hcongr, hidx]
    refine ⟨fun h _ => h.of_map_eq hmap, fun _ => ⟨i, hcongr.trans hidx, hsome i hidx⟩,
      fun hun => ?_⟩
    exact absurd (.inl (by rw [hidx]; exact nofun)) hun

/-- **A registration.** -/
theorem mapped_register (workers : List WorkerEntry) (identity : List UInt8) (now : UInt64)
    (srcRank : Option ℤ) :
    Mapped workers identity msgTypeWorkerRegister srcRank
      (ZmqTransport.mapIdentity workers identity msgTypeWorkerRegister now srcRank) := by
  rw [ZmqTransport.mapIdentity, ZmqTransport.noteSender, if_pos rfl, registerIdentity]
  rcases hidx : registryIndex workers identity with - | i
  · rcases Nat.lt_or_ge workers.length maxRegistered with hroom | hfull
    · dsimp only
      rw [if_neg (Nat.not_le.2 hroom), registryIndex_append_self hidx]
      refine ⟨fun h h0 w hw => ?_, fun _ => ⟨workers.length, registryIndex_append_self hidx, ?_⟩,
        fun hun => absurd (.inr ⟨rfl, hroom⟩) hun⟩
      · rcases List.mem_append.1 hw with hw | hw
        · exact h w hw
        · rw [List.mem_singleton.1 hw]
          exact h0
      · exact Option.map_map _ _ _
    · dsimp only
      rw [if_pos hfull]
      refine mapped_of_map_eq (workers, srcRank.map fun _ => -1) rfl
        (fun i hi => absurd (hidx.symm.trans hi) (Option.some_ne_none i).symm) fun _ => ⟨?_, rfl⟩
      rintro (hne | ⟨-, hroom⟩)
      · exact hne hidx
      · exact absurd hroom (Nat.not_lt.2 hfull)
  · refine mapped_of_map_eq (_, _) (map_identity_update fun _ => rfl) (fun j hj => ?_) fun hn => ?_
    · exact Option.map_map _ _ _
    · exact absurd (hidx.symm.trans hn) (Option.some_ne_none i)

/-- **The lookup of the sender**, for every message type. -/
theorem mapped_mapIdentity (workers : List WorkerEntry) (identity : List UInt8) (msgType : UInt16)
    (now : UInt64) (srcRank : Option ℤ) :
    Mapped workers identity msgType srcRank
      (ZmqTransport.mapIdentity workers identity msgType now srcRank) := by
  rcases eq_or_ne msgType msgTypeWorkerRegister with rfl | hreg
  · exact mapped_register workers identity now srcRank
  · have hnote : ∃ ws,
        ZmqTransport.noteSender workers identity msgType now srcRank = (ws, srcRank) ∧
        ws.map WorkerEntry.identity = workers.map WorkerEntry.identity := by
      rw [ZmqTransport.noteSender, if_neg hreg]
      split
      · exact ⟨_, rfl, map_identity_update fun _ => rfl⟩
      · exact ⟨_, rfl, rfl⟩
    obtain ⟨ws, hnote, hmap⟩ := hnote
    rw [ZmqTransport.mapIdentity, hnote]
    refine mapped_of_map_eq (ws, srcRank) hmap (fun _ _ => rfl) fun hn => ⟨?_, (if_neg hreg).symm⟩
    rintro (hne | ⟨htype, -⟩)
    · exact hne hn
    · exact hreg htype

end Registry

/-! ### One call -/

namespace ZmqTransport

theorem mapIdentity_fst (workers : List WorkerEntry) (identity : List UInt8) (msgType : UInt16)
    (now : UInt64) (srcRank : Option ℤ) :
    (mapIdentity workers identity msgType now srcRank).1 =
      (noteSender workers identity msgType now none).1 := by
  have hnoted : (noteSender workers identity msgType now srcRank).1 =
      (noteSender workers identity msgType now none).1 := by
    unfold noteSender
    split_ifs <;> rfl
  rw [mapIdentity]
  split
  · exact hnoted
  · exact hnoted

/-- What a call of the coordinator does after reading an identity, for every value of the caller's
variable: nothing to the registry and the rank, or it returns a message and maps the identity. -/
inductive Handled (z : ZmqTransport) (now : UInt64) (identity : Frame) (f : Option ℤ → Received) :
    Prop
  | null {socket} (h : ∀ srcRank, f srcRank = z.returnNull socket srcRank) :
      Handled z now identity f
  | returned {socket message}
      (h : ∀ srcRank, f srcRank =
        ⟨{ z with
            workers :=
              (mapIdentity z.workers (cString identity) message.header.msgType now srcRank).1
            socket },
          (mapIdentity z.workers (cString identity) message.header.msgType now srcRank).2,
          some message⟩) :
      Handled z now identity f

variable {z : ZmqTransport} {srcRank : Option ℤ} {now : UInt64} {allocated : Bool}
  {identity : Frame}

theorem handled_deliverMessage (hrole : z.role = .coordinator) (hid : identity ≠ [])
    (socket : Socket) (message : Message) :
    Handled z now identity fun srcRank => z.deliverMessage socket srcRank now identity message := by
  by_cases hvalid : messageValidate message ≠ 0
  · exact .null fun _ => if_pos hvalid
  · exact .returned fun _ =>
      (if_neg hvalid).trans (if_pos ⟨hrole, List.length_pos_iff.2 hid⟩)

theorem handled_recvPayload (hrole : z.role = .coordinator) (hid : identity ≠ []) (socket : Socket)
    (header : MessageHeader) :
    Handled z now identity fun srcRank => z.recvPayload socket srcRank now identity header := by
  simp only [recvPayload]
  split
  · exact handled_deliverMessage hrole hid socket _
  · split
    · exact .null fun _ => rfl
    · split
      · exact .null fun _ => rfl
      · exact handled_deliverMessage hrole hid _ _

theorem handled_recvHeader (hrole : z.role = .coordinator) (hid : identity ≠ []) (socket : Socket) :
    Handled z now identity fun srcRank =>
      z.recvHeader socket srcRank now allocated identity := by
  simp only [recvHeader]
  split
  · exact .null fun _ => rfl
  · split
    · exact .null fun _ => rfl
    · split
      · exact handled_recvPayload hrole hid _ _
      · exact .null fun _ => rfl

/-- The sender of the next message is the identity the call reads. -/
theorem handled_recv {m : Multipart} {waiting : List Multipart} (hrole : z.role = .coordinator)
    (hs : z.socket = ⟨[], m :: waiting⟩) (hid : m.head ≠ []) (hfits : m.Fits z.role) :
    ∃ f, (∀ srcRank, z.recv srcRank now allocated = some (f srcRank)) ∧
      Handled z now m.head f := by
  refine ⟨fun srcRank => z.recvHeader ⟨m.more, waiting⟩ srcRank now allocated m.head,
    fun srcRank => ?_, handled_recvHeader hrole hid _⟩
  rw [recv, hrole, hs]
  exact if_neg (Nat.not_lt.2 (hfits hrole))

end ZmqTransport

/-! ### Calls in sequence -/

namespace Receiver

/-- The caller's variable is the index of the sender's entry, or negative if there is none. -/
def Attributed (r : Receiver) (sender : Frame) : Prop :=
  ∀ rank, r.srcRank = some rank →
    match registryIndex r.transport.workers sender with
    | some i => rank = i
    | none => rank < 0

/-- The condition on a message for being attributed to its sender, if the caller asks for the rank:
a sender that is found has an identity without zero bytes; for one that is not found, the message is
a registration. -/
def Identifies (r : Receiver) (sender : Frame) (msgType : UInt16) : Prop :=
  ∀ rank, r.srcRank = some rank →
    (Known r.transport.workers (cString sender) msgType → 0 ∉ sender) ∧
      (¬ Known r.transport.workers (cString sender) msgType → msgType = msgTypeWorkerRegister)

variable {r : Receiver} {sender : Frame} {msgType : UInt16}

theorem attributed_of_some {i : ℕ} (h : registryIndex r.transport.workers sender = some i) :
    r.Attributed sender ↔ ∀ rank, r.srcRank = some rank → rank = i := by
  rw [Attributed, h]

theorem attributed_of_none (h : registryIndex r.transport.workers sender = none) :
    r.Attributed sender ↔ ∀ rank, r.srcRank = some rank → rank < 0 := by
  rw [Attributed, h]

/-- **A sender that is found** has its rank written. -/
theorem attributed_iff_of_known {r' : Receiver} (hc : CStrings r'.transport.workers) {i : ℕ}
    (hidx : registryIndex r'.transport.workers (cString sender) = some i)
    (hrank : r'.srcRank = r.srcRank.map fun _ => (i : ℤ)) :
    r'.Attributed sender ↔ ∀ rank, r.srcRank = some rank → 0 ∉ sender := by
  -- The call searches for the C string; what is due is decided by the identity as a whole.
  rcases Classical.em (0 ∈ sender) with h0 | h0
  · rw [attributed_of_none (hc.registryIndex_eq_none h0), hrank]
    constructor
    · intro h rank hr
      rw [hr] at h
      exact absurd (h i rfl) (Int.not_lt.2 (Int.natCast_nonneg i))
    · intro h rank hr
      obtain ⟨old, hold, -⟩ := Option.map_eq_some_iff.1 hr
      exact absurd h0 (h old hold)
  · rw [cString_eq_self h0] at hidx
    rw [attributed_of_some hidx, hrank]
    refine iff_of_true (fun rank hr => ?_) fun _ _ => h0
    obtain ⟨_, -, rfl⟩ := Option.map_eq_some_iff.1 hr
    rfl

/-- **One message** is attributed to its sender, with the caller's variable overwritten, exactly if
it meets the condition. -/
theorem attributed_iff (r' : Receiver) (now : UInt64) (hc : CStrings r.transport.workers)
    {mapped : Option ℤ → List WorkerEntry × Option ℤ}
    (hmapped : mapped = ZmqTransport.mapIdentity r.transport.workers (cString sender) msgType now)
    (hr' : (r'.transport.workers, r'.srcRank) = mapped r.srcRank) :
    (r'.Attributed sender ∧ ∀ rank, r.srcRank = some rank →
      ∀ other, (mapped (some other)).2 = (mapped (some rank)).2) ↔
        r.Identifies sender msgType := by
  have hm : ∀ srcRank, Mapped r.transport.workers (cString sender) msgType srcRank
      (mapped srcRank) := fun srcRank => hmapped ▸ mapped_mapIdentity _ _ _ _ _
  have hfst : ∀ srcRank, (mapped srcRank).1 = r'.transport.workers := fun srcRank => by
    rw [show r'.transport.workers = _ from congrArg Prod.fst hr', hmapped,
      ZmqTransport.mapIdentity_fst, ZmqTransport.mapIdentity_fst]
  have hrank : r'.srcRank = (mapped r.srcRank).2 := congrArg Prod.snd hr'
  have hc' : CStrings r'.transport.workers := by
    rw [← hfst r.srcRank]
    exact (hm r.srcRank).cStrings hc (zero_not_mem_cString sender)
  rcases Classical.em (Known r.transport.workers (cString sender) msgType) with hk | hk
  · -- the sender is found: its index is written
    obtain ⟨i, hidx, hset⟩ := (hm r.srcRank).known hk
    rw [hfst] at hidx
    have hwritten : ∀ rank, (mapped (some rank)).2 = some (i : ℤ) := fun rank => by
      obtain ⟨j, hjdx, hset⟩ := (hm (some rank)).known hk
      rw [hfst, hidx] at hjdx
      rw [hset, Option.some.inj hjdx]
      rfl
    rw [attributed_iff_of_known hc' hidx (hrank.trans hset)]
    constructor
    · exact fun h rank hr => ⟨fun _ => h.1 rank hr, fun hun => absurd hk hun⟩
    · exact fun h => ⟨fun rank hr => (h rank hr).1 hk, fun rank _ other => by
        rw [hwritten, hwritten]⟩
  · -- it is not: the rank is written by a registration only
    have hset := fun srcRank => ((hm srcRank).unknown hk).2
    have hnone : registryIndex r'.transport.workers sender = none := by
      have hidx := ((hm r.srcRank).unknown hk).1
      rw [hfst] at hidx
      rcases Classical.em (0 ∈ sender) with h0 | h0
      · exact hc'.registryIndex_eq_none h0
      · rwa [cString_eq_self h0] at hidx
    rw [attributed_of_none hnone, hrank]
    by_cases hreg : msgType = msgTypeWorkerRegister
    · simp only [hset, if_pos hreg]
      refine iff_of_true ⟨fun rank hr => ?_, fun _ _ _ => rfl⟩ fun _ _ => ⟨fun h => absurd h hk,
        fun _ => hreg⟩
      obtain ⟨_, -, rfl⟩ := Option.map_eq_some_iff.1 hr
      decide
    · simp only [hset, if_neg hreg]
      constructor
      · intro h rank hr
        have hkept := Option.some.inj (h.2 rank hr (rank + 1))
        omega
      · exact fun h => ⟨fun rank hr => absurd ((h rank hr).2 hk) hreg,
          fun rank hr => absurd ((h rank hr).2 hk) hreg⟩

/-- The receiver with what its last step reported. -/
def reporting : Receiver × List ReceiverEvent → ReceiverLabel →
    Option (Receiver × List ReceiverEvent) :=
  observed step fun _ es => es

/-- A call finds no message, or one that conforms and has a sender. -/
def NextFromPeer (s : Receiver × List ReceiverEvent) : ReceiverLabel → Prop
  | .arrive _ | .assign _ => True
  | .recv now allocated =>
    s.1.NextConforms (.recv now allocated) ∧
      ∀ m ∈ s.1.transport.socket.waiting.head?, m.head ≠ []

/-- The message of the last step, if it returned one, is attributed to its sender. -/
def LastAttributed (s : Receiver × List ReceiverEvent) : Prop :=
  ∀ sender message, .returned sender message ∈ s.2 → s.1.Attributed sender

/-- A call that returns a message to a caller that asks for the rank leaves the same rank behind
whatever the caller's variable held before. -/
def NextOverwrites (s : Receiver × List ReceiverEvent) : ReceiverLabel → Prop
  | .arrive _ | .assign _ => True
  | .recv now allocated =>
    ∀ rank, s.1.srcRank = some rank →
      ∀ res, s.1.transport.recv (some rank) now allocated = some res → res.message ≠ none →
        ∀ other, (s.1.transport.recv (some other) now allocated).map Received.srcRank =
          some res.srcRank

/-- A call that returns a message meets the condition for it. -/
def NextIdentifies (s : Receiver × List ReceiverEvent) : ReceiverLabel → Prop
  | .arrive _ | .assign _ => True
  | .recv now allocated =>
    ∀ m ∈ s.1.transport.socket.waiting.head?,
      ∀ res, s.1.transport.recv s.1.srcRank now allocated = some res →
        ∀ message, res.message = some message → s.1.Identifies m.head message.header.msgType

/-- What runs of the coordinator's receiver keep. -/
structure CoordinatorInv (s : Receiver × List ReceiverEvent) : Prop where
  synchronised : s.1.Synchronised
  role : s.1.transport.role = .coordinator
  cStrings : CStrings s.1.transport.workers

variable {s t : Receiver × List ReceiverEvent} {l : ReceiverLabel} {now : UInt64} {allocated : Bool}

theorem CoordinatorInv.not_faulted (h : CoordinatorInv s) : ¬ s.1.faulted = true :=
  Bool.eq_false_iff.1 h.synchronised.not_faulted

theorem CoordinatorInv.arrive_eq {m : Multipart} (h : CoordinatorInv s)
    (hs : reporting s (.arrive m) = some t) : t = (s.1.arrived m, []) := by
  rw [reporting, observed, Receiver.step, if_neg h.not_faulted] at hs
  exact (Option.some.inj hs).symm

theorem CoordinatorInv.assign_eq {srcRank : Option ℤ} (h : CoordinatorInv s)
    (hs : reporting s (.assign srcRank) = some t) : t = ({ s.1 with srcRank }, []) := by
  rw [reporting, observed, Receiver.step, if_neg h.not_faulted] at hs
  exact (Option.some.inj hs).symm

/-- A call of the coordinator finds nothing, or handles the next message. -/
theorem CoordinatorInv.recv_cases (h : CoordinatorInv s)
    (henv : NextFromPeer s (.recv now allocated))
    (hs : reporting s (.recv now allocated) = some t) :
    (s.1.transport.socket.waiting = [] ∧ t = (s.1, [])) ∨
      ∃ m waiting f, s.1.transport.socket = ⟨[], m :: waiting⟩ ∧
        (∀ srcRank, s.1.transport.recv srcRank now allocated = some (f srcRank)) ∧
        ZmqTransport.Handled s.1.transport now m.head f ∧ t = s.1.received (f s.1.srcRank) := by
  have hsocket := h.synchronised.socket_eq
  obtain ⟨es', hstep, hes⟩ := observed_eq_some_iff.1 hs
  rw [Receiver.step, if_neg h.not_faulted] at hstep
  rcases hw : s.1.transport.socket.waiting with - | ⟨m, waiting⟩
  · rw [hw] at hsocket
    rw [ZmqTransport.recv_of_empty hsocket, ZmqTransport.returnNull, ← hsocket] at hstep
    refine .inl ⟨rfl, Prod.ext ?_ ?_⟩
    · exact (congrArg Prod.fst (Option.some.inj hstep)).symm
    · refine hes.trans ((congrArg Prod.snd (Option.some.inj hstep)).symm.trans ?_)
      rw [received, hw]
  · rw [hw] at hsocket
    obtain ⟨f, hrecv, hhandled⟩ := ZmqTransport.handled_recv h.role hsocket
      (henv.2 m (by rw [hw]; rfl)) (henv.1 m (by rw [hw]; rfl)).fits
    rw [hrecv] at hstep
    refine .inr ⟨m, waiting, f, hsocket, hrecv, hhandled, Prod.ext ?_ ?_⟩
    · exact (congrArg Prod.fst (Option.some.inj hstep)).symm
    · exact hes.trans (congrArg Prod.snd (Option.some.inj hstep)).symm

/-- **One step keeps the invariant.** -/
theorem CoordinatorInv.step (h : CoordinatorInv s) (henv : NextFromPeer s l)
    (hs : reporting s l = some t) : CoordinatorInv t := by
  have hsync : t.1.Synchronised := by
    obtain ⟨es, hstep, -⟩ := observed_eq_some_iff.1 hs
    refine h.synchronised.next (l := l) ?_ (Option.map_eq_some_iff.2 ⟨_, hstep, rfl⟩)
    cases l with
    | arrive | assign => trivial
    | recv => exact henv.1
  cases l with
  | arrive m =>
    obtain rfl := h.arrive_eq hs
    exact ⟨hsync, h.role, h.cStrings⟩
  | assign srcRank =>
    obtain rfl := h.assign_eq hs
    exact ⟨hsync, h.role, h.cStrings⟩
  | recv now allocated =>
    rcases h.recv_cases henv hs with ⟨-, rfl⟩ | ⟨m, waiting, f, -, -, hhandled, rfl⟩
    · exact ⟨hsync, h.role, h.cStrings⟩
    · cases hhandled with
      | null hf =>
        rw [hf] at hsync ⊢
        exact ⟨hsync, h.role, h.cStrings⟩
      | returned hf =>
        rw [hf] at hsync ⊢
        exact ⟨hsync, h.role,
          (mapped_mapIdentity _ _ _ _ _).cStrings h.cStrings (zero_not_mem_cString _)⟩

/-- **One step** attributes its message, and overwrites the caller's variable, exactly if it meets
the condition. -/
theorem CoordinatorInv.lastAttributed_iff (h : CoordinatorInv s) (henv : NextFromPeer s l)
    (hs : reporting s l = some t) :
    LastAttributed t ∧ NextOverwrites s l ↔ NextIdentifies s l := by
  cases l with
  | arrive m =>
    obtain rfl := h.arrive_eq hs
    exact iff_of_true ⟨nofun, trivial⟩ trivial
  | assign srcRank =>
    obtain rfl := h.assign_eq hs
    exact iff_of_true ⟨nofun, trivial⟩ trivial
  | recv now allocated =>
    rcases h.recv_cases henv hs with ⟨hnil, rfl⟩ | ⟨m, waiting, f, hsock, hrecv, hhandled, rfl⟩
    · have hsocket := h.synchronised.socket_eq
      rw [hnil] at hsocket
      refine iff_of_true ⟨nofun, fun rank _ res hrecv hmessage => ?_⟩ fun m hm => ?_
      · rw [ZmqTransport.recv_of_empty hsocket] at hrecv
        obtain rfl := Option.some.inj hrecv
        exact absurd rfl hmessage
      · rw [hnil] at hm
        cases hm
    · simp only [LastAttributed, NextOverwrites, NextIdentifies, received, hsock, hrecv,
        Option.some.injEq, Option.map_some, List.head?_cons, Option.mem_def, forall_eq']
      cases hhandled with
      | null hf => simp [hf, ZmqTransport.returnNull]
      | @returned socket message hf =>
        simp only [hf, forall_eq', Option.some.injEq, List.mem_singleton,
          ReceiverEvent.returned.injEq, and_imp, ne_eq, reduceCtorEq, not_false_eq_true,
          forall_const]
        rw [← attributed_iff ⟨⟨s.1.transport.role, _, socket⟩, _, s.1.faulted⟩ now h.cStrings
          rfl rfl]
        refine and_congr_left fun _ => ⟨fun hatt => hatt m.head message rfl rfl, ?_⟩
        rintro hatt _ _ rfl -
        exact hatt

/-- **Attribution.** For every sequence of arrivals, assignments and calls in which the calls find
messages with the frames they announce, from senders with a non-empty identity: every message
returned is attributed to its sender, with whatever the caller's variable held overwritten, exactly
if every call that returns one meets the condition for it. -/
theorem attributed_along_iff {waiting : List Multipart} {srcRank : Option ℤ}
    {labels : List ReceiverLabel}
    (henv : Meets reporting NextFromPeer (start .coordinator waiting srcRank, []) labels) :
    Along reporting LastAttributed (start .coordinator waiting srcRank, []) labels ∧
        Meets reporting NextOverwrites (start .coordinator waiting srcRank, []) labels ↔
      Meets reporting NextIdentifies (start .coordinator waiting srcRank, []) labels :=
  along_and_meets_iff (I := CoordinatorInv) (fun hi _ he _ hs => hi.step he hs)
    (fun hi _ he hs => hi.lastAttributed_iff he hs) henv ⟨⟨rfl, rfl⟩, rfl, nofun⟩ nofun

/-- A result with a payload of one byte. -/
def resultMessage : Message := ⟨⟨messageMagic, envelopeVersion, 0x0011, 1, 1⟩, [0], 1⟩

/-- What `transport_zmq_send` puts on the wire, under an identity that is not empty and fits the
buffer. -/
def Sent (m : Multipart) : Prop :=
  ∃ (msg : Message) (identity : Frame),
    identity ≠ [] ∧ identity.length ≤ 63 ∧ m = msg.frames.from identity

/-- Only such messages arrive, and every message can be allocated. -/
def Ordinary : ReceiverLabel → Prop
  | .arrive m => Sent m
  | .assign _ => True
  | .recv _ allocated => allocated = true

/-- Only such messages wait. -/
structure SentInv (s : Receiver × List ReceiverEvent) : Prop extends CoordinatorInv s where
  sent : ∀ m ∈ s.1.transport.socket.waiting, Sent m

theorem SentInv.nextFromPeer (h : SentInv s) (hl : Ordinary l) : NextFromPeer s l := by
  cases l with
  | arrive | assign => trivial
  | recv now allocated =>
    obtain rfl : allocated = true := hl
    refine ⟨fun m hm => ?_, fun m hm => ?_⟩
    · obtain ⟨msg, identity, -, hlen, rfl⟩ := h.sent m (List.mem_of_mem_head? hm)
      rw [h.role]
      exact (conforms_frames msg hlen).2
    · obtain ⟨msg, identity, hne, -, rfl⟩ := h.sent m (List.mem_of_mem_head? hm)
      exact hne

theorem SentInv.step (h : SentInv s) (hl : Ordinary l) (hs : reporting s l = some t) :
    SentInv t := by
  have henv := h.nextFromPeer hl
  refine ⟨h.toCoordinatorInv.step henv hs, ?_⟩
  cases l with
  | assign srcRank =>
    obtain rfl := h.assign_eq hs
    exact h.sent
  | arrive m =>
    obtain rfl := h.arrive_eq hs
    intro m' hm'
    rcases List.mem_append.1 hm' with hold | hnew
    · exact h.sent m' hold
    · rw [List.mem_singleton.1 hnew]
      exact hl
  | recv now allocated =>
    rcases h.recv_cases henv hs with ⟨-, rfl⟩ | ⟨m, waiting, f, hsock, hrecv, -, rfl⟩
    · exact h.sent
    · have hconf : m.Conforms allocated s.1.transport.role := henv.1 m (by rw [hsock]; rfl)
      have hall : ∃ res', s.1.transport.recv s.1.srcRank now allocated = some res' ∧
          res'.transport.socket = ⟨[], waiting⟩ := ZmqTransport.recv_of_conforms hsock hconf
      obtain ⟨res', hrecv', hwaiting⟩ := hall
      obtain rfl := Option.some.inj ((hrecv _).symm.trans hrecv')
      intro m' hm'
      refine h.sent m' ?_
      rw [hsock]
      rw [received, hwaiting] at hm'
      exact List.mem_cons_of_mem m hm'

/-- **What workers send** is what `attributed_along_iff` asks of the environment. -/
theorem nextFromPeer_of_sent {waiting : List Multipart} {srcRank : Option ℤ}
    {labels : List ReceiverLabel} (hw : ∀ m ∈ waiting, Sent m) (hl : ∀ l ∈ labels, Ordinary l) :
    Meets reporting NextFromPeer (start .coordinator waiting srcRank, []) labels :=
  meets_of_labels SentInv.step SentInv.nextFromPeer ⟨⟨⟨rfl, rfl⟩, rfl, nofun⟩, hw⟩ hl

theorem nextFromPeer_register_result {a b : Frame} (ha : a ≠ [] ∧ a.length ≤ 63)
    (hb : b ≠ [] ∧ b.length ≤ 63) (srcRank : Option ℤ) :
    Meets reporting NextFromPeer
      (start .coordinator [registerMessage.frames.from a, resultMessage.frames.from b] srcRank, [])
      [.recv 0 true, .recv 0 true] := by
  refine nextFromPeer_of_sent ?_ ?_
  · simp only [List.forall_mem_cons]
    exact ⟨⟨registerMessage, a, ha.1, ha.2, rfl⟩, ⟨resultMessage, b, hb.1, hb.2, rfl⟩, nofun⟩
  · simp [Ordinary]

/-- A worker registers and sends a result. -/
theorem attributed_along_registered :
    Along reporting LastAttributed (start .coordinator [registerMessage.frames.from [65],
        resultMessage.frames.from [65]] (some 0), []) [.recv 0 true, .recv 0 true] ∧
      Meets reporting NextOverwrites (start .coordinator [registerMessage.frames.from [65],
        resultMessage.frames.from [65]] (some 0), []) [.recv 0 true, .recv 0 true] := by
  refine (attributed_along_iff (nextFromPeer_register_result (by decide) (by decide) _)).2 ?_
  refine (meets_cons_of_some rfl).2 ⟨?_, (meets_cons_of_some rfl).2 ⟨?_, trivial⟩⟩
  · intro m hm res hres message hmessage
    obtain rfl := Option.some.inj hm
    obtain rfl := Option.some.inj hres
    obtain rfl := Option.some.inj hmessage
    exact fun _ _ => ⟨fun _ => by decide, fun _ => rfl⟩
  · intro m hm res hres message hmessage
    obtain rfl := Option.some.inj hm
    obtain rfl := Option.some.inj hres
    obtain rfl := Option.some.inj hmessage
    exact fun _ _ => ⟨fun _ => by decide, fun hun => absurd (.inl (by decide)) hun⟩

/-- One worker registers, and a result arrives from another one that never did. The call returns it
with the first worker's index. -/
theorem attributed_fails_for_unregistered :
    Meets reporting NextFromPeer (start .coordinator [registerMessage.frames.from [65],
        resultMessage.frames.from [66]] (some (-1)), []) [.recv 0 true, .recv 0 true] ∧
      ¬ Along reporting LastAttributed (start .coordinator [registerMessage.frames.from [65],
        resultMessage.frames.from [66]] (some (-1)), []) [.recv 0 true, .recv 0 true] := by
  refine ⟨nextFromPeer_register_result (by decide) (by decide) _, fun h => ?_⟩
  -- the second message's sender has no entry, so a negative index is due
  have hrank : (0 : ℤ) < 0 := h.2.2 [66] resultMessage (List.mem_singleton_self _) 0 rfl
  exact absurd hrank (by decide)

end Receiver

end DistributedComputing
