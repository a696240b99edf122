import DistributedComputing.Foundations.FifoChannels
import DistributedComputing.Net.Message

/-!
# The MPI transport

A message of the MPI transport is two messages of MPI: the header with the tag `MPI_TAG_HEADER`,
and, if the header announces one, the payload with the tag `MPI_TAG_PAYLOAD`. The coordinator takes
a header from any source, and then the payload from **that** source. `MpiNet` is the workers and the
coordinator between any two of these calls: MPI keeps the order for each source and tag, and nothing
more, so that there are two queues for each rank; a worker may have sent its header and not yet its
payload; the coordinator may wait for a payload while headers of other ranks, and further ones of
the same rank, arrive.

The header and the payload are paired by their positions alone. `MpiLink.Carries` says how. Each
step keeps it, if every header that is taken can be given a message: `delivered_along_of_ordinary`.
Otherwise `mpi_recv` returns without the payload of that header, which stays in its queue, and is
paired with the next header (`mispaired_after_failed_alloc`).

Points of the representation:

* `MPI_Send` puts its message into the queue, whether or not it waits for the receiver;
* the count of both MPI calls is an `int`. The length of a payload of `2 ^ 31` bytes or more is
  negative as such, and the call fails;
* the probe and its timeout are the choice of a source that has a header. A shorter payload than
  announced leaves the rest of the buffer as `malloc` gave it, a longer one is an error of MPI.
-/

namespace DistributedComputing

open FifoChannels StepRun

/-- The workers and the coordinator, and what is between them. -/
structure MpiNet where
  headers : ℕ → List Frame := fun _ => []
  payloads : ℕ → List Frame := fun _ => []
  /-- a rank has sent its header, and not its payload -/
  sending : ℕ → Option Outgoing := fun _ => none
  /-- the coordinator has taken a header, and not its payload -/
  receiving : Option (ℕ × MessageHeader) := none

/-- A call of `transport_send` up to its header, its payload; a call of `transport_recv` up to the
header, its payload. -/
inductive MpiLabel
  | send (rank : ℕ) (o : Outgoing)
  | sendPayload (rank : ℕ)
  | recv (source : ℕ) (allocated : Bool)
  | recvPayload (buffer : ℕ → UInt8)

/-- The count of a call, read as an `int`, is negative. -/
def CountNegative (payloadLen : UInt32) : Prop := 2 ^ 31 ≤ payloadLen.toNat

instance (payloadLen : UInt32) : Decidable (CountNegative payloadLen) :=
  inferInstanceAs (Decidable (_ ≤ _))

namespace MpiNet

/-- A buffer of the announced length after a payload was received into it. -/
def overwrite (buffer : ℕ → UInt8) (bytes : Frame) (n : ℕ) : Frame :=
  (List.range n).map fun i => bytes.getD i (buffer i)

/-- The end of `mpi_recv`: a valid message is returned. -/
def returned (source : ℕ) (msg : Message) : List (Event ℕ Content) :=
  if messageValidate msg ≠ 0 then [] else [.leave source msg.content]

/-- `mpi_send` up to the header. Without a payload it is all. -/
def send (s : MpiNet) (rank : ℕ) (o : Outgoing) : MpiNet × List (Event ℕ Content) :=
  if messageValidate o.message ≠ 0 then (s, [])
  else
    let s := { s with
      headers :=
        Function.update s.headers rank (s.headers rank ++ [o.message.header.toBytes]) }
    if o.message.header.payloadLen ≠ 0 then
      ({ s with sending := Function.update s.sending rank (some o) }, [])
    else (s, [.enter rank o.content])

/-- `mpi_send` from the payload on. -/
def sendPayload (s : MpiNet) (rank : ℕ) (o : Outgoing) : MpiNet × List (Event ℕ Content) :=
  let s := { s with sending := Function.update s.sending rank none }
  if CountNegative o.message.header.payloadLen then (s, [])
  else
    ({ s with
        payloads := Function.update s.payloads rank (s.payloads rank ++ [o.message.payload]) },
      [.enter rank o.content])

/-- `mpi_recv` up to the header. Without a payload it is all. -/
def recv (s : MpiNet) (source : ℕ) (allocated : Bool) (frame : Frame) (rest : List Frame) :
    MpiNet × List (Event ℕ Content) :=
  let s := { s with headers := Function.update s.headers source rest }
  if allocated then
    if (MessageHeader.ofBytes frame).payloadLen ≠ 0 then
      ({ s with receiving := some (source, .ofBytes frame) }, [])
    else (s, returned source ⟨.ofBytes frame, [], 0⟩)
  else (s, [])

/-- `mpi_recv` from the payload on, which it waits for. -/
def recvPayload (s : MpiNet) (buffer : ℕ → UInt8) (source : ℕ) (header : MessageHeader) :
    Option (MpiNet × List (Event ℕ Content)) :=
  let s := { s with receiving := none }
  if CountNegative header.payloadLen then some (s, [])
  else
    match s.payloads source with
    | [] => none
    | bytes :: rest =>
      let s := { s with payloads := Function.update s.payloads source rest }
      if header.payloadLen.toNat < bytes.length then some (s, [])
      else
        some (s, returned source
          ⟨header, overwrite buffer bytes header.payloadLen.toNat, header.payloadLen.toNat⟩)

/-- One step. -/
def step (s : MpiNet) : MpiLabel → Option (MpiNet × List (Event ℕ Content))
  | .send rank o =>
    match s.sending rank with
    | none => some (s.send rank o)
    | some _ => none
  | .sendPayload rank => (s.sending rank).map (s.sendPayload rank)
  | .recv source allocated =>
    match s.receiving, s.headers source with
    | none, frame :: rest => some (s.recv source allocated frame rest)
    | _, _ => none
  | .recvPayload buffer =>
    match s.receiving with
    | some (source, header) => s.recvPayload buffer source header
    | none => none

theorem overwrite_self (buffer : ℕ → UInt8) (bytes : Frame) :
    overwrite buffer bytes bytes.length = bytes := by
  refine List.ext_getElem (by simp [overwrite]) fun i _ hi => ?_
  simp [overwrite, hi]

end MpiNet

/-! ### One rank -/

/-- What concerns one rank: the header that was taken from it and waits for its payload, its two
queues, and the message whose payload it has still to send. -/
structure MpiLink where
  awaited : Option MessageHeader
  headers : List Frame
  payloads : List Frame
  sending : Option Outgoing

/-- **The pairing.** The messages `q` are on their way: their headers in one queue, the payloads of
those that have one in the other. -/
structure MpiLink.Carries (k : MpiLink) (q : List Outgoing) : Prop where
  headers : k.awaited.toList.map MessageHeader.toBytes ++ k.headers =
    (q ++ k.sending.toList).map fun o => o.message.header.toBytes
  payloads : k.payloads = (q.map (·.payload)).filter (· ≠ [])
  sending : ∀ o ∈ k.sending, o.payload ≠ []
  awaited : ∀ h ∈ k.awaited, h.payloadLen ≠ 0
  short : ∀ o ∈ q ++ k.sending.toList, o.payload.length < 2 ^ 31

namespace MpiLink.Carries

variable {q : List Outgoing} {o : Outgoing} {header : MessageHeader} {frame : Frame}
  {awaited : Option MessageHeader} {headers payloads rest : List Frame} {sending : Option Outgoing}

/-- A header is sent, with a payload to follow. -/
theorem send (h : Carries ⟨awaited, headers, payloads, none⟩ q) (hne : o.payload ≠ [])
    (hshort : o.payload.length < 2 ^ 31) :
    Carries ⟨awaited, headers ++ [o.message.header.toBytes], payloads, some o⟩ q where
  headers := by
    have hold := h.headers
    rw [Option.toList_none, List.append_nil] at hold
    rw [← List.append_assoc, hold, Option.toList_some, List.map_append, List.map_singleton]
  payloads := h.payloads
  sending _ ho := Option.some.inj ho ▸ hne
  awaited := h.awaited
  short o' ho' := by
    rcases List.mem_append.1 ho' with hold | hnew
    · exact h.short o' (List.mem_append_left _ hold)
    · exact List.mem_singleton.1 hnew ▸ hshort

theorem sendPayload (h : Carries ⟨awaited, headers, payloads, some o⟩ q) :
    Carries ⟨awaited, headers, payloads ++ [o.payload], none⟩ (q ++ [o]) where
  headers := by rw [h.headers, Option.toList_some, Option.toList_none, List.append_nil]
  payloads := by
    have hne : o.payload ≠ [] := h.sending o rfl
    have hold : payloads = (q.map (·.payload)).filter (· ≠ []) := h.payloads
    rw [hold, List.map_append, List.filter_append, List.map_singleton, List.filter_singleton,
      decide_eq_true hne, cond_true]
  sending := nofun
  awaited := h.awaited
  short o' ho' := by
    rw [Option.toList_none, List.append_nil] at ho'
    exact h.short o' ho'

theorem sendAll (h : Carries ⟨awaited, headers, payloads, none⟩ q) (hnil : o.payload = []) :
    Carries ⟨awaited, headers ++ [o.message.header.toBytes], payloads, none⟩ (q ++ [o]) where
  headers := by
    have hold := h.headers
    rw [Option.toList_none, List.append_nil] at hold ⊢
    rw [← List.append_assoc, hold, List.map_append, List.map_singleton]
  payloads := by
    rw [h.payloads, List.map_append, List.filter_append, List.map_singleton, hnil]
    simp
  sending := nofun
  awaited := h.awaited
  short o' ho' := by
    rw [Option.toList_none, List.append_nil] at ho'
    rcases List.mem_append.1 ho' with hold | hnew
    · exact h.short o' (List.mem_append_left _ hold)
    · rw [List.mem_singleton.1 hnew, hnil]
      decide

theorem recv (h : Carries ⟨none, frame :: rest, payloads, sending⟩ q)
    (hne : (MessageHeader.ofBytes frame).payloadLen ≠ 0) :
    Carries ⟨some (.ofBytes frame), rest, payloads, sending⟩ q where
  headers := by
    have hold : frame :: rest = (q ++ sending.toList).map fun o => o.message.header.toBytes :=
      h.headers
    obtain ⟨o, l, -, hframe, -⟩ := List.map_eq_cons_iff.1 hold.symm
    rw [← hold, ← hframe, MessageHeader.ofBytes_toBytes]
    rfl
  payloads := h.payloads
  sending := h.sending
  awaited _ hh := Option.some.inj hh ▸ hne
  short := h.short

theorem recvAll (h : Carries ⟨none, frame :: rest, payloads, sending⟩ q)
    (hzero : (MessageHeader.ofBytes frame).payloadLen = 0) :
    ∃ o q', q = o :: q' ∧ MessageHeader.ofBytes frame = o.message.header ∧ o.payload = [] ∧
      Carries ⟨none, rest, payloads, sending⟩ q' := by
  have hold : frame :: rest = (q ++ sending.toList).map fun o => o.message.header.toBytes :=
    h.headers
  rcases q with - | ⟨o, q⟩
  -- A message that is being sent has a payload.
  · rcases sending with - | o
    · exact absurd hold nofun
    · have hframe : frame = o.message.header.toBytes := (List.cons.inj hold).1
      rw [hframe, MessageHeader.ofBytes_toBytes, o.payloadLen_eq_zero_iff] at hzero
      exact absurd hzero (h.sending o rfl)
  · obtain ⟨hframe, hrest⟩ := List.cons.inj hold
    have hheader : MessageHeader.ofBytes frame = o.message.header := by
      rw [hframe, MessageHeader.ofBytes_toBytes]
    have hnil : o.payload = [] := o.payloadLen_eq_zero_iff.1 (hheader ▸ hzero)
    refine ⟨o, q, rfl, hheader, hnil, hrest, ?_, h.sending, nofun, ?_⟩
    · rw [h.payloads, List.map_cons, hnil]
      rfl
    · exact fun o' ho' => h.short o' (List.mem_cons_of_mem _ ho')

theorem awaited_short (h : Carries ⟨some header, headers, payloads, sending⟩ q) :
    header.payloadLen.toNat < 2 ^ 31 := by
  have hall : header.toBytes :: headers =
      (q ++ sending.toList).map fun o => o.message.header.toBytes := h.headers
  obtain ⟨o, l, hl, hbytes, -⟩ := List.map_eq_cons_iff.1 hall.symm
  rw [← MessageHeader.ofBytes_toBytes header, ← hbytes, MessageHeader.ofBytes_toBytes,
    o.toNat_payloadLen]
  exact h.short o (hl ▸ List.mem_cons_self)

theorem recvPayload (h : Carries ⟨some header, headers, frame :: rest, sending⟩ q) :
    ∃ o q', q = o :: q' ∧ header = o.message.header ∧ frame = o.payload ∧
      Carries ⟨none, headers, rest, sending⟩ q' := by
  have hqueue : frame :: rest = (q.map (·.payload)).filter (· ≠ []) := h.payloads
  rcases q with - | ⟨o, q⟩
  · exact absurd hqueue nofun
  · obtain ⟨hbytes, hrest⟩ := List.cons.inj h.headers
    have hheader : header = o.message.header := by
      rw [← MessageHeader.ofBytes_toBytes header, hbytes, MessageHeader.ofBytes_toBytes]
    have hne : o.payload ≠ [] := fun hnil =>
      h.awaited header rfl (hheader ▸ o.payloadLen_eq_zero_iff.2 hnil)
    rw [List.map_cons, List.filter_cons, if_pos (decide_eq_true hne)] at hqueue
    obtain ⟨hframe, hpayloads⟩ := List.cons.inj hqueue
    refine ⟨o, q, rfl, hheader, hframe, hrest, hpayloads, h.sending, nofun, ?_⟩
    exact fun o' ho' => h.short o' (List.mem_cons_of_mem _ ho')

end MpiLink.Carries

/-! ### All ranks -/

/-- Short payloads are sent, and every header that is taken gets its message. -/
def MpiLabel.Ordinary : MpiLabel → Prop
  | .send _ o => o.payload.length < 2 ^ 31
  | .recv _ allocated => allocated = true
  | .sendPayload _ | .recvPayload _ => True

namespace MpiNet

/-- What concerns a rank. -/
def link (s : MpiNet) (rank : ℕ) : MpiLink where
  awaited := s.receiving.bind fun r => if r.1 = rank then some r.2 else none
  headers := s.headers rank
  payloads := s.payloads rank
  sending := s.sending rank

/-- Nothing is on its way from a rank. -/
def Quiet (s : MpiNet) (rank : ℕ) : Prop :=
  s.headers rank = [] ∧ s.sending rank = none ∧ ∀ header, s.receiving ≠ some (rank, header)

variable {s s' : MpiNet} {q : ℕ → List Outgoing}

/-- From messages `q` on their way, the events lead to a state that carries the messages they leave
on their way. -/
def Leads (q : ℕ → List Outgoing) (r : MpiNet × List (Event ℕ Content)) : Prop :=
  ∃ q' : ℕ → List Outgoing, (∀ rank, (r.1.link rank).Carries (q' rank)) ∧
    Fifo (fun rank => (q rank).map (·.content)) r.2 fun rank => (q' rank).map (·.content)

/-- A step that only concerns one rank keeps the pairing at the others. -/
theorem carries_update (h : ∀ rank, (s.link rank).Carries (q rank)) {rank : ℕ} {l : List Outgoing}
    (hother : ∀ r, r ≠ rank → s'.link r = s.link r) (hk : (s'.link rank).Carries l) :
    ∀ r, (s'.link r).Carries (Function.update q rank l r) := by
  intro r
  rcases eq_or_ne r rank with rfl | hne
  · rwa [Function.update_self]
  · rw [Function.update_of_ne hne, hother r hne]
    exact h r

/-- The same, with nothing sent or received. -/
theorem leads_silent (h : ∀ rank, (s.link rank).Carries (q rank)) (rank : ℕ)
    (hother : ∀ r, r ≠ rank → s'.link r = s.link r) (hk : (s'.link rank).Carries (q rank)) :
    Leads q (s', []) :=
  ⟨q, Function.update_eq_self rank q ▸ carries_update h hother hk, fifo_nil _⟩

theorem leads_send (h : ∀ rank, (s.link rank).Carries (q rank)) {rank : ℕ} {o : Outgoing}
    (hidle : s.sending rank = none) (hshort : o.payload.length < 2 ^ 31) :
    Leads q (s.send rank o) := by
  have hvalid : ¬ messageValidate o.message ≠ 0 := not_not_intro (o.messageValidate_eq_zero o.fits)
  have hk : MpiLink.Carries ⟨(s.link rank).awaited, s.headers rank, s.payloads rank, none⟩
      (q rank) := hidle ▸ h rank
  rw [send, if_neg hvalid]
  rcases eq_or_ne o.payload [] with hnil | hne
  · rw [if_neg (not_not_intro (o.payloadLen_eq_zero_iff.2 hnil))]
    refine ⟨_, carries_update h (fun r hr => ?_) ?_, fifo_enter (·.content) q rank o⟩
    · simp only [link, Function.update_of_ne hr]
    · simp only [link, Function.update_self, hidle]
      exact hk.sendAll hnil
  · rw [if_pos (mt o.payloadLen_eq_zero_iff.1 hne)]
    refine leads_silent h rank (fun r hr => ?_) ?_
    · simp only [link, Function.update_of_ne hr]
    · simp only [link, Function.update_self]
      exact hk.send hne hshort

theorem leads_sendPayload (h : ∀ rank, (s.link rank).Carries (q rank)) {rank : ℕ} {o : Outgoing}
    (hsending : s.sending rank = some o) : Leads q (s.sendPayload rank o) := by
  have hk : MpiLink.Carries ⟨(s.link rank).awaited, s.headers rank, s.payloads rank, some o⟩
      (q rank) := hsending ▸ h rank
  have hcount : ¬ CountNegative o.message.header.payloadLen := by
    rw [CountNegative, o.toNat_payloadLen, Nat.not_le]
    exact hk.short o (List.mem_append_right _ (List.mem_singleton_self o))
  rw [sendPayload, if_neg hcount]
  refine ⟨_, carries_update h (fun r hr => ?_) ?_, fifo_enter (·.content) q rank o⟩
  · simp only [link, Function.update_of_ne hr]
  · simp only [link, Function.update_self]
    exact hk.sendPayload

theorem leads_recv (h : ∀ rank, (s.link rank).Carries (q rank)) {source : ℕ} {frame : Frame}
    {rest : List Frame} (hidle : s.receiving = none)
    (hheaders : s.headers source = frame :: rest) : Leads q (s.recv source true frame rest) := by
  have hk : MpiLink.Carries ⟨none, frame :: rest, s.payloads source, s.sending source⟩
      (q source) := by
    have hall := h source
    rwa [link, hidle, hheaders] at hall
  rw [recv, if_pos rfl]
  split
  · next hne =>
    refine leads_silent h source (fun r hr => ?_) ?_
    · simp only [link, Function.update_of_ne hr, hidle, Option.bind_some, if_neg hr.symm,
        Option.bind_none]
    · simp only [link, Function.update_self, Option.bind_some, if_pos]
      exact hk.recv hne
  · next hzero =>
    obtain ⟨o, l, hq, hheader, hnil, hk'⟩ := hk.recvAll (not_not.1 hzero)
    have hvalid : ¬ messageValidate ⟨.ofBytes frame, [], 0⟩ ≠ 0 := by
      rw [hheader]
      exact not_not_intro (o.messageValidate_eq_zero (by rw [hnil]; rfl))
    have hcontent : Message.content ⟨.ofBytes frame, [], 0⟩ = o.content := by
      rw [hheader, Outgoing.content, hnil]
      rfl
    rw [returned, if_neg hvalid, hcontent]
    refine ⟨_, carries_update h (fun r hr => ?_) ?_, fifo_leave (·.content) hq⟩
    · simp only [link, Function.update_of_ne hr]
    · simp only [link, Function.update_self, hidle]
      exact hk'

theorem leads_recvPayload (h : ∀ rank, (s.link rank).Carries (q rank)) {source : ℕ}
    {header : MessageHeader} {buffer : ℕ → UInt8} {r : MpiNet × List (Event ℕ Content)}
    (hrecv : s.receiving = some (source, header))
    (hs : s.recvPayload buffer source header = some r) : Leads q r := by
  have hk : MpiLink.Carries ⟨some header, s.headers source, s.payloads source, s.sending source⟩
      (q source) := by
    have hall := h source
    rwa [link, hrecv, Option.bind_some, if_pos rfl] at hall
  have hcount : ¬ CountNegative header.payloadLen := Nat.not_le.2 hk.awaited_short
  rw [recvPayload, if_neg hcount] at hs
  dsimp only at hs
  rcases hpayloads : s.payloads source with - | ⟨bytes, rest⟩
  · rw [hpayloads] at hs
    exact absurd hs nofun
  · rw [hpayloads] at hs hk
    obtain ⟨o, l, hq, rfl, rfl, hk'⟩ := hk.recvPayload
    have hlen : ¬ o.message.header.payloadLen.toNat < o.payload.length := by
      rw [o.toNat_payloadLen]
      exact Nat.lt_irrefl _
    dsimp only at hs
    rw [if_neg hlen, o.toNat_payloadLen, overwrite_self, returned,
      if_neg (not_not_intro (o.messageValidate_eq_zero le_rfl))] at hs
    obtain rfl := Option.some.inj hs
    refine ⟨_, carries_update h (fun r hr => ?_) ?_, fifo_leave (·.content) hq⟩
    · simp only [link, Function.update_of_ne hr, hrecv, Option.bind_some, if_neg hr.symm,
        Option.bind_none]
    · simp only [link, Function.update_self, Option.bind_none]
      exact hk'

/-- **One step** moves the messages on their way as its events say. -/
theorem leads_step (h : ∀ rank, (s.link rank).Carries (q rank)) {l : MpiLabel} (hl : l.Ordinary)
    {r : MpiNet × List (Event ℕ Content)} (hs : s.step l = some r) : Leads q r := by
  cases l with
  | send rank o =>
    rcases hidle : s.sending rank with - | o'
    · simp only [step, hidle] at hs
      exact Option.some.inj hs ▸ leads_send h hidle hl
    · simp only [step, hidle] at hs
      exact absurd hs nofun
  | sendPayload rank =>
    obtain ⟨o, hsending, hs⟩ := Option.map_eq_some_iff.1 hs
    exact hs ▸ leads_sendPayload h hsending
  | recv source allocated =>
    rcases hidle : s.receiving with - | r
    · rcases hheaders : s.headers source with - | ⟨frame, rest⟩
      · simp only [step, hidle, hheaders] at hs
        exact absurd hs nofun
      · simp only [step, hidle, hheaders] at hs
        obtain rfl : allocated = true := hl
        exact Option.some.inj hs ▸ leads_recv h hidle hheaders
    · simp only [step, hidle] at hs
      exact absurd hs nofun
  | recvPayload buffer =>
    rcases hrecv : s.receiving with - | ⟨source, header⟩
    · simp only [step, hrecv] at hs
      exact absurd hs nofun
    · simp only [step, hrecv] at hs
      exact leads_recvPayload h hrecv hs

/-- What runs keep: some messages are on their way, and the log leads to them. -/
def Carrying (s : MpiNet × List (Event ℕ Content)) : Prop :=
  ∃ q : ℕ → List Outgoing, (∀ rank, (s.1.link rank).Carries (q rank)) ∧
    Fifo (fun _ => []) s.2 fun rank => (q rank).map (·.content)

theorem Carrying.step {s t : MpiNet × List (Event ℕ Content)} {l : MpiLabel} (h : Carrying s)
    (hl : l.Ordinary) (hs : logged MpiNet.step s l = some t) : Carrying t := by
  obtain ⟨q, hq, hfifo⟩ := h
  obtain ⟨es, hstep, hlog⟩ := logged_eq_some_iff.1 hs
  obtain ⟨q', hq', hfifo'⟩ := leads_step hq hl hstep
  exact ⟨q', hq', hlog ▸ hfifo.append hfifo'⟩

theorem Carrying.delivered {s : MpiNet × List (Event ℕ Content)} (h : Carrying s) :
    Delivered s.1.Quiet s.2 := by
  obtain ⟨q, hq, hfifo⟩ := h
  refine hfifo.delivered fun rank ⟨hheaders, hsending, hreceiving⟩ => List.map_eq_nil_iff.2 ?_
  have hawaited : (s.1.link rank).awaited = none := by
    refine Option.bind_eq_none_iff.2 fun ⟨source, header⟩ hr => if_neg fun hsource => ?_
    exact hreceiving header (hsource ▸ hr)
  have hall := (hq rank).headers
  rw [hawaited] at hall
  simpa [link, hheaders, hsending] using hall

/-- **Delivery over MPI.** In every run in which short payloads are sent and every header that is
taken gets its message, what is received from a rank is what it sent. -/
theorem delivered_along_of_ordinary {labels : List MpiLabel} (hl : ∀ l ∈ labels, l.Ordinary) :
    Along (logged step) (fun s => Delivered s.1.Quiet s.2) ({}, []) labels := by
  have hinit : Carrying ({}, []) :=
    ⟨fun _ => [], fun _ => ⟨rfl, rfl, nofun, nofun, nofun⟩, fifo_nil _⟩
  exact (along_of_labels Carrying.step hinit hl).mono Carrying.delivered

/-- A message with a payload of one byte. -/
def oneByte (taskId : UInt64) (byte : UInt8) : Outgoing where
  msgType := msgTypeTaskResult
  taskId := taskId
  payload := [byte]
  capacity := 1
  fits := le_rfl
  length_lt := (by decide : 1 < 2 ^ 32)

/-- A rank sends two messages. -/
def twoResults : List MpiLabel :=
  [.send 1 (oneByte 1 10), .sendPayload 1, .send 1 (oneByte 2 20), .sendPayload 1]

/-- **A header is paired with the payload of another message**, after there was no memory for that
message. -/
theorem mispaired_after_failed_alloc :
    ∃ s, Run (logged step) ({}, [])
        (twoResults ++ [.recv 1 false, .recv 1 true, .recvPayload fun _ => 0]) s ∧
      entered 1 s.2 = [(msgTypeTaskResult, 1, [10]), (msgTypeTaskResult, 2, [20])] ∧
      left 1 s.2 = [(msgTypeTaskResult, 2, [10])] :=
  ⟨_, run_get (by decide), by decide, by decide⟩

end MpiNet

end DistributedComputing
