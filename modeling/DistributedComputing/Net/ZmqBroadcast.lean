import DistributedComputing.Net.ZmqRegistry

/-!
# Broadcasting over ZeroMQ

`transport_zmq_broadcast` locks the registry, goes through it and calls `transport_zmq_send` for
every active worker; `transport_zmq_send` locks the registry to read the worker's identity. Each of
the two is right alone. Together they lock a mutex that the same thread holds, and the mutex is
initialised with default attributes: it is not recursive, and the second lock never returns.

`broadcast_iff` says for every registry and every valid message what follows, from what a send
under the lock does (`transportZmqSend_of_held`).

Points of the representation:

* `held` is how often the thread holds the mutex. A lock that never returns is `none`;
* the socket is the list of frames it has accepted, each with whether it was announced that more
  follow. Which calls of `zmq_send` succeed is the choice of the environment, an argument that says
  so for each call;
* messages have the payload they announce; the null checks and the log are left out.
-/

namespace DistributedComputing

open StepRun

/-- What becomes of a thread that locks a mutex it holds. -/
inductive MutexKind
  | normal
  | recursive
  deriving DecidableEq, Repr

/-- A frame with whether more are to follow, `ZMQ_SNDMORE`. -/
abbrev OutFrame := Frame × Bool

/-- `struct zmq_transport`, the part that sending reads and writes. -/
structure ZmqSender where
  role : TransportRole
  workers : List WorkerEntry
  /-- how often the thread holds `worker_lock` -/
  held : ℕ := 0
  /-- the number of calls of `zmq_send` so far -/
  calls : ℕ := 0
  sent : List OutFrame := []
  errors : UInt64 := 0
  messagesSent : UInt64 := 0
  bytesSent : UInt64 := 0
  deriving DecidableEq, Repr

namespace ZmqSender

/-! ### Sending -/

/-- `pthread_mutex_lock(&zmq->worker_lock)`, if it returns. -/
def lock (kind : MutexKind) (z : ZmqSender) : Option ZmqSender :=
  if z.held = 0 ∨ kind = .recursive then some { z with held := z.held + 1 } else none

/-- `pthread_mutex_unlock(&zmq->worker_lock)`. -/
def unlock (z : ZmqSender) : ZmqSender := { z with held := z.held - 1 }

/-- `zmq_send`, and whether it succeeds. -/
def zmqSend (ok : ℕ → Bool) (z : ZmqSender) (f : OutFrame) : Bool × ZmqSender :=
  (ok z.calls, { z with
    calls := z.calls + 1
    sent := if ok z.calls then z.sent ++ [f] else z.sent })

/-- A failed send. -/
def failed (z : ZmqSender) : ZmqSender := { z with errors := z.errors + 1 }

/-- `transport_zmq_send` from the header on. -/
def sendMessage (ok : ℕ → Bool) (z : ZmqSender) (msg : Message) : ℤ × ZmqSender :=
  let header := z.zmqSend ok (msg.header.toBytes, decide (msg.header.payloadLen ≠ 0))
  if header.1 then
    let counted (z : ZmqSender) : ZmqSender := { z with
      messagesSent := z.messagesSent + 1
      bytesSent := z.bytesSent + (.ofNat MessageHeader.size + msg.header.payloadLen.toUInt64) }
    if msg.header.payloadLen ≠ 0 then
      let payload := header.2.zmqSend ok (msg.payload, false)
      if payload.1 then (0, counted payload.2) else (-6, payload.2.failed)
    else (0, counted header.2)
  else (-5, header.2.failed)

/-- `transport_zmq_send`, if it returns. -/
def transportZmqSend (kind : MutexKind) (ok : ℕ → Bool) (z : ZmqSender) (msg : Message)
    (dstRank : ℤ) : Option (ℤ × ZmqSender) :=
  if messageValidate msg ≠ 0 then some (-2, z)
  else
    match z.role with
    | .worker => some (z.sendMessage ok msg)
    | .coordinator =>
      if dstRank < 0 then some (-3, z)
      else
        match z.workers[dstRank.toNat]? with
        | none => some (-3, z)
        | some w =>
          (z.lock kind).map fun z =>
            let identity := z.zmqSend ok (w.identity, true)
            if identity.1 then identity.2.unlock.sendMessage ok msg
            else (-4, identity.2.unlock.failed)

/-! ### Broadcasting -/

/-- The loop of `transport_zmq_broadcast` from index `i` on, with the number of failed sends. -/
def broadcastLoop (kind : MutexKind) (ok : ℕ → Bool) (msg : Message) :
    List WorkerEntry → ℕ → ℕ → ZmqSender → Option (ℕ × ZmqSender)
  | [], _, errors, z => some (errors, z)
  | w :: ws, i, errors, z =>
    if w.active then
      (z.transportZmqSend kind ok msg i).bind fun r =>
        broadcastLoop kind ok msg ws (i + 1) (if r.1 ≠ 0 then errors + 1 else errors) r.2
    else broadcastLoop kind ok msg ws (i + 1) errors z

/-- `transport_zmq_broadcast`, if it returns. -/
def transportZmqBroadcast (kind : MutexKind) (ok : ℕ → Bool) (z : ZmqSender) (msg : Message) :
    Option (ℤ × ZmqSender) :=
  if z.role ≠ .coordinator then some (-2, z)
  else
    (z.lock kind).bind fun z =>
      (broadcastLoop kind ok msg z.workers 0 0 z).map fun r =>
        (if 0 < r.1 then -3 else 0, r.2.unlock)

/-! ### One send -/

/-- The frames of a message to a worker. -/
def framesTo (msg : Message) (w : WorkerEntry) : List OutFrame :=
  (w.identity, true) :: (msg.header.toBytes, decide (msg.header.payloadLen ≠ 0)) ::
    if msg.header.payloadLen ≠ 0 then [(msg.payload, false)] else []

variable {kind : MutexKind} {ok : ℕ → Bool} {z : ZmqSender} {msg : Message} {w : WorkerEntry}
  {i : ℕ}

/-- **A send under the lock** does not return. -/
theorem transportZmqSend_of_held (hheld : z.held ≠ 0) (hrole : z.role = .coordinator)
    (hvalid : messageValidate msg = 0) (hw : z.workers[i]? = some w) :
    z.transportZmqSend .normal ok msg i = none := by
  have hnonneg : ¬ (i : ℤ) < 0 := Int.not_lt.2 (Int.natCast_nonneg i)
  have hlock : ¬ (z.held = 0 ∨ MutexKind.normal = .recursive) := by
    rintro (h | h)
    · exact hheld h
    · cases h
  rw [transportZmqSend, if_neg (not_not_intro hvalid), hrole]
  dsimp only
  rw [if_neg hnonneg, Int.toNat_natCast, hw]
  dsimp only
  rw [lock, if_neg hlock, Option.map_none]

/-! ### The loop -/

/-- The entries the loop still has to visit are those of the registry from index `i` on. -/
structure AtIndex (z : ZmqSender) (ws : List WorkerEntry) (i : ℕ) : Prop where
  role : z.role = .coordinator
  rest : z.workers.drop i = ws

theorem AtIndex.getElem? {ws : List WorkerEntry} (h : AtIndex z (w :: ws) i) :
    z.workers[i]? = some w := by
  rw [← List.head?_drop, h.rest, List.head?_cons]

theorem AtIndex.next {ws : List WorkerEntry} (h : AtIndex z (w :: ws) i) :
    AtIndex z ws (i + 1) := by
  refine ⟨h.role, ?_⟩
  rw [← List.tail_drop, h.rest, List.tail_cons]

theorem broadcastLoop_cons {ws : List WorkerEntry} {errors : ℕ} :
    broadcastLoop kind ok msg (w :: ws) i errors z =
      if w.active then
        (z.transportZmqSend kind ok msg i).bind fun r =>
          broadcastLoop kind ok msg ws (i + 1) (if r.1 ≠ 0 then errors + 1 else errors) r.2
      else broadcastLoop kind ok msg ws (i + 1) errors z := rfl

/-- Without active workers the loop does nothing. -/
theorem broadcastLoop_of_inactive {ws : List WorkerEntry} (h : ∀ w ∈ ws, w.active = false)
    (errors : ℕ) : broadcastLoop kind ok msg ws i errors z = some (errors, z) := by
  induction ws generalizing i with
  | nil => rfl
  | cons w ws ih =>
    obtain ⟨hw, hws⟩ := List.forall_mem_cons.1 h
    rw [broadcastLoop_cons, if_neg (Bool.eq_false_iff.1 hw), ih hws]

/-- **The loop blocks** at the first active worker. -/
theorem broadcastLoop_of_active {ws : List WorkerEntry} (h : ∃ w ∈ ws, w.active = true)
    (hat : AtIndex z ws i) (hheld : z.held ≠ 0) (hvalid : messageValidate msg = 0) (errors : ℕ) :
    broadcastLoop .normal ok msg ws i errors z = none := by
  induction ws generalizing i with
  | nil =>
    obtain ⟨w, hw, -⟩ := h
    exact absurd hw List.not_mem_nil
  | cons w ws ih =>
    rw [broadcastLoop_cons]
    split
    · rw [transportZmqSend_of_held hheld hat.role hvalid hat.getElem?, Option.bind_none]
    · next hw =>
      refine ih ?_ hat.next
      obtain ⟨w', hw', hactive⟩ := h
      rcases List.mem_cons.1 hw' with rfl | htail
      · exact absurd hactive hw
      · exact ⟨w', htail, hactive⟩

/-! ### Broadcasts -/

/-- What a broadcast is for: it returns and, if every call of `zmq_send` succeeds, returns 0 after
sending the message to each active worker once, in the order of the indices. -/
def Delivers (kind : MutexKind) (z : ZmqSender) (msg : Message) : Prop :=
  ∀ ok, ∃ r, z.transportZmqBroadcast kind ok msg = some r ∧
    ((∀ k, ok k = true) → r.1 = 0 ∧
      r.2.sent = z.sent ++ (z.workers.filter WorkerEntry.active).flatMap (framesTo msg))

/-- A broadcast with the lock taken. -/
theorem transportZmqBroadcast_eq (hrole : z.role = .coordinator) (hfree : z.held = 0) :
    z.transportZmqBroadcast kind ok msg =
      (broadcastLoop kind ok msg z.workers 0 0 { z with held := 1 }).map fun r =>
        (if 0 < r.1 then -3 else 0, r.2.unlock) := by
  rw [transportZmqBroadcast, if_neg (not_not_intro hrole), lock, if_pos (.inl hfree),
    Option.bind_some, hfree]

theorem transportZmqBroadcast_eq_none_iff (hrole : z.role = .coordinator) (hfree : z.held = 0)
    (hvalid : messageValidate msg = 0) (ok : ℕ → Bool) :
    z.transportZmqBroadcast .normal ok msg = none ↔ ∃ w ∈ z.workers, w.active = true := by
  rw [transportZmqBroadcast_eq hrole hfree, Option.map_eq_none_iff]
  by_cases h : ∃ w ∈ z.workers, w.active = true
  · have hat : AtIndex { z with held := 1 } z.workers 0 := ⟨hrole, rfl⟩
    exact iff_of_true (broadcastLoop_of_active h hat Nat.one_ne_zero hvalid 0) h
  · refine iff_of_false ?_ h
    rw [broadcastLoop_of_inactive fun w hw => Bool.eq_false_iff.2 fun ha => h ⟨w, hw, ha⟩]
    exact Option.some_ne_none _

/-- **Broadcast.** For every registry and every valid message: the broadcast returns, and delivers
if every call of `zmq_send` succeeds, exactly if no registered worker is active. -/
theorem broadcast_iff (hrole : z.role = .coordinator) (hfree : z.held = 0)
    (hvalid : messageValidate msg = 0) :
    Delivers .normal z msg ↔ ∀ w ∈ z.workers, w.active = false := by
  constructor
  · intro h w hw
    obtain ⟨r, hr, -⟩ := h fun _ => true
    refine Bool.eq_false_iff.2 fun hactive => ?_
    rw [(transportZmqBroadcast_eq_none_iff hrole hfree hvalid _).2 ⟨w, hw, hactive⟩] at hr
    cases hr
  · intro h ok
    have hnone : z.workers.filter WorkerEntry.active = [] :=
      List.filter_eq_nil_iff.2 fun w hw => Bool.eq_false_iff.1 (h w hw)
    rw [transportZmqBroadcast_eq hrole hfree, broadcastLoop_of_inactive h, hnone]
    exact ⟨_, rfl, fun _ => ⟨rfl, (List.append_nil _).symm⟩⟩

/-- A registry with two workers that are not active. -/
theorem broadcast_iff_inactive :
    Delivers .normal ⟨.coordinator, [⟨[65], 0, false⟩, ⟨[66], 0, false⟩], 0, 0, [], 0, 0, 0⟩
      Receiver.registerMessage :=
  (broadcast_iff rfl rfl (by decide)).2 (by decide)

/-- One active worker: the broadcast does not return, and so delivers nothing. -/
theorem broadcast_blocks_for_one_worker :
    transportZmqBroadcast .normal (fun _ => true)
      ⟨.coordinator, [⟨[65], 0, true⟩], 0, 0, [], 0, 0, 0⟩ Receiver.registerMessage = none := by
  decide

end ZmqSender

end DistributedComputing
