import DistributedComputing.Coordinator.LoopInvariant
import DistributedComputing.Net.Message

/-!
# Workers that leave

A worker that shuts down says so: `transport_zmq_shutdown` sends a `MSG_TYPE_WORKER_SHUTDOWN` before
it closes the socket. The `switch` of `run_coordinator` has no case for it. The message ends in
`default:`, the scheduler's table stays as it is, and a worker that was idle in it is offered again
in the next round.

`Message.incoming` is that `switch`, on the messages the transport returns, and `tracked` the loop
on such messages, together with the workers that have left: those from which a shutdown message was
received, and no registration since. Work only goes to workers that the round listed as idle, so
none goes to a worker that has left if none is ever listed (`noWorkForDeparted_along`). That one can
be is `work_sent_to_departed`.
-/

namespace DistributedComputing

open StepRun

/-- `sizeof(task_result_t)`. -/
def taskResultSize : ℕ := 1080

/-- The `switch` over the type of a message, with what the handlers read of the payload. -/
def Message.incoming (msg : Message) : Incoming :=
  if msg.header.msgType = msgTypeWorkerRegister then
    .register <|
      if 12 ≤ msg.header.payloadLen.toNat then
        some ⟨.ofNat (MessageHeader.field msg.payload 0 4),
          .ofNat (MessageHeader.field msg.payload 4 4),
          .ofNat (MessageHeader.field msg.payload 8 4)⟩
      else none
  else if msg.header.msgType = msgTypeHeartbeat then .heartbeat
  else if msg.header.msgType = msgTypeTaskResult then
    .result <|
      if msg.header.payloadLen.toNat < taskResultSize then none
      else
        some ⟨.ofNat (MessageHeader.field msg.payload 0 8),
          (Int32.ofNat (MessageHeader.field msg.payload 8 4)).toInt⟩
  -- `default:`, which a `MSG_TYPE_WORKER_SHUTDOWN` reaches too
  else .other

/-- What the environment chooses, with the messages as the transport returns them. -/
inductive MessageLabel
  | enqueue (task : Task)
  | recv (msg : Option (UInt32 × Message)) (now registeredAt : Time)
  | internal
  | send (ok : Bool) (clock : ℕ → Time × Time)
  | timeouts (now : Time)

/-- The label of the loop. -/
def MessageLabel.label : MessageLabel → Label
  | .enqueue t => .enqueue t
  | .recv msg now registeredAt => .recv (msg.map fun r => (r.1, r.2.incoming)) now registeredAt
  | .internal => .internal
  | .send ok clock => .send ok clock
  | .timeouts now => .timeouts now

/-- The workers that have left, after one more step: a shutdown message adds its sender, a
registration takes it out again. -/
def departedAfter (departed : List UInt32) : MessageLabel → List UInt32
  | .recv (some (src, msg)) _ _ =>
    if msg.header.msgType = msgTypeWorkerShutdown then src :: departed
    else if msg.header.msgType = msgTypeWorkerRegister then departed.filter (· ≠ src)
    else departed
  | _ => departed

namespace Coordinator

/-- The loop, with the workers that have left. -/
def tracked (s : Coordinator × List UInt32) (l : MessageLabel) :
    Option (Coordinator × List UInt32) :=
  (s.1.next l.label).map fun c => (c, departedAfter s.2 l)

/-- `send_task_batch` is not about to be called for a worker that has left. -/
def NoWorkForDeparted (s : Coordinator × List UInt32) : Prop :=
  match s.1.pc with
  | .send w _ _ => w.workerId ∉ s.2
  | _ => True

/-- When the idle workers are listed, those that have left are not among them. -/
def ListsNoDeparted (s : Coordinator × List UInt32) : MessageLabel → Prop
  | .internal =>
    match s.1.pc with
    | .schedule => ∀ w ∈ s.1.sched.getIdleWorkers 256, w.workerId ∉ s.2
    | _ => True
  | _ => True

instance (s : Coordinator × List UInt32) (l : MessageLabel) : Decidable (ListsNoDeparted s l) := by
  unfold ListsNoDeparted
  split
  · split <;> infer_instance
  · infer_instance

/-- No worker that the round has still to serve has left. -/
def PendingPresent (s : Coordinator × List UInt32) : Prop :=
  ∀ w ∈ s.1.pc.pending, w.workerId ∉ s.2

variable {s t : Coordinator × List UInt32} {c c' : Coordinator} {l : MessageLabel}
  {es : List Event}

/-- A step serves no more workers than before, or lists the idle ones for a new round. -/
theorem pending_of_transition {l : Label} (hs : Transition c l c' es) :
    c'.pc.pending.Sublist c.pc.pending ∨
      (l = .internal ∧ c.pc = .schedule ∧ c'.pc.pending = c.sched.getIdleWorkers 256) := by
  cases hs with
  | schedule hpc => exact .inr ⟨rfl, hpc, rfl⟩
  | enqueueAccepted | enqueueRefused => exact .inl (List.Sublist.refl _)
  | recvNone | recvMsg | dispatchEnd | collectOverrun | timeouts => exact .inl (List.nil_sublist _)
  | dispatchWorker hpc | collectTask hpc | collectDone hpc | requeueDone hpc | requeueAccepted hpc
  | requeueRefused hpc =>
    rw [hpc]
    exact .inl (List.Sublist.refl _)
  | collectNothing hpc | sendOk hpc | sendFail hpc =>
    rw [hpc]
    exact .inl (List.sublist_cons_self _ _)

/-- Messages are received between rounds only, so within a round nobody leaves. -/
theorem departedAfter_of_pending {w : WorkerInfo} (hs : Transition c l.label c' es)
    (hw : w ∈ c'.pc.pending) (departed : List UInt32) : departedAfter departed l = departed := by
  cases l with
  | recv msg now registeredAt =>
    rcases msg with - | ⟨src, msg⟩
    · rfl
    · cases hs
      exact absurd hw List.not_mem_nil
  | enqueue | internal | send | timeouts => rfl

/-- **One step.** The round serves those it has listed. -/
theorem PendingPresent.step (h : PendingPresent s) (hok : ListsNoDeparted s l)
    (hs : tracked s l = some t) : PendingPresent t := by
  obtain ⟨c, departed⟩ := s
  obtain ⟨c', hnext, rfl⟩ := Option.map_eq_some_iff.1 hs
  obtain ⟨es, ht⟩ := transition_of_next hnext
  intro w hw
  show w.workerId ∉ departedAfter departed l
  rw [departedAfter_of_pending ht hw]
  rcases pending_of_transition ht with hsub | ⟨hl, hpc, hlist⟩
  · exact h w (hsub.subset hw)
  · -- a new round: the condition is about just these workers
    have hok' : ∀ w ∈ c.sched.getIdleWorkers 256, w.workerId ∉ departed := by
      cases l with
      | internal =>
        rw [ListsNoDeparted] at hok
        split at hok
        · exact hok
        · next hne => exact absurd hpc hne
      | enqueue | recv | send | timeouts => exact absurd hl nofun
    exact hok' w (hlist ▸ hw)

theorem PendingPresent.noWork (h : PendingPresent s) : NoWorkForDeparted s := by
  rw [NoWorkForDeparted]
  split
  · next w rest batch hpc =>
    refine h w ?_
    rw [hpc]
    exact List.mem_cons_self
  · trivial

/-- **No work for workers that have left.** In every run in which no worker that has left is idle in
the table when the idle workers are listed, `send_task_batch` is never called for such a worker. -/
theorem noWorkForDeparted_along {labels : List MessageLabel}
    (hlists : Meets tracked ListsNoDeparted (init, []) labels) :
    Along tracked NoWorkForDeparted (init, []) labels :=
  (along_of_meets PendingPresent.step (fun _ hw => absurd hw List.not_mem_nil) hlists).mono
    PendingPresent.noWork

/-- A message without payload. -/
def bareMessage (msgType : UInt16) : Message where
  header := ⟨messageMagic, envelopeVersion, msgType, 0, 0⟩
  payload := []
  payloadCapacity := 0

/-- A worker leaves, registers again, and gets a task. -/
theorem noWorkForDeparted_along_return :
    Along tracked NoWorkForDeparted (init, [])
      [.recv (some (7, bareMessage msgTypeWorkerShutdown)) 0 0, .internal, .internal, .timeouts 0,
        .recv (some (7, bareMessage msgTypeWorkerRegister)) 0 0, .enqueue { taskId := 1 },
        .internal, .internal, .internal, .internal] :=
  noWorkForDeparted_along (by decide)

/-- A worker registers and leaves; the next round that has a task sends it to that worker. -/
theorem work_sent_to_departed :
    ¬ Along tracked NoWorkForDeparted (init, [])
      [.recv (some (7, bareMessage msgTypeWorkerRegister)) 0 0, .internal, .internal, .timeouts 0,
        .recv (some (7, bareMessage msgTypeWorkerShutdown)) 1 0, .internal, .internal, .timeouts 1,
        .enqueue { taskId := 1 }, .recv none 2 0, .internal, .internal, .internal, .internal] := by
  intro h
  exact h.2.2.2.2.2.2.2.2.2.2.2.2.2.2 List.mem_cons_self

end Coordinator

end DistributedComputing
