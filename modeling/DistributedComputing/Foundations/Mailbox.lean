import Mathlib.Data.List.Perm.Basic

/-!
# Addressed messages in flight

A network between parties named by `κ` is the list of its messages in flight, each with an address:
the receiver, where one party sends to many, or the sender, where one party receives from many.
Sending appends. Delivery is **first in, first out per address** and in any order across addresses:
`deliver i a` is enabled if the first message with address `i` is `a`, and removes it.

Conservation arguments need the messages as a collection: exactly the delivered message is gone
(`deliver_perm`). Arguments about the order look at one address at a time: `inbox i` are the
messages with address `i`, and `deliver` takes the first of them and leaves the other addresses
alone (`inbox_deliver`).
-/

namespace Mailbox

variable {κ α β : Type*} [DecidableEq κ] [DecidableEq α]

/-- The messages left after the delivery of `a` at address `i`, if `a` is the first message there.
-/
def deliver (i : κ) (a : α) : List (κ × α) → Option (List (κ × α))
  | [] => none
  | m :: l =>
    if m.1 = i then if m.2 = a then some l else none
    else (deliver i a l).map (m :: ·)

variable {i : κ} {a : α} {l l' : List (κ × α)}

/-- **Exactly the delivered message is gone.** -/
theorem deliver_perm (h : deliver i a l = some l') : l.Perm ((i, a) :: l') := by
  induction l generalizing l' with
  | nil => exact absurd h nofun
  | cons m l ih =>
    rw [deliver] at h
    split at h
    · next hi =>
      split at h
      · next ha =>
        obtain rfl := Option.some.inj h
        rw [← hi, ← ha]
      · exact absurd h nofun
    · obtain ⟨k, hk, rfl⟩ := Option.map_eq_some_iff.1 h
      exact ((ih hk).cons m).trans (.swap _ _ _)

theorem length_deliver (h : deliver i a l = some l') : l.length = l'.length + 1 :=
  (deliver_perm h).length_eq

theorem count_deliver (h : deliver i a l = some l') (b : α) :
    (l.map Prod.snd).count b = [a].count b + (l'.map Prod.snd).count b := by
  rw [((deliver_perm h).map Prod.snd).count_eq, List.map_cons, ← List.singleton_append,
    List.count_append]

theorem count_flatMap_deliver [DecidableEq β] (f : α → List β) (h : deliver i a l = some l')
    (b : β) :
    (l.flatMap fun m => f m.2).count b = (f a).count b + (l'.flatMap fun m => f m.2).count b := by
  rw [((deliver_perm h).flatMap_right _).count_eq, List.flatMap_cons, List.count_append]

/-- Messages that are read as something else are delivered as that. -/
theorem deliver_map [DecidableEq β] (f : α → β) (h : deliver i a l = some l') :
    deliver i (f a) (l.map fun m => (m.1, f m.2)) = some (l'.map fun m => (m.1, f m.2)) := by
  induction l generalizing l' with
  | nil => cases h
  | cons m l ih =>
    rw [deliver] at h
    rw [List.map_cons, deliver]
    split at h
    · next hi =>
      split at h
      · next ha =>
        cases h
        rw [if_pos hi, if_pos (congrArg f ha)]
      · cases h
    · next hi =>
      obtain ⟨k, hk, rfl⟩ := Option.map_eq_some_iff.1 h
      rw [if_neg hi, ih hk]
      rfl

/-- The messages after a receive, which may have found nothing. -/
def receive : Option (κ × α) → List (κ × α) → Option (List (κ × α))
  | none, l => some l
  | some m, l => deliver m.1 m.2 l

theorem mem_of_receive {msg : Option (κ × α)} {m : κ × α} (h : receive msg l = some l')
    (hm : m ∈ l') : m ∈ l := by
  cases msg with
  | none =>
    cases h
    exact hm
  | some msg => exact (deliver_perm h).mem_iff.2 (List.mem_cons_of_mem _ hm)

theorem receive_map [DecidableEq β] {msg : Option (κ × α)} (f : α → β)
    (h : receive msg l = some l') :
    receive (msg.map fun m => (m.1, f m.2)) (l.map fun m => (m.1, f m.2)) =
      some (l'.map fun m => (m.1, f m.2)) := by
  cases msg with
  | none =>
    cases h
    rfl
  | some msg => exact deliver_map f h

/-! ### One address at a time -/

/-- The messages with address `i`, in the order in which they were sent. -/
def inbox (i : κ) (l : List (κ × α)) : List α := (l.filter fun m => m.1 = i).map Prod.snd

omit [DecidableEq α] in
theorem inbox_cons (i : κ) (m : κ × α) (l : List (κ × α)) :
    inbox i (m :: l) = if m.1 = i then m.2 :: inbox i l else inbox i l := by
  rw [inbox, List.filter_cons]
  by_cases hi : m.1 = i <;> simp [hi, inbox]

omit [DecidableEq α] in
@[simp] theorem inbox_append (i : κ) (l l' : List (κ × α)) :
    inbox i (l ++ l') = inbox i l ++ inbox i l' := by
  rw [inbox, List.filter_append, List.map_append]
  rfl

omit [DecidableEq α] in
theorem inbox_map (i : κ) (f : α → β) (l : List (κ × α)) :
    inbox i (l.map fun m => (m.1, f m.2)) = (inbox i l).map f := by
  simp [inbox, List.filter_map, Function.comp_def]

omit [DecidableEq α] in
theorem mem_inbox {m : κ × α} (h : m ∈ l) : m.2 ∈ inbox m.1 l :=
  List.mem_map.2 ⟨m, List.mem_filter.2 ⟨h, decide_eq_true rfl⟩, rfl⟩

/-- **Delivery takes the first message at its address**, and leaves the other addresses alone. -/
theorem inbox_deliver (h : deliver i a l = some l') :
    inbox i l = a :: inbox i l' ∧ ∀ j, j ≠ i → inbox j l' = inbox j l := by
  induction l generalizing l' with
  | nil => cases h
  | cons m l ih =>
    rw [deliver] at h
    split at h
    · next hi =>
      split at h
      · next ha =>
        cases h
        refine ⟨by rw [inbox_cons, if_pos hi, ha], fun j hj => ?_⟩
        rw [inbox_cons, if_neg (hi.trans_ne hj.symm)]
      · cases h
    · next hi =>
      obtain ⟨k, hk, rfl⟩ := Option.map_eq_some_iff.1 h
      obtain ⟨hfirst, hother⟩ := ih hk
      refine ⟨by rw [inbox_cons, if_neg hi, inbox_cons, if_neg hi, hfirst], fun j hj => ?_⟩
      rw [inbox_cons, inbox_cons, hother j hj]

/-- What is first at its address can be delivered. -/
theorem exists_deliver {as : List α} (h : inbox i l = a :: as) : ∃ l', deliver i a l = some l' := by
  induction l with
  | nil => cases h
  | cons m l ih =>
    rw [inbox_cons] at h
    rw [deliver]
    split
    · next hi =>
      rw [if_pos hi] at h
      rw [if_pos (List.cons.inj h).1]
      exact ⟨l, rfl⟩
    · next hi =>
      rw [if_neg hi] at h
      obtain ⟨k, hk⟩ := ih h
      exact ⟨m :: k, by rw [hk]; rfl⟩

end Mailbox
