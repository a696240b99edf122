import DistributedComputing.Foundations.StepRun

/-!
# First in, first out

Channels named by `κ` carry values of type `α`. A machine that uses them reports when a value enters
a channel and when one leaves it; what happens in between is its own affair. `Fifo q es q'` says
that the events `es` lead from the contents `q` of the channels to `q'`: on each channel, what was
there and what entered is what left and what is there, in this order.

A machine is shown to be first in, first out by giving the contents of its channels in each state,
with `Fifo` for each step (`Fifo.append` chains them). Then everything is `Delivered`: what left a
channel is a beginning of what entered it, and all of it once the channel is empty.
-/

namespace FifoChannels

variable {κ α : Type*} [DecidableEq κ]

/-- A value enters or leaves a channel. -/
inductive Event (κ α : Type*)
  | enter (i : κ) (a : α)
  | leave (i : κ) (a : α)
  deriving DecidableEq, Repr

/-- What entered a channel. -/
def entered (i : κ) (es : List (Event κ α)) : List α :=
  es.filterMap fun
    | .enter j a => if j = i then some a else none
    | .leave _ _ => none

/-- What left a channel. -/
def left (i : κ) (es : List (Event κ α)) : List α :=
  es.filterMap fun
    | .enter _ _ => none
    | .leave j a => if j = i then some a else none

/-- The events lead from the contents `q` to the contents `q'`. -/
def Fifo (q : κ → List α) (es : List (Event κ α)) (q' : κ → List α) : Prop :=
  ∀ i, q i ++ entered i es = left i es ++ q' i

variable {q q' q'' : κ → List α} {es es' : List (Event κ α)} {i : κ}

theorem fifo_nil (q : κ → List α) : Fifo q [] q := fun i => List.append_nil (q i)

/-- Without events the contents stay. -/
theorem Fifo.eq_of_nil (h : Fifo q [] q') (i : κ) : q i = q' i :=
  (List.append_nil (q i)).symm.trans (h i)

theorem Fifo.append (h : Fifo q es q') (h' : Fifo q' es' q'') : Fifo q (es ++ es') q'' := by
  intro i
  calc q i ++ entered i (es ++ es')
      = (q i ++ entered i es) ++ entered i es' := by
        rw [entered, List.filterMap_append, ← List.append_assoc]
        rfl
    _ = left i es ++ (q' i ++ entered i es') := by rw [h i, List.append_assoc]
    _ = left i es ++ (left i es' ++ q'' i) := by rw [h' i]
    _ = left i (es ++ es') ++ q'' i := by
        rw [← List.append_assoc, left, left, left, List.filterMap_append]

section Carried

variable {β : Type*} (f : β → α) {p : κ → List β} {b : β} {m : List β}

/-- Channels that carry values as what `f` makes of them: one enters. -/
theorem fifo_enter (p : κ → List β) (i : κ) (b : β) :
    Fifo (fun j => (p j).map f) [.enter i (f b)]
      fun j => (Function.update p i (p i ++ [b]) j).map f := by
  intro j
  rcases eq_or_ne i j with rfl | hne
  · simp [entered, left]
  · simp [entered, left, hne, hne.symm]

theorem fifo_leave (h : p i = b :: m) :
    Fifo (fun j => (p j).map f) [.leave i (f b)] fun j => (Function.update p i m j).map f := by
  intro j
  rcases eq_or_ne i j with rfl | hne
  · simp [entered, left, h]
  · simp [entered, left, hne, hne.symm]

end Carried

/-- **What left is a beginning of what entered.** -/
theorem Fifo.left_prefix (h : Fifo (fun _ => []) es q) (i : κ) : left i es <+: entered i es :=
  ⟨q i, (h i).symm⟩

/-- **Nothing is lost** on the way to an empty channel. -/
theorem Fifo.left_eq (h : Fifo (fun _ => []) es q) (hi : q i = []) : left i es = entered i es := by
  have hall := h i
  rw [hi, List.append_nil] at hall
  exact hall.symm

/-- **Delivery.** What left each channel is a beginning of what entered it, and all of it where the
channel is quiet. -/
def Delivered (quiet : κ → Prop) (es : List (Event κ α)) : Prop :=
  ∀ i, left i es <+: entered i es ∧ (quiet i → left i es = entered i es)

theorem Fifo.delivered {quiet : κ → Prop} (h : Fifo (fun _ => []) es q)
    (hquiet : ∀ i, quiet i → q i = []) : Delivered quiet es :=
  fun i => ⟨h.left_prefix i, fun hi => h.left_eq (hquiet i hi)⟩

end FifoChannels
