import Mathlib.Data.List.Induction

/-!
# The last writer

A number of writers go over a memory one after the other. Each of them knows where it writes, and
writes something there or fails and writes nothing. What is in a place afterwards is then up to the
**last** writer that came to this place and did not fail, and if there is none, it is what was there
before (`foldl_place`). The memory is a function, with `none` for a place that does not exist.
-/

namespace LastWriter

variable {ι α β : Type*} [DecidableEq α]

/-- What is written to a place, if anything. -/
def place (m : α → Option β) (a : α) : Option β → α → Option β
  | none => m
  | some b => Function.update m a (some b)

theorem place_self (m : α → Option β) (a : α) (b : β) : place m a (some b) a = some b :=
  Function.update_self ..

theorem place_of_not (m : α → Option β) {a a' : α} {r : Option β} (h : ¬ (a = a' ∧ r.isSome)) :
    place m a r a' = m a' := by
  rcases r with - | b
  · rfl
  · exact Function.update_of_ne (fun heq => h ⟨heq.symm, rfl⟩) ..

/-- **The last writer** decides, and a place to which nobody writes stays as it was. -/
theorem foldl_place (at' : ι → α) (left : ι → Option β) (m : α → Option β) (l : List ι) (a : α) :
    ((l.filter fun i => at' i = a ∧ (left i).isSome).getLast? = none ∧
        l.foldl (fun m i => place m (at' i) (left i)) m a = m a) ∨
      ∃ i, (l.filter fun i => at' i = a ∧ (left i).isSome).getLast? = some i ∧
        l.foldl (fun m i => place m (at' i) (left i)) m a = left i := by
  -- the last step comes first: it writes the place, or it can be left out
  induction l using List.reverseRecOn with
  | nil => exact .inl ⟨rfl, rfl⟩
  | append_singleton l i ih =>
    rw [List.filter_append, List.foldl_append, List.foldl_cons, List.foldl_nil]
    by_cases h : at' i = a ∧ (left i).isSome
    · right
      refine ⟨i, ?_, ?_⟩
      · have hlast : [i].filter (fun i => at' i = a ∧ (left i).isSome) = [i] :=
          List.filter_cons_of_pos (decide_eq_true h)
        rw [hlast, List.getLast?_concat]
      · obtain ⟨b, hb⟩ := Option.isSome_iff_exists.1 h.2
        rw [hb, ← h.1, place_self]
    · have hlast : [i].filter (fun i => at' i = a ∧ (left i).isSome) = [] :=
        List.filter_cons_of_neg fun hi => h (of_decide_eq_true hi)
      rw [hlast, List.append_nil, place_of_not _ h]
      exact ih

end LastWriter
