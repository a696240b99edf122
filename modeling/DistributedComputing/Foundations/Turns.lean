import Mathlib.Data.List.Basic
import Mathlib.Order.Nat

/-!
# Taking turns

Someone who hands out things to the receivers `1, …, m` in turn keeps the number of the next one,
and moves it on by the shifted modulus `r % m + 1` (`next`). `Fair m r chosen` is what holds of this
number and of the receivers chosen so far: those in front of the next one are **one round ahead** of
the others. One choice keeps it (`Fair.choose`), and the numbers of choices differ by at most one
(`Fair.count_le`).
-/

namespace Turns

/-- The receiver after `r`, of `m` many. -/
def next (m r : ℕ) : ℕ := r % m + 1

theorem next_of_lt {m r : ℕ} (h : r < m) : next m r = r + 1 := by
  rw [next, Nat.mod_eq_of_lt h]

theorem next_self (m : ℕ) : next m m = 1 := by
  rw [next, Nat.mod_self]

/-- The receivers `chosen` so far, and the one who is `next`. -/
structure Fair (m next : ℕ) (chosen : List ℕ) : Prop where
  pos : 1 ≤ next
  le : next ≤ m
  mem : ∀ r ∈ chosen, 1 ≤ r ∧ r ≤ m
  rounds : ∃ c, ∀ r, 1 ≤ r → r ≤ m → chosen.count r = if r < next then c + 1 else c

variable {m r : ℕ} {chosen : List ℕ}

/-- At the start. -/
theorem fair_nil (hm : 1 ≤ m) : Fair m 1 [] where
  pos := le_rfl
  le := hm
  mem := List.forall_mem_nil _
  rounds := ⟨0, fun r h1 _ => by rw [List.count_nil, if_neg (by omega)]⟩

theorem count_append_singleton (chosen : List ℕ) (r q : ℕ) :
    (chosen ++ [r]).count q = chosen.count q + if r = q then 1 else 0 := by
  rw [List.count_append, List.count_singleton]
  simp only [beq_iff_eq]

/-- **One choice.** -/
theorem Fair.choose (h : Fair m r chosen) : Fair m (next m r) (chosen ++ [r]) := by
  obtain ⟨c, hc⟩ := h.rounds
  have hpos := h.pos
  have hmem : ∀ q ∈ chosen ++ [r], 1 ≤ q ∧ q ≤ m :=
    List.forall_mem_append.2 ⟨h.mem, List.forall_mem_singleton.2 ⟨h.pos, h.le⟩⟩
  rcases h.le.lt_or_eq with hlt | rfl
  · -- the round goes on
    rw [next_of_lt hlt]
    refine ⟨by omega, hlt, hmem, c, fun q h1 hq => ?_⟩
    rw [count_append_singleton, hc q h1 hq]
    split <;> split <;> split <;> omega
  · -- everyone has had a turn, and a new round begins
    rw [next_self]
    refine ⟨le_rfl, hpos, hmem, c + 1, fun q h1 hq => ?_⟩
    rw [count_append_singleton, hc q h1 hq, if_neg (by omega : ¬ q < 1)]
    split <;> split <;> omega

/-- **Balance.** -/
theorem Fair.count_le (h : Fair m r chosen) {p q : ℕ} (hp : 1 ≤ p ∧ p ≤ m) (hq : 1 ≤ q ∧ q ≤ m) :
    chosen.count p ≤ chosen.count q + 1 := by
  obtain ⟨c, hc⟩ := h.rounds
  rw [hc p hp.1 hp.2, hc q hq.1 hq.2]
  split <;> split <;> omega

end Turns
