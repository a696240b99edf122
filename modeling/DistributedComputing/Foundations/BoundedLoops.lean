import Mathlib.Logic.Function.Iterate
import Mathlib.Order.Basic

/-!
# Loops with a bound and an exit

A loop that runs its body for the rounds `first`, `first + 1`, … and at most `count` times. A round
goes on with a new state, or leaves the loop with one. That covers `do i = 1, n` with `exit`,
`cycle` and `return`, as a `cycle` is a round that goes on.

`Reaches` says in which states a round begins, and `run_cases` is all that a proof about a loop
needs: the loop ends after its last round, or in a round that was reached and that left it. What
holds at the beginning of every round comes from `Reaches.invariant`.
-/

namespace BoundedLoop

variable {σ : Type}

/-- What a round does. -/
inductive Round (σ : Type)
  | next (s : σ)
  | exit (s : σ)

/-- The state that a round, or a loop, ends in. -/
def Round.state : Round σ → σ
  | next s => s
  | exit s => s

@[simp] theorem Round.state_next (s : σ) : (Round.next s).state = s := rfl

@[simp] theorem Round.state_exit (s : σ) : (Round.exit s).state = s := rfl

/-- At most `count` rounds, the first of which has the number `first`. -/
def run (body : ℕ → σ → Round σ) : (count first : ℕ) → σ → Round σ
  | 0, _, s => .next s
  | count + 1, first, s =>
    match body first s with
    | .next s => run body count (first + 1) s
    | .exit s => .exit s

/-- Round `j` begins in the given state, if round `first` begins in `s`. -/
inductive Reaches (body : ℕ → σ → Round σ) (first : ℕ) (s : σ) : ℕ → σ → Prop
  | first : Reaches body first s first s
  | next {j : ℕ} {t u : σ} : Reaches body first s j t → body j t = .next u →
      Reaches body first s (j + 1) u

variable {body : ℕ → σ → Round σ} {first : ℕ} {s : σ}

/-- A loop whose first round leaves it. -/
theorem run_of_exit {t : σ} {count : ℕ} (hcount : 0 < count) (h : body first s = .exit t) :
    run body count first s = .exit t := by
  obtain ⟨count, rfl⟩ := Nat.exists_eq_add_one.2 hcount
  rw [run, h]

theorem run_of_next {t : σ} {count : ℕ} (h : body first s = .next t) :
    run body (count + 1) first s = run body count (first + 1) t := by
  rw [run, h]

theorem run_one (body : ℕ → σ → Round σ) (first : ℕ) (s : σ) :
    run body 1 first s = body first s := by
  rcases h : body first s with t | t
  · exact run_of_next h
  · exact run_of_exit Nat.one_pos h

theorem Reaches.cons {s' t : σ} {j : ℕ} (h : body first s = .next s')
    (ht : Reaches body (first + 1) s' j t) : Reaches body first s j t := by
  induction ht with
  | first => exact .next .first h
  | next _ hbody ih => exact .next ih hbody

theorem Reaches.le {j : ℕ} {t : σ} (h : Reaches body first s j t) : first ≤ j := by
  induction h with
  | first => exact Nat.le_refl _
  | next _ _ ih => exact Nat.le_succ_of_le ih

theorem Reaches.eq_start {t : σ} (h : Reaches body first s first t) : t = s := by
  rcases h with - | ⟨h, -⟩
  · rfl
  · have hle := h.le
    omega

/-- The rounds up to one that is reached, and those from there on. -/
theorem Reaches.run_eq {j : ℕ} {t : σ} (h : Reaches body first s j t) (count : ℕ) :
    run body (j - first + count) first s = run body count j t := by
  induction h generalizing count with
  | first => rw [Nat.sub_self, Nat.zero_add]
  | @next j t u h hbody ih =>
    have hcount : j + 1 - first + count = j - first + (count + 1) := by
      have hle := h.le
      omega
    rw [hcount, ih, run_of_next hbody]

/-- A loop that reaches a round which leaves it. -/
theorem Reaches.run_of_exit {j : ℕ} {t u : σ} (h : Reaches body first s j t)
    (hbody : body j t = .exit u) {count : ℕ} (hj : j < first + count) :
    run body count first s = .exit u := by
  have hcount : count = j - first + (count - (j - first)) := by
    have hle := h.le
    omega
  rw [hcount, h.run_eq, BoundedLoop.run_of_exit (by have := h.le; omega) hbody]

/-- If the first round leaves the loop, there is no other. -/
theorem Reaches.eq_first {j : ℕ} {t u : σ} (h : Reaches body first s j t)
    (hexit : body first s = .exit u) : j = first ∧ t = s := by
  induction h with
  | first => exact ⟨rfl, rfl⟩
  | next _ hbody ih =>
    obtain ⟨rfl, rfl⟩ := ih
    rw [hexit] at hbody
    cases hbody

/-- **What every round keeps** holds at the beginning of every round. -/
theorem Reaches.invariant {I : ℕ → σ → Prop} (h0 : I first s)
    (hstep : ∀ j t u, I j t → body j t = .next u → I (j + 1) u) {j : ℕ} {t : σ}
    (h : Reaches body first s j t) : I j t := by
  induction h with
  | first => exact h0
  | next _ hbody ih => exact hstep _ _ _ ih hbody

/-- **How a loop ends**: after all its rounds, or in a round that leaves it. -/
theorem run_cases (count : ℕ) :
    (∃ t, run body count first s = .next t ∧ Reaches body first s (first + count) t) ∨
      ∃ j t u, run body count first s = .exit u ∧ j < first + count ∧
        Reaches body first s j t ∧ body j t = .exit u := by
  induction count generalizing first s with
  | zero => exact .inl ⟨s, rfl, .first⟩
  | succ count ih =>
    rcases hbody : body first s with s' | s'
    · have hcount : first + 1 + count = first + (count + 1) := by omega
      rw [run_of_next hbody]
      rcases @ih (first + 1) s' with ⟨t, ht, hreach⟩ | ⟨j, t, u, hu, hj, ht, hexit⟩
      · exact .inl ⟨t, ht, hcount ▸ hreach.cons hbody⟩
      · exact .inr ⟨j, t, u, hu, hcount ▸ hj, ht.cons hbody, hexit⟩
    · exact .inr ⟨first, s, s', run_of_exit count.succ_pos hbody, by omega, .first, hbody⟩

/-- **An invariant and what an exit makes of it** give what holds after the loop. -/
theorem state_run {I P : σ → Prop} (h0 : I s) (hnext : ∀ j t u, I t → body j t = .next u → I u)
    (hexit : ∀ j t u, I t → body j t = .exit u → P u) (hend : ∀ t, I t → P t) (count : ℕ) :
    P (run body count first s).state := by
  have hreach : ∀ {j t}, Reaches body first s j t → I t := fun h =>
    Reaches.invariant (I := fun _ => I) h0 hnext h
  rcases @run_cases σ body first s count with ⟨t, ht, h⟩ | ⟨j, t, u, hu, -, h, hbody⟩
  · rw [ht]
    exact hend t (hreach h)
  · rw [hu]
    exact hexit j t u (hreach h) hbody

end BoundedLoop
