import Mathlib.Algebra.Order.BigOperators.Group.LocallyFinite
import Mathlib.Algebra.Order.BigOperators.Group.Finset
import Mathlib.Data.Int.ConditionallyCompleteOrder
import Mathlib.Data.Int.Interval
import Mathlib.Data.Int.SuccPred

/-!
# Counting loops over checked arrays

Programs over arrays whose indices start at 1, as computations in `Option`: reading or writing an
element with an index out of range is `none`, and so is everything that depends on it. `Returns m P`
says that `m` does not fail, and that its result satisfies `P`; a theorem of this form about a
program thus says that **all its indices are in range**, along with what it computes. Divisions can
be checked in the same way (`divide`).

* `Array1` and `Array2` are arrays of one and of two dimensions. Their elements are functions of the
  index, so that an assignment to one element is `Function.update`. `Array1.take` reads an array as
  a list; a write behind the first `k` elements appends to it (`Array1.take_of_written`).
* `doLoop lo hi body` runs the body for `lo, …, hi`, and not at all if `hi < lo`; the bounds are
  evaluated once. `returns_doLoop` is its rule: an invariant that depends on the index. Loops that
  write an array or add up terms have their own (`Array1.returns_doLoop_written`,
  `returns_doLoop_sum`).
* `leaving body` is a body that may leave the loop with a result of its own, by `exit` or `return`.
* `findFirst lo hi p` is the loop that ends at the first index with `p`.
* `tally p k` is the value of a counter, and `offset size c` that of an index that moves on by the
  size of each part it has passed.
* `Enumerates c lo hi P` says that the elements `lo, …, hi - 1` of an array are the numbers with the
  property `P`, in increasing order. Appending a greater number extends it (`Enumerates.push`).
-/

namespace ArrayLoops

universe u

variable {α β σ : Type u}

/-! ### Computations that do not fail -/

/-- The computation returns, and its result satisfies `P`. -/
def Returns (m : Option α) (P : α → Prop) : Prop := ∃ a, m = some a ∧ P a

theorem returns_some {P : α → Prop} {a : α} (h : P a) : Returns (some a) P := ⟨a, rfl, h⟩

theorem not_returns_none {P : α → Prop} : ¬ Returns none P := by
  rintro ⟨a, ha, -⟩
  exact Option.some_ne_none a ha.symm

theorem Returns.bind {m : Option α} {f : α → Option β} {P : α → Prop} {Q : β → Prop}
    (h : Returns m P) (hf : ∀ a, P a → Returns (f a) Q) : Returns (m >>= f) Q := by
  obtain ⟨a, rfl, ha⟩ := h
  exact hf a ha

theorem Returns.mono {m : Option α} {P Q : α → Prop} (h : Returns m P) (hPQ : ∀ a, P a → Q a) :
    Returns m Q := by
  obtain ⟨a, rfl, ha⟩ := h
  exact ⟨a, rfl, hPQ a ha⟩

theorem Returns.elim {m : Option α} {P : α → Prop} {a : α} (h : Returns m P) (ha : m = some a) :
    P a := by
  obtain ⟨b, hb, hP⟩ := h
  rwa [Option.some.inj (ha.symm.trans hb)]

theorem Returns.isSome {m : Option α} {P : α → Prop} (h : Returns m P) : m.isSome := by
  obtain ⟨a, rfl, -⟩ := h
  rfl

/-- A division that fails unless the divisor is admitted. -/
def divide [Div α] (admits : α → Prop) [DecidablePred admits] (p q : α) : Option α :=
  if admits q then some (p / q) else none

theorem returns_divide [Div α] {admits : α → Prop} [DecidablePred admits] {f : α → Option β}
    {Q : β → Prop} {p q : α} (hq : admits q) (hf : Returns (f (p / q)) Q) :
    Returns (divide admits p q >>= f) Q := by
  rw [divide, if_pos hq]
  exact hf

/-! ### Arrays -/

/-- An array with the indices `1, …, size`. -/
structure Array1 (α : Type u) where
  size : ℕ
  elem : ℤ → α

namespace Array1

/-- The index is one of the array. -/
def InRange (a : Array1 α) (i : ℤ) : Prop := 1 ≤ i ∧ i ≤ a.size

instance (a : Array1 α) (i : ℤ) : Decidable (a.InRange i) := inferInstanceAs (Decidable (_ ∧ _))

/-- An array of the given size, and of none if that is negative, with whatever it contains. -/
def allocate (n : ℤ) (contents : ℤ → α) : Array1 α := ⟨n.toNat, contents⟩

/-- All elements are set to one value. -/
def fill (a : Array1 α) (v : α) : Array1 α := { a with elem := fun _ => v }

/-- Read an element. -/
def get (a : Array1 α) (i : ℤ) : Option α := if a.InRange i then some (a.elem i) else none

/-- Write an element. -/
def set (a : Array1 α) (i : ℤ) (v : α) : Option (Array1 α) :=
  if a.InRange i then some { a with elem := Function.update a.elem i v } else none

/-- The elements `1, …, k`. -/
def slice (a : Array1 α) (k : ℤ) : Option (Array1 α) :=
  if k ≤ a.size then some ⟨k.toNat, a.elem⟩ else none

/-- A larger array that begins with the elements of the given one. -/
def resize (a : Array1 α) (n : ℤ) (contents : ℤ → α) : Option (Array1 α) :=
  if a.size ≤ n then some ⟨n.toNat, fun i => if a.InRange i then a.elem i else contents i⟩ else none

/-- The elements `1, …, k` as a list. -/
def take (a : Array1 α) (k : ℕ) : List α := (List.range k).map fun i : ℕ => a.elem (i + 1)

/-- All elements as a list. -/
def toList (a : Array1 α) : List α := a.take a.size

variable {a : Array1 α} {i : ℤ} {v : α}

/-- The array `a'` is `a` with the value `v` at the index `i`. -/
structure Written (a : Array1 α) (i : ℤ) (v : α) (a' : Array1 α) : Prop where
  size_eq : a'.size = a.size
  at_index : a'.elem i = v
  elsewhere : ∀ k ≠ i, a'.elem k = a.elem k

theorem inRange_allocate {n : ℤ} (contents : ℤ → α) (hi : 1 ≤ i) (hi' : i ≤ n) :
    (allocate n contents).InRange i :=
  ⟨hi, hi'.trans (Int.self_le_toNat n)⟩

theorem get_eq (h : a.InRange i) : a.get i = some (a.elem i) := if_pos h

theorem returns_get {f : α → Option β} {Q : β → Prop} (h : a.InRange i)
    (hf : Returns (f (a.elem i)) Q) : Returns (a.get i >>= f) Q := by
  rw [get_eq h]
  exact hf

theorem returns_set (h : a.InRange i) : Returns (a.set i v) (a.Written i v) := by
  rw [set, if_pos h]
  exact returns_some ⟨rfl, Function.update_self i v a.elem,
    fun k hne => Function.update_of_ne hne v a.elem⟩

theorem returns_slice {k : ℤ} (h0 : 0 ≤ k) (hk : k ≤ a.size) :
    Returns (a.slice k) fun a' => (a'.size : ℤ) = k ∧ a'.elem = a.elem := by
  rw [slice, if_pos hk]
  exact returns_some ⟨Int.toNat_of_nonneg h0, rfl⟩

theorem returns_resize {n : ℤ} (h : a.size ≤ n) (contents : ℤ → α) :
    Returns (a.resize n contents) fun a' =>
      (a'.size : ℤ) = n ∧ ∀ i, a.InRange i → a'.elem i = a.elem i := by
  rw [resize, if_pos h]
  exact returns_some ⟨Int.toNat_of_nonneg (by omega), fun i hi => if_pos hi⟩

theorem toList_of_elem_eq {a' : Array1 α} {k : ℤ} (hsize : (a'.size : ℤ) = k)
    (helem : a'.elem = a.elem) : a'.toList = a.take k.toNat := by
  rw [toList, take, take, helem, ← hsize, Int.toNat_natCast]

theorem take_congr {a' : Array1 α} {k : ℕ} (h : ∀ i : ℤ, 1 ≤ i → i ≤ k → a'.elem i = a.elem i) :
    a'.take k = a.take k := by
  refine List.map_congr_left fun i hi => ?_
  have hlt := List.mem_range.1 hi
  exact h (i + 1) (by omega) (by omega)

theorem take_succ (a : Array1 α) (k : ℕ) : a.take (k + 1) = a.take k ++ [a.elem (k + 1)] := by
  rw [take, List.range_succ, List.map_append, ← take, List.map_singleton]

/-- **Appending**: behind the first `k` elements, a value is written. -/
theorem take_of_written {a' : Array1 α} {k : ℕ} (h : a.Written (k + 1) v a') :
    a'.take (k + 1) = a.take k ++ [v] := by
  rw [take_succ, h.at_index, take_congr fun i hi hk => h.elsewhere i (by omega)]

/-- The elements below `i` have been moved down from the next index. -/
structure ShiftedBelow (i : ℤ) (a a' : Array1 α) : Prop where
  size_eq : a'.size = a.size
  below : ∀ j, 1 ≤ j → j < i → a'.elem j = a.elem (j + 1)
  above : ∀ j, i ≤ j → a'.elem j = a.elem j

theorem shiftedBelow_one (a : Array1 α) : ShiftedBelow 1 a a where
  size_eq := rfl
  below j h1 hj := absurd hj (by omega)
  above _ _ := rfl

theorem ShiftedBelow.next {a' a'' : Array1 α} (h : ShiftedBelow i a a')
    (hset : a'.Written i (a'.elem (i + 1)) a'') : ShiftedBelow (i + 1) a a'' where
  size_eq := hset.size_eq.trans h.size_eq
  below j h1 hj := by
    rcases eq_or_ne j i with rfl | hne
    · exact hset.at_index.trans (h.above _ (by omega))
    · exact (hset.elsewhere j hne).trans (h.below j h1 (by omega))
  above j hj := (hset.elsewhere j (by omega)).trans (h.above j (by omega))

/-- The array has `m` elements and begins with those of the list. -/
structure Holds (a : Array1 α) (m : ℕ) (l : List α) : Prop where
  size_eq : a.size = m
  take_eq : a.take l.length = l

theorem Holds.append {a' : Array1 α} {m : ℕ} {l : List α} (h : a.Holds m l)
    (hset : a.Written (l.length + 1) v a') : a'.Holds m (l ++ [v]) where
  size_eq := hset.size_eq.trans h.size_eq
  take_eq := by rw [List.length_append, List.length_singleton, take_of_written hset, h.take_eq]

/-- **Appending to a full array**: all elements move down, and the first is lost. -/
theorem Holds.shift_append {a' a'' : Array1 α} {m : ℕ} {l : List α} (h : a.Holds (m + 1) l)
    (hfull : l.length = m + 1) (hshift : ShiftedBelow (m + 1) a a')
    (hset : a'.Written (m + 1) v a'') : a''.Holds (m + 1) ((l ++ [v]).drop 1) where
  size_eq := hset.size_eq.trans (hshift.size_eq.trans h.size_eq)
  take_eq := by
    have hdrop : a'.take m = l.drop 1 := by
      conv_rhs => rw [← h.take_eq, hfull, take, List.range_succ_eq_map]
      rw [take, List.map_cons, List.drop_one, List.tail_cons, List.map_map]
      refine List.map_congr_left fun i hi => ?_
      have hlt := List.mem_range.1 hi
      exact (hshift.below (i + 1) (by omega) (by omega)).trans rfl
    rw [List.length_drop, List.length_append, List.length_singleton, hfull, Nat.add_sub_cancel,
      take_of_written hset, hdrop, List.drop_append_of_le_length (by omega)]

end Array1

/-- An array with the indices `1, …, rows` and `1, …, cols`. -/
structure Array2 (α : Type u) where
  rows : ℕ
  cols : ℕ
  elem : ℤ → ℤ → α

namespace Array2

/-- The indices are those of an element. -/
def InRange (a : Array2 α) (i j : ℤ) : Prop := (1 ≤ i ∧ i ≤ a.rows) ∧ 1 ≤ j ∧ j ≤ a.cols

instance (a : Array2 α) (i j : ℤ) : Decidable (a.InRange i j) :=
  inferInstanceAs (Decidable (_ ∧ _))

/-- An array of the given size, with all elements set to one value. -/
def filled (rows cols : ℤ) (v : α) : Array2 α := ⟨rows.toNat, cols.toNat, fun _ _ => v⟩

/-- Read an element. -/
def get (a : Array2 α) (i j : ℤ) : Option α := if a.InRange i j then some (a.elem i j) else none

/-- Write an element. -/
def set (a : Array2 α) (i j : ℤ) (v : α) : Option (Array2 α) :=
  if a.InRange i j then
    some { a with elem := Function.update a.elem i (Function.update (a.elem i) j v) }
  else none

/-- Write a row, from an array of the same size. -/
def setRow (a : Array2 α) (i : ℤ) (row : Array1 α) : Option (Array2 α) :=
  if (1 ≤ i ∧ i ≤ a.rows) ∧ row.size = a.cols then
    some { a with elem := Function.update a.elem i row.elem }
  else none

variable {a : Array2 α} {i j : ℤ} {v : α}

/-- The array `a'` is `a` with the value `v` at the indices `i` and `j`. -/
structure Written (a : Array2 α) (i j : ℤ) (v : α) (a' : Array2 α) : Prop where
  rows_eq : a'.rows = a.rows
  cols_eq : a'.cols = a.cols
  at_index : a'.elem i j = v
  same_row : ∀ c ≠ j, a'.elem i c = a.elem i c
  elsewhere : ∀ r ≠ i, a'.elem r = a.elem r

/-- The array `a'` is `a` with another row `i`. -/
structure RowWritten (a : Array2 α) (i : ℤ) (row : ℤ → α) (a' : Array2 α) : Prop where
  rows_eq : a'.rows = a.rows
  cols_eq : a'.cols = a.cols
  at_index : a'.elem i = row
  elsewhere : ∀ r ≠ i, a'.elem r = a.elem r

theorem returns_get {f : α → Option β} {Q : β → Prop} (h : a.InRange i j)
    (hf : Returns (f (a.elem i j)) Q) : Returns (a.get i j >>= f) Q := by
  rw [get, if_pos h]
  exact hf

theorem returns_set (h : a.InRange i j) : Returns (a.set i j v) (a.Written i j v) := by
  rw [set, if_pos h]
  have hrow := Function.update_self i (Function.update (a.elem i) j v) a.elem
  refine returns_some ⟨rfl, rfl, ?_, fun c hne => ?_,
    fun r hne => Function.update_of_ne hne _ a.elem⟩
  · exact (congrFun hrow j).trans (Function.update_self j v (a.elem i))
  · exact (congrFun hrow c).trans (Function.update_of_ne hne v (a.elem i))

theorem returns_setRow {row : Array1 α} (h : 1 ≤ i ∧ i ≤ a.rows) (hsize : row.size = a.cols) :
    Returns (a.setRow i row) (a.RowWritten i row.elem) := by
  rw [setRow, if_pos ⟨h, hsize⟩]
  exact returns_some ⟨rfl, rfl, Function.update_self i row.elem a.elem,
    fun r hne => Function.update_of_ne hne row.elem a.elem⟩

end Array2

/-! ### Loops -/

/-- The body for `n` indices from `i` on. -/
def iterate (body : ℤ → σ → Option σ) : ℕ → ℤ → σ → Option σ
  | 0, _, s => some s
  | n + 1, i, s => body i s >>= iterate body n (i + 1)

/-- The body for the indices `lo, …, hi`. -/
def doLoop (lo hi : ℤ) (body : ℤ → σ → Option σ) (s : σ) : Option σ :=
  iterate body (hi + 1 - lo).toNat lo s

theorem returns_iterate {body : ℤ → σ → Option σ} {motive : ℤ → σ → Prop} (n : ℕ) {i : ℤ} {s : σ}
    (h0 : motive i s)
    (hstep : ∀ k s, i ≤ k → k < i + n → motive k s → Returns (body k s) (motive (k + 1))) :
    Returns (iterate body n i s) (motive (i + n)) := by
  induction n generalizing i s with
  | zero =>
    rw [Nat.cast_zero, add_zero]
    exact returns_some h0
  | succ n ih =>
    refine (hstep i s le_rfl (by omega) h0).bind fun s' hs' => ?_
    have hend : i + (n + 1 : ℕ) = i + 1 + n := by omega
    rw [hend]
    exact ih hs' fun k t hk hlt => hstep k t (by omega) (by omega)

/-- **The rule for loops.** What holds before the first index, and is carried from each index to the
next, holds behind the last. -/
theorem returns_doLoop {lo hi : ℤ} {body : ℤ → σ → Option σ} (motive : ℤ → σ → Prop) {s : σ}
    (hle : lo ≤ hi + 1) (h0 : motive lo s)
    (hstep : ∀ k s, lo ≤ k → k ≤ hi → motive k s → Returns (body k s) (motive (k + 1))) :
    Returns (doLoop lo hi body s) (motive (hi + 1)) := by
  have hend : hi + 1 = lo + (hi + 1 - lo).toNat := by omega
  rw [hend]
  exact returns_iterate _ h0 fun k s hk hlt => hstep k s hk (by omega)

/-- **The rule for loops that compute one element after the other.** The elements that are still to
be computed are as they were at the start. -/
theorem Array1.returns_doLoop_written {a : Array1 α} {hi : ℤ} {f : ℤ → α}
    {body : ℤ → Array1 α → Option (Array1 α)} (hle : 0 ≤ hi)
    (hbody : ∀ i a', 1 ≤ i → i ≤ hi → a'.size = a.size → a'.elem i = a.elem i →
      Returns (body i a') (a'.Written i (f i))) :
    Returns (doLoop 1 hi body a) fun a' =>
      a'.size = a.size ∧ ∀ i, 1 ≤ i → i ≤ hi → a'.elem i = f i := by
  refine Returns.mono (returns_doLoop (fun i a' => a'.size = a.size ∧
    (∀ k, 1 ≤ k → k < i → a'.elem k = f k) ∧ ∀ k, i ≤ k → a'.elem k = a.elem k) (by omega)
    ⟨rfl, fun k h1 hlt => absurd hlt (by omega), fun _ _ => rfl⟩ fun i a' h1 hi' ha' => ?_)
    fun a' ha' => ⟨ha'.1, fun i h1 hi' => ha'.2.1 i h1 (by omega)⟩
  obtain ⟨hsize, hdone, hrest⟩ := ha'
  refine (hbody i a' h1 hi' hsize (hrest i le_rfl)).mono fun a'' hset =>
    ⟨hset.size_eq.trans hsize, fun k hk hlt => ?_, fun k hk => ?_⟩
  · rcases eq_or_ne k i with rfl | hne
    · exact hset.at_index
    · exact (hset.elsewhere k hne).trans (hdone k hk (by omega))
  · exact (hset.elsewhere k (by omega)).trans (hrest k (by omega))

/-- **The rule for sums.** Each index adds a term to some value of the state. -/
theorem returns_doLoop_sum {M : Type*} [AddCommMonoid M] {lo hi : ℤ} {body : ℤ → σ → Option σ}
    (P : σ → Prop) (value : σ → M) (f : ℤ → M) {s : σ} (hle : lo ≤ hi + 1) (h0 : P s)
    (hstep : ∀ k s, lo ≤ k → k ≤ hi → P s →
      Returns (body k s) fun s' => P s' ∧ value s' = value s + f k) :
    Returns (doLoop lo hi body s) fun s' =>
      P s' ∧ value s' = value s + ∑ k ∈ Finset.Icc lo hi, f k := by
  rw [← Finset.Ico_add_one_right_eq_Icc]
  refine returns_doLoop (fun k s' => P s' ∧ value s' = value s + ∑ l ∈ Finset.Ico lo k, f l) hle
    ⟨h0, by rw [Finset.Ico_self, Finset.sum_empty, add_zero]⟩ fun k s' hk hk' hs' => ?_
  refine (hstep k s' hk hk' hs'.1).mono fun s'' hs'' => ⟨hs''.1, ?_⟩
  rw [hs''.2, hs'.2, add_assoc, Finset.sum_Ico_add_eq_sum_Ico_add_one hk]

/-! ### Loops that may be left -/

variable {ε : Type u}

/-- A body that may leave the loop. Once it has, there is nothing left to do for the other
indices. -/
def leaving (body : ℤ → σ → Option (Except ε σ)) (i : ℤ) : Except ε σ → Option (Except ε σ)
  | .ok s => body i s
  | .error e => some (.error e)

/-- What holds of a loop that goes on, and of one that has been left. -/
def Outcome (left : ε → Prop) (goesOn : σ → Prop) : Except ε σ → Prop
  | .ok s => goesOn s
  | .error e => left e

/-- **The rule for loops that may be left.** Each index keeps the invariant, or leaves the loop with
a result that is as it should be. -/
theorem returns_doLoop_leaving {lo hi : ℤ} {body : ℤ → σ → Option (Except ε σ)} (left : ε → Prop)
    (motive : ℤ → σ → Prop) {s : σ} (hle : lo ≤ hi + 1) (h0 : motive lo s)
    (hstep : ∀ k s, lo ≤ k → k ≤ hi → motive k s →
      Returns (body k s) (Outcome left (motive (k + 1)))) :
    Returns (doLoop lo hi (leaving body) (.ok s)) (Outcome left (motive (hi + 1))) := by
  refine returns_doLoop (fun k r => Outcome left (motive k) r) hle h0 fun k r hk hk' hr => ?_
  rcases r with e | s
  · exact returns_some hr
  · exact hstep k s hk hk' hr

/-! ### Searching -/

/-- The first of `n` indices from `i` on with the property. -/
def search (p : ℤ → Option Bool) : ℕ → ℤ → Option (Option ℤ)
  | 0, _ => some none
  | n + 1, i => p i >>= fun found => if found then some (some i) else search p n (i + 1)

/-- The first of the indices `lo, …, hi` with the property. -/
def findFirst (lo hi : ℤ) (p : ℤ → Option Bool) : Option (Option ℤ) :=
  search p (hi + 1 - lo).toNat lo

/-- What a search finds. -/
def Found (q : ℤ → Prop) (lo hi : ℤ) : Option ℤ → Prop
  | some i => lo ≤ i ∧ i ≤ hi ∧ q i
  | none => ∀ i, lo ≤ i → i ≤ hi → ¬ q i

theorem returns_findFirst {lo hi : ℤ} {p : ℤ → Option Bool} {q : ℤ → Prop} [DecidablePred q]
    (hp : ∀ i, lo ≤ i → i ≤ hi → p i = some (decide (q i))) :
    Returns (findFirst lo hi p) (Found q lo hi) := by
  -- The indices that are left are those up to `hi`, and those passed do not have the property.
  have hsearch : ∀ (n : ℕ) (i : ℤ), lo ≤ i → i + n = max i (hi + 1) →
      (∀ k, lo ≤ k → k < i → ¬ q k) → Returns (search p n i) (Found q lo hi) := by
    intro n
    induction n with
    | zero =>
      intro i hi' hend hpassed
      exact returns_some fun k hk hle => hpassed k hk (by omega)
    | succ n ih =>
      intro i hi' hend hpassed
      rw [search, hp i hi' (by omega), Option.bind_eq_bind, Option.bind_some]
      by_cases hq : q i
      · rw [if_pos (decide_eq_true hq)]
        exact returns_some ⟨hi', by omega, hq⟩
      · rw [if_neg (by simpa using hq)]
        refine ih (i + 1) (by omega) (by omega) fun k hk hlt => ?_
        rcases eq_or_ne k i with rfl | hne
        · exact hq
        · exact hpassed k hk (by omega)
  exact hsearch _ lo le_rfl (by omega) fun k hk hlt => absurd hlt (by omega)

/-! ### Counting -/

/-- How many of the numbers `1, …, k - 1` have the property. -/
noncomputable def tally (p : ℤ → Prop) [DecidablePred p] (k : ℤ) : ℤ :=
  ∑ m ∈ Finset.Ico 1 k, if p m then 1 else 0

/-- Where the part `c` of an array begins, if its parts have the given sizes. -/
noncomputable def offset (size : ℤ → ℤ) (c : ℤ) : ℤ := 1 + ∑ m ∈ Finset.Ico 1 c, size m

section Tally

variable (p : ℤ → Prop) [DecidablePred p] {k k' : ℤ}

theorem tally_one : tally p 1 = 0 := rfl

theorem tally_add_one (hk : 1 ≤ k) : tally p (k + 1) = tally p k + if p k then 1 else 0 :=
  (Finset.sum_Ico_add_eq_sum_Ico_add_one hk _).symm

theorem tally_nonneg (k : ℤ) : 0 ≤ tally p k :=
  Finset.sum_nonneg fun m _ => by split <;> decide

theorem tally_mono (h : k ≤ k') : tally p k ≤ tally p k' :=
  Finset.sum_le_sum_of_subset_of_nonneg (Finset.Ico_subset_Ico_right h)
    fun m _ _ => by split <;> decide

end Tally

section Offset

variable {size : ℤ → ℤ} {c c' : ℤ}

theorem offset_one (size : ℤ → ℤ) : offset size 1 = 1 := rfl

theorem offset_add_one (hc : 1 ≤ c) : offset size (c + 1) = offset size c + size c := by
  rw [offset, ← Finset.sum_Ico_add_eq_sum_Ico_add_one hc, ← add_assoc]
  rfl

theorem offset_mono (hsize : ∀ m, 0 ≤ size m) (h : c ≤ c') : offset size c ≤ offset size c' :=
  add_le_add_right (Finset.sum_le_sum_of_subset_of_nonneg (Finset.Ico_subset_Ico_right h)
    fun m _ _ => hsize m) 1

end Offset

/-! ### Arrays that list a set -/

/-- The elements `lo, …, hi - 1` are the numbers with the property, in increasing order. -/
structure Enumerates (c : ℤ → ℤ) (lo hi : ℤ) (P : ℤ → Prop) : Prop where
  le : lo ≤ hi
  lt : ∀ k k', lo ≤ k → k < k' → k' < hi → c k < c k'
  mem : ∀ j, P j ↔ ∃ k, lo ≤ k ∧ k < hi ∧ c k = j

namespace Enumerates

variable {c c' : ℤ → ℤ} {lo hi : ℤ} {P P' : ℤ → Prop}

theorem empty (c : ℤ → ℤ) (lo : ℤ) : Enumerates c lo lo fun _ => False where
  le := le_rfl
  lt k k' hk hlt hlt' := by omega
  mem j := ⟨False.elim, fun ⟨k, hk, hlt, _⟩ => by omega⟩

theorem congr (h : Enumerates c lo hi P) (hc : ∀ k, lo ≤ k → k < hi → c' k = c k)
    (hP : ∀ j, P' j ↔ P j) : Enumerates c' lo hi P' where
  le := h.le
  lt k k' hk hlt hlt' := by
    rw [hc k hk (by omega), hc k' (by omega) hlt']
    exact h.lt k k' hk hlt hlt'
  mem j := by
    rw [hP, h.mem]
    refine exists_congr fun k => and_congr_right fun hk => and_congr_right fun hlt => ?_
    rw [hc k hk hlt]

/-- A greater number is appended. -/
theorem push (h : Enumerates c lo hi P) (hc : ∀ k, lo ≤ k → k < hi → c' k = c k)
    (hnew : ∀ j, P j → j < c' hi) (hP : ∀ j, P' j ↔ P j ∨ j = c' hi) :
    Enumerates c' lo (hi + 1) P' where
  le := by have := h.le; omega
  lt k k' hk hlt hlt' := by
    rcases eq_or_ne k' hi with rfl | hne
    · rw [hc k hk hlt]
      exact hnew (c k) ((h.mem _).2 ⟨k, hk, hlt, rfl⟩)
    · rw [hc k hk (by omega), hc k' (by omega) (by omega)]
      exact h.lt k k' hk hlt (by omega)
  mem j := by
    rw [hP, h.mem]
    constructor
    · rintro (⟨k, hk, hlt, rfl⟩ | rfl)
      · exact ⟨k, hk, by omega, hc k hk hlt⟩
      · exact ⟨hi, h.le, by omega, rfl⟩
    · rintro ⟨k, hk, hlt, rfl⟩
      rcases eq_or_ne k hi with rfl | hne
      · exact .inr rfl
      · exact .inl ⟨k, hk, by omega, (hc k hk (by omega)).symm⟩

end Enumerates

end ArrayLoops
