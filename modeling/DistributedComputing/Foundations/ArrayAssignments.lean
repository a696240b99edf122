import DistributedComputing.Foundations.ArrayLoops

/-!
# Assignments to arrays

Loops that fill an array: every assignment stores a value that does not depend on the array. Where
all of them store values of **one** function, neither their order nor a place that is assigned twice
matters, and what a loop does is said by the set of places that it assigns. `View.Fills f S s s'`
says that `s'` is `s` with the values of `f` at the places `S`.

* A `View` reads a state as a shape and an element for each place, so that the rules are stated once
  for arrays of one and of two dimensions. Sequences and loops take unions of the sets of places
  (`View.Fills.trans`, `View.returns_doLoop`).
* A `Line` is a part of a state that is addressed by one index, such as an array of one dimension or
  a column of an array of two. `Line.Within` says that the indices `1, …, n` of the line are places
  of a view; `Line.Within.returns_doLoop` is the rule for a loop along the line.
* `Array1.Tabulates` and `Array2.Tabulates` say that an array holds the values of a function.
  `Array2.returns_doLoop_rows` and `Array2.returns_doLoop_columns` are the rules for loops that
  compute an array slice by slice.
-/

namespace ArrayLoops

universe u

variable {α σ : Type u} {τ ι : Type}

/-! ### Whole arrays and their sections -/

namespace Array1

/-- The assignment `a = b`. -/
def assign (a b : Array1 α) : Option (Array1 α) :=
  if b.size = a.size then some { a with elem := b.elem } else none

/-- An operation on all elements. -/
def map {β : Type u} (g : α → β) (a : Array1 α) : Array1 β := ⟨a.size, fun i => g (a.elem i)⟩

/-- The array has the size `n`, and its elements are the values of `f`. -/
structure Tabulates (a : Array1 α) (n : ℕ) (f : ℤ → α) : Prop where
  size_eq : a.size = n
  elem_eq : ∀ i : ℤ, 1 ≤ i → i ≤ n → a.elem i = f i

variable {a b : Array1 α} {n : ℕ} {f : ℤ → α}

theorem get_of_le {i : ℤ} (h1 : 1 ≤ i) (hi : i ≤ a.size) : a.get i = some (a.elem i) :=
  get_eq ⟨h1, hi⟩

theorem get_bind {β : Type u} {g : α → Option β} {i : ℤ} (h1 : 1 ≤ i) (hi : i ≤ a.size) :
    a.get i >>= g = g (a.elem i) := by
  rw [get_of_le h1 hi]
  rfl

theorem returns_assign (h : b.size = a.size) :
    Returns (a.assign b) fun a' => a'.Tabulates b.size b.elem := by
  rw [assign, if_pos h]
  exact returns_some ⟨h.symm, fun _ _ _ => rfl⟩

theorem Tabulates.congr {g : ℤ → α} (h : a.Tabulates n f)
    (hfg : ∀ i : ℤ, 1 ≤ i → i ≤ n → f i = g i) : a.Tabulates n g where
  size_eq := h.size_eq
  elem_eq i h1 hi := (h.elem_eq i h1 hi).trans (hfg i h1 hi)

theorem Tabulates.forall_elem_eq_iff {g : ℤ → α} (h : a.Tabulates n f) (h' : b.Tabulates n g) :
    (∀ i : ℤ, 1 ≤ i → i ≤ n → a.elem i = b.elem i) ↔ ∀ i : ℤ, 1 ≤ i → i ≤ n → f i = g i := by
  refine forall_congr' fun i => imp_congr_right fun h1 => imp_congr_right fun hi => ?_
  rw [h.elem_eq i h1 hi, h'.elem_eq i h1 hi]

end Array1

namespace Array2

/-- An array of the given size, with whatever it contains. -/
def allocate (rows cols : ℤ) (contents : ℤ → ℤ → α) : Array2 α := ⟨rows.toNat, cols.toNat, contents⟩

/-- All elements are set to one value. -/
def fill (a : Array2 α) (v : α) : Array2 α := { a with elem := fun _ _ => v }

/-- The assignment `a = b`. -/
def assign (a b : Array2 α) : Option (Array2 α) :=
  if b.rows = a.rows ∧ b.cols = a.cols then some { a with elem := b.elem } else none

/-- An operation on the elements of two arrays of the same shape. -/
def zipWith (g : α → α → α) (a b : Array2 α) : Option (Array2 α) :=
  if b.rows = a.rows ∧ b.cols = a.cols then
    some { a with elem := fun i j => g (a.elem i j) (b.elem i j) }
  else none

/-- The section `a(i, :)`. -/
def row (a : Array2 α) (i : ℤ) : Option (Array1 α) :=
  if 1 ≤ i ∧ i ≤ a.rows then some ⟨a.cols, a.elem i⟩ else none

/-- The section `a(:, j)`. -/
def column (a : Array2 α) (j : ℤ) : Option (Array1 α) :=
  if 1 ≤ j ∧ j ≤ a.cols then some ⟨a.rows, fun i => a.elem i j⟩ else none

/-- Write a column, from an array of the same size. -/
def setColumn (a : Array2 α) (j : ℤ) (column : Array1 α) : Option (Array2 α) :=
  if (1 ≤ j ∧ j ≤ a.cols) ∧ column.size = a.rows then
    some { a with elem := fun i => Function.update (a.elem i) j (column.elem i) }
  else none

/-- The array has `m` rows and `n` columns, and its elements are the values of `f`. -/
structure Tabulates (a : Array2 α) (m n : ℕ) (f : ℤ → ℤ → α) : Prop where
  rows_eq : a.rows = m
  cols_eq : a.cols = n
  elem_eq : ∀ i j : ℤ, 1 ≤ i → i ≤ m → 1 ≤ j → j ≤ n → a.elem i j = f i j

variable {a b : Array2 α} {m n : ℕ} {f : ℤ → ℤ → α} {i j : ℤ}

theorem get_of_le (h1 : 1 ≤ i) (hi : i ≤ a.rows) (h1' : 1 ≤ j) (hj : j ≤ a.cols) :
    a.get i j = some (a.elem i j) :=
  if_pos ⟨⟨h1, hi⟩, h1', hj⟩

theorem get_bind {β : Type u} {g : α → Option β} (h1 : 1 ≤ i) (hi : i ≤ a.rows) (h1' : 1 ≤ j)
    (hj : j ≤ a.cols) : a.get i j >>= g = g (a.elem i j) := by
  rw [get_of_le h1 hi h1' hj]
  rfl

theorem returns_assign (hrows : b.rows = a.rows) (hcols : b.cols = a.cols) :
    Returns (a.assign b) fun a' => a'.Tabulates b.rows b.cols b.elem := by
  rw [assign, if_pos ⟨hrows, hcols⟩]
  exact returns_some ⟨hrows.symm, hcols.symm, fun _ _ _ _ _ _ => rfl⟩

theorem returns_zipWith {g : α → α → α} {f' : ℤ → ℤ → α} (h : a.Tabulates m n f)
    (h' : b.Tabulates m n f') :
    Returns (a.zipWith g b) fun c => c.Tabulates m n fun i j => g (f i j) (f' i j) := by
  rw [zipWith, if_pos ⟨h'.rows_eq.trans h.rows_eq.symm, h'.cols_eq.trans h.cols_eq.symm⟩]
  refine returns_some ⟨h.rows_eq, h.cols_eq, fun i j h1 hi h1' hj => ?_⟩
  exact congrArg₂ g (h.elem_eq i j h1 hi h1' hj) (h'.elem_eq i j h1 hi h1' hj)

theorem Tabulates.congr {g : ℤ → ℤ → α} (h : a.Tabulates m n f)
    (hfg : ∀ i j : ℤ, 1 ≤ i → i ≤ m → 1 ≤ j → j ≤ n → f i j = g i j) : a.Tabulates m n g where
  rows_eq := h.rows_eq
  cols_eq := h.cols_eq
  elem_eq i j h1 hi h1' hj := (h.elem_eq i j h1 hi h1' hj).trans (hfg i j h1 hi h1' hj)

end Array2

/-! ### Views -/

/-- How a state is read: its shape, which assignments do not change, the places that a state of the
shape has, and its elements. What stands for an element elsewhere does not matter. -/
structure View (σ : Type u) (τ ι : Type) (α : Type u) where
  shape : σ → τ
  places : τ → Set ι
  elem : σ → ι → α

/-- An array of one dimension. -/
def Array1.view : View (Array1 α) ℕ ℤ α :=
  ⟨Array1.size, fun n => Set.Icc 1 (n : ℤ), Array1.elem⟩

/-- An array of two dimensions. -/
def Array2.view : View (Array2 α) (ℕ × ℕ) (ℤ × ℤ) α :=
  ⟨fun a => (a.rows, a.cols), fun n => Set.Icc 1 (n.1 : ℤ) ×ˢ Set.Icc 1 (n.2 : ℤ),
    fun a p => a.elem p.1 p.2⟩

namespace View

/-- The state `s'` is `s` with the values of `f` at the places in `S`. -/
structure Fills (V : View σ τ ι α) (f : ι → α) (S : Set ι) (s s' : σ) : Prop where
  shape_eq : V.shape s' = V.shape s
  on : ∀ p ∈ V.places (V.shape s), p ∈ S → V.elem s' p = f p
  off : ∀ p ∈ V.places (V.shape s), p ∉ S → V.elem s' p = V.elem s p

variable {V : View σ τ ι α} {f : ι → α} {S T : Set ι} {s s' s'' : σ}

theorem fills_empty (V : View σ τ ι α) (f : ι → α) (s : σ) : V.Fills f ∅ s s where
  shape_eq := rfl
  on _ _ hp := hp.elim
  off _ _ _ := rfl

theorem Fills.congr_set (h : V.Fills f S s s') (hST : S = T) : V.Fills f T s s' := hST ▸ h

/-- One assignment after another. A place that both of them assign gets the same value twice. -/
theorem Fills.trans (h : V.Fills f S s s') (h' : V.Fills f T s' s'') :
    V.Fills f (S ∪ T) s s'' where
  shape_eq := h'.shape_eq.trans h.shape_eq
  on p hp hST := by
    have hp' := h.shape_eq ▸ hp
    by_cases hT : p ∈ T
    · exact h'.on p hp' hT
    · rw [h'.off p hp' hT]
      exact h.on p hp (hST.resolve_right hT)
  off p hp hST := by
    rw [h'.off p (h.shape_eq ▸ hp) fun hT => hST (.inr hT)]
    exact h.off p hp fun hS => hST (.inl hS)

/-- The rule for a sequence of assignments. -/
theorem returns_bind {m : Option σ} {k : σ → Option σ} (hm : Returns m (V.Fills f S s))
    (hk : ∀ s', V.Fills f S s s' → Returns (k s') (V.Fills f T s')) :
    Returns (m >>= k) (V.Fills f (S ∪ T) s) :=
  hm.bind fun s' hs' => (hk s' hs').mono fun _ hs'' => hs'.trans hs''

/-- **The rule for a loop of assignments.** -/
theorem returns_doLoop {lo hi : ℤ} {body : ℤ → σ → Option σ} {S : ℤ → Set ι}
    (hbody : ∀ k s', lo ≤ k → k ≤ hi → V.shape s' = V.shape s →
      Returns (body k s') (V.Fills f (S k) s')) :
    Returns (doLoop lo hi body s) (V.Fills f (⋃ k ∈ Set.Icc lo hi, S k) s) := by
  by_cases hle : lo ≤ hi + 1
  · -- Before the index `k`, the places of the indices up to `k - 1` have been assigned.
    have hempty : (⋃ k ∈ Set.Icc lo (lo - 1), S k) = ∅ := by
      rw [Set.Icc_eq_empty (by omega), Set.biUnion_empty]
    have hrun : Returns (doLoop lo hi body s)
        (V.Fills f (⋃ k ∈ Set.Icc lo (hi + 1 - 1), S k) s) := by
      refine ArrayLoops.returns_doLoop (fun k s' => V.Fills f (⋃ l ∈ Set.Icc lo (k - 1), S l) s s')
        hle ((fills_empty V f s).congr_set hempty.symm) fun k s' hk hk' hs' => ?_
      refine (hbody k s' hk hk' hs'.shape_eq).mono fun s'' hs'' => (hs'.trans hs'').congr_set ?_
      ext p
      simp only [Set.mem_union, Set.mem_iUnion, Set.mem_Icc, exists_prop]
      grind
    rwa [add_sub_cancel_right] at hrun
  · rw [doLoop, show (hi + 1 - lo).toNat = 0 by omega]
    refine returns_some ((fills_empty V f s).congr_set ?_)
    rw [Set.Icc_eq_empty (by omega), Set.biUnion_empty]

end View

namespace Array1

variable {a a' : Array1 α} {f : ℤ → α} {i : ℤ} {v : α}

theorem returns_set_fills (h1 : 1 ≤ i) (hi : i ≤ a.size) (hv : v = f i) :
    Returns (a.set i v) (view.Fills f {i} a) :=
  (returns_set ⟨h1, hi⟩).mono fun _ h =>
    { shape_eq := h.size_eq
      on := fun _ _ hk => hk ▸ h.at_index.trans hv
      off := fun k _ hk => h.elsewhere k hk }

theorem Tabulates.of_fills {S : Set ℤ} {n : ℕ} (h : view.Fills f S a a') (hn : a.size = n)
    (hS : ∀ i : ℤ, 1 ≤ i → i ≤ n → i ∈ S) : a'.Tabulates n f where
  size_eq := h.shape_eq.trans hn
  elem_eq i h1 hi := by
    subst hn
    exact h.on i ⟨h1, hi⟩ (hS i h1 hi)

end Array1

namespace Array2

variable {a a' : Array2 α} {f : ℤ × ℤ → α} {i j : ℤ} {v : α}

theorem returns_set_fills (h1 : 1 ≤ i) (hi : i ≤ a.rows) (h1' : 1 ≤ j) (hj : j ≤ a.cols)
    (hv : v = f (i, j)) : Returns (a.set i j v) (view.Fills f {(i, j)} a) := by
  refine (returns_set ⟨⟨h1, hi⟩, h1', hj⟩).mono fun a' h => ?_
  refine { shape_eq := Prod.ext h.rows_eq h.cols_eq, on := ?_, off := ?_ }
  · rintro p - rfl
    exact h.at_index.trans hv
  · rintro ⟨r, c⟩ - hne
    rcases eq_or_ne r i with rfl | hr
    · exact h.same_row c fun hc => hne (Prod.ext rfl hc)
    · exact congrFun (h.elsewhere r hr) c

theorem rows_of_fills {S : Set (ℤ × ℤ)} (h : view.Fills f S a a') : a'.rows = a.rows :=
  congrArg Prod.fst h.shape_eq

theorem cols_of_fills {S : Set (ℤ × ℤ)} (h : view.Fills f S a a') : a'.cols = a.cols :=
  congrArg Prod.snd h.shape_eq

theorem returns_setRow_fills {r : Array1 α} (h1 : 1 ≤ i) (hi : i ≤ a.rows)
    (hr : r.Tabulates a.cols fun j => f (i, j)) :
    Returns (a.setRow i r) (view.Fills f {p | p.1 = i} a) := by
  refine (returns_setRow ⟨h1, hi⟩ hr.size_eq).mono fun a' h => ?_
  refine { shape_eq := Prod.ext h.rows_eq h.cols_eq, on := ?_, off := ?_ }
  · rintro ⟨_, c⟩ hp rfl
    exact (congrFun h.at_index c).trans (hr.elem_eq c hp.2.1 hp.2.2)
  · rintro ⟨r, c⟩ - hne
    exact congrFun (h.elsewhere r hne) c

theorem returns_setColumn_fills {c : Array1 α} (h1 : 1 ≤ j) (hj : j ≤ a.cols)
    (hc : c.Tabulates a.rows fun i => f (i, j)) :
    Returns (a.setColumn j c) (view.Fills f {p | p.2 = j} a) := by
  rw [setColumn, if_pos ⟨⟨h1, hj⟩, hc.size_eq⟩]
  refine returns_some { shape_eq := rfl, on := ?_, off := ?_ }
  · rintro ⟨i, _⟩ hp rfl
    exact (Function.update_self _ _ _).trans (hc.elem_eq i hp.1.1 hp.1.2)
  · rintro ⟨i, k⟩ - hne
    exact Function.update_of_ne hne _ _

theorem row_eq (h1 : 1 ≤ i) (hi : i ≤ a.rows) : a.row i = some ⟨a.cols, a.elem i⟩ :=
  if_pos ⟨h1, hi⟩

theorem column_eq (h1 : 1 ≤ j) (hj : j ≤ a.cols) :
    a.column j = some ⟨a.rows, fun i => a.elem i j⟩ :=
  if_pos ⟨h1, hj⟩

theorem Tabulates.of_fills {S : Set (ℤ × ℤ)} {m n : ℕ} (h : view.Fills f S a a')
    (hm : a.rows = m) (hn : a.cols = n)
    (hS : ∀ i j : ℤ, 1 ≤ i → i ≤ m → 1 ≤ j → j ≤ n → (i, j) ∈ S) :
    a'.Tabulates m n fun i j => f (i, j) where
  rows_eq := (rows_of_fills h).trans hm
  cols_eq := (cols_of_fills h).trans hn
  elem_eq i j h1 hi h1' hj := by
    subst hm hn
    exact h.on (i, j) ⟨⟨h1, hi⟩, h1', hj⟩ (hS i j h1 hi h1' hj)

/-- **The rule for a loop that assigns row after row.** -/
theorem returns_doLoop_rows {m n : ℕ} {body : ℤ → Array2 α → Option (Array2 α)}
    {g : ℤ → ℤ → α} (hm : a.rows = m) (hn : a.cols = n)
    (hbody : ∀ (i : ℤ) a', 1 ≤ i → i ≤ m → a'.rows = m → a'.cols = n →
      ∃ r, Returns r (·.Tabulates n (g i)) ∧ body i a' = r >>= a'.setRow i) :
    Returns (doLoop 1 m body a) fun a' => a'.Tabulates m n g := by
  refine Returns.mono (P := view.Fills (fun p => g p.1 p.2)
    (⋃ i ∈ Set.Icc 1 (m : ℤ), {p | p.1 = i}) a) ?_
    fun a' h => .of_fills h hm hn fun i j h1 hi _ _ => Set.mem_biUnion ⟨h1, hi⟩ rfl
  refine View.returns_doLoop fun i a' h1 hi hs => ?_
  obtain ⟨hrows, hcols⟩ := Prod.ext_iff.1 hs
  have hrows : a'.rows = m := hrows.trans hm
  have hcols : a'.cols = n := hcols.trans hn
  obtain ⟨r, hr, hbody⟩ := hbody i a' h1 hi hrows hcols
  rw [hbody]
  exact hr.bind fun r' hr' => returns_setRow_fills h1 (by omega) (hcols ▸ hr')

/-- **The rule for a loop that assigns column after column.** -/
theorem returns_doLoop_columns {m n : ℕ} {body : ℤ → Array2 α → Option (Array2 α)}
    {g : ℤ → ℤ → α} (hm : a.rows = m) (hn : a.cols = n)
    (hbody : ∀ (j : ℤ) a', 1 ≤ j → j ≤ n → a'.rows = m → a'.cols = n →
      ∃ c, Returns c (·.Tabulates m fun i => g i j) ∧ body j a' = c >>= a'.setColumn j) :
    Returns (doLoop 1 n body a) fun a' => a'.Tabulates m n g := by
  refine Returns.mono (P := view.Fills (fun p => g p.1 p.2)
    (⋃ j ∈ Set.Icc 1 (n : ℤ), {p | p.2 = j}) a) ?_
    fun a' h => .of_fills h hm hn fun i j _ _ h1 hj => Set.mem_biUnion ⟨h1, hj⟩ rfl
  refine View.returns_doLoop fun j a' h1 hj hs => ?_
  obtain ⟨hrows, hcols⟩ := Prod.ext_iff.1 hs
  have hrows : a'.rows = m := hrows.trans hm
  have hcols : a'.cols = n := hcols.trans hn
  obtain ⟨c, hc, hbody⟩ := hbody j a' h1 hj hrows hcols
  rw [hbody]
  exact hc.bind fun c' hc' => returns_setColumn_fills h1 (by omega) (hrows ▸ hc')

end Array2

/-! ### Lines -/

/-- A part of a state that is addressed by one index. -/
structure Line (σ α : Type u) where
  get : σ → ℤ → Option α
  set : σ → ℤ → α → Option σ

/-- An array of one dimension, as a line. -/
def Array1.line : Line (Array1 α) α := ⟨Array1.get, Array1.set⟩

/-- The elements `a(i, :)`. -/
def Array2.rowLine (i : ℤ) : Line (Array2 α) α := ⟨fun a j => a.get i j, fun a j v => a.set i j v⟩

/-- The elements `a(:, j)`. -/
def Array2.columnLine (j : ℤ) : Line (Array2 α) α :=
  ⟨fun a i => a.get i j, fun a i v => a.set i j v⟩

namespace Line

/-- In states of the given shape, the indices `1, …, n` of the line are the places `cell 1, …,
cell n`. -/
structure Within (line : Line σ α) (V : View σ τ ι α) (shape : τ) (n : ℤ) (cell : ℤ → ι) :
    Prop where
  mem_places : ∀ i, 1 ≤ i → i ≤ n → cell i ∈ V.places shape
  get_eq : ∀ s i, V.shape s = shape → 1 ≤ i → i ≤ n → line.get s i = some (V.elem s (cell i))
  returns_set : ∀ s i (f : ι → α), V.shape s = shape → 1 ≤ i → i ≤ n →
    Returns (line.set s i (f (cell i))) (V.Fills f {cell i} s)

variable {line : Line σ α} {V : View σ τ ι α} {shape : τ} {n : ℤ} {cell : ℤ → ι}

/-- **The rule for a loop along a line.** -/
theorem Within.returns_doLoop (h : line.Within V shape n cell) {f : ι → α} {s : σ} {lo hi : ℤ}
    {body : ℤ → σ → Option σ} (hs : V.shape s = shape) (hlo : 1 ≤ lo) (hhi : hi ≤ n)
    (hbody : ∀ i s', lo ≤ i → i ≤ hi → body i s' = line.set s' i (f (cell i))) :
    Returns (doLoop lo hi body s) (V.Fills f (cell '' Set.Icc lo hi) s) := by
  rw [Set.image_eq_iUnion]
  refine View.returns_doLoop fun i s' hi hi' hs' => ?_
  rw [hbody i s' hi hi']
  exact h.returns_set s' i f (hs'.trans hs) (hlo.trans hi) (hi'.trans hhi)

end Line

theorem Array1.line_within {n : ℕ} {k : ℤ} (hk : k ≤ n) : (line (α := α)).Within view n k id where
  mem_places _ h1 hi := ⟨h1, hi.trans hk⟩
  get_eq _ _ hs h1 hi := by
    subst hs
    exact Array1.get_of_le h1 (hi.trans hk)
  returns_set _ _ _ hs h1 hi := by
    subst hs
    exact Array1.returns_set_fills h1 (hi.trans hk) rfl

/-- A loop that assigns all elements. -/
theorem Array1.returns_doLoop_tabulates {a : Array1 α} {f : ℤ → α} {n : ℕ}
    {body : ℤ → Array1 α → Option (Array1 α)} (hn : a.size = n)
    (hbody : ∀ (i : ℤ) a', 1 ≤ i → i ≤ n → body i a' = a'.set i (f i)) :
    Returns (doLoop 1 n body a) fun a' => a'.Tabulates n f := by
  refine ((line_within le_rfl).returns_doLoop hn le_rfl le_rfl hbody).mono fun a' h => ?_
  exact .of_fills h hn fun i h1 hi => ⟨i, ⟨h1, hi⟩, rfl⟩

theorem Array1.returns_interior_ends {a : Array1 α} {f : ℤ → α} {n : ℕ}
    {body : ℤ → Array1 α → Option (Array1 α)} {first last : α} (h1 : 1 ≤ n) (hn : a.size = n)
    (hbody : ∀ (i : ℤ) a', 2 ≤ i → i ≤ n - 1 → body i a' = a'.set i (f i)) (hfirst : first = f 1)
    (hlast : last = f n) :
    Returns (do
      let a ← doLoop 2 (n - 1) body a
      let a ← a.set 1 first
      a.set n last) fun a' => a'.Tabulates n f := by
  have hfills : Returns (do
      let a ← doLoop 2 (n - 1) body a
      let a ← a.set 1 first
      a.set n last) (view.Fills f (id '' Set.Icc 2 ((n : ℤ) - 1) ∪ ({1} ∪ {(n : ℤ)})) a) := by
    refine View.returns_bind ((line_within (by omega)).returns_doLoop hn (by decide) le_rfl hbody)
      fun a₁ h₁ => ?_
    have hn₁ : a₁.size = n := h₁.shape_eq.trans hn
    refine View.returns_bind (returns_set_fills le_rfl (by omega) hfirst) fun a₂ h₂ => ?_
    have hn₂ : a₂.size = n := h₂.shape_eq.trans hn₁
    exact returns_set_fills (by omega) (by omega) hlast
  refine hfills.mono fun a' h => .of_fills h hn fun i h1 hi => ?_
  simp only [Set.image_id, Set.mem_union, Set.mem_Icc, Set.mem_singleton_iff]
  omega

section TwoDimensions

variable {m n : ℕ} {k : ℤ}

theorem Array2.rowLine_within {i : ℤ} (h1 : 1 ≤ i) (hi : i ≤ m) (hk : k ≤ n) :
    (rowLine (α := α) i).Within view (m, n) k fun j => (i, j) where
  mem_places _ h1' hj := ⟨⟨h1, hi⟩, h1', hj.trans hk⟩
  get_eq a _ hs h1' hj := by
    obtain ⟨rfl, rfl⟩ := Prod.ext_iff.1 hs
    exact Array2.get_of_le h1 hi h1' (hj.trans hk)
  returns_set a _ _ hs h1' hj := by
    obtain ⟨rfl, rfl⟩ := Prod.ext_iff.1 hs
    exact Array2.returns_set_fills h1 hi h1' (hj.trans hk) rfl

theorem Array2.columnLine_within {j : ℤ} (h1 : 1 ≤ j) (hj : j ≤ n) (hk : k ≤ m) :
    (columnLine (α := α) j).Within view (m, n) k fun i => (i, j) where
  mem_places _ h1' hi := ⟨⟨h1', hi.trans hk⟩, h1, hj⟩
  get_eq a _ hs h1' hi := by
    obtain ⟨rfl, rfl⟩ := Prod.ext_iff.1 hs
    exact Array2.get_of_le h1' (hi.trans hk) h1 hj
  returns_set a _ _ hs h1' hi := by
    obtain ⟨rfl, rfl⟩ := Prod.ext_iff.1 hs
    exact Array2.returns_set_fills h1' (hi.trans hk) h1 hj rfl

theorem Array2.returns_doLoop_tabulates {a : Array2 α} {f : ℤ → ℤ → α}
    {body : ℤ → ℤ → Array2 α → Option (Array2 α)} (hm : a.rows = m) (hn : a.cols = n)
    (hbody : ∀ (j i : ℤ) a', 1 ≤ j → j ≤ n → 1 ≤ i → i ≤ m → body j i a' = a'.set i j (f i j)) :
    Returns (doLoop 1 n (fun j a => doLoop 1 m (body j) a) a) fun a' => a'.Tabulates m n f := by
  have hshape : view.shape a = (m, n) := Prod.ext hm hn
  refine (View.returns_doLoop (V := view) (f := fun p => f p.1 p.2)
    fun j a' h1 hj hs => (columnLine_within h1 hj le_rfl).returns_doLoop (hs.trans hshape) le_rfl
      le_rfl (hbody j · · h1 hj)).mono fun a' h => ?_
  exact .of_fills h hm hn fun i j h1 hi h1' hj =>
    Set.mem_biUnion ⟨h1', hj⟩ ⟨i, ⟨h1, hi⟩, rfl⟩

end TwoDimensions

end ArrayLoops
