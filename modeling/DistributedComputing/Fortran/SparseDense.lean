import Mathlib.Algebra.BigOperators.Ring.Finset
import Mathlib.Data.Int.Range
import DistributedComputing.Fortran.SparseMatrix

/-!
# Sparse matrices as matrices

`SparseMatrix.Valid` is the representation invariant: the row pointers rise from 1 to `nnz + 1`, the
columns of each row are in range and strictly increasing, and the arrays are long enough. A valid
matrix stands for the matrix of its `entry`s, where the entry at `(i, j)` is the sum of the values
stored in row `i` for column `j`. There is at most one (`Compressed.entry_eq`).

Where the elements are does not depend on their order in a row. `SparseMatrix.Compressed` asks for
different columns only, and the rules for loops over a row and over a matrix are stated for it.

Each routine has one theorem, in terms of `entry`, that says what it returns for valid matrices and
arguments that conform.
-/

namespace DistributedComputing

open ArrayLoops Finset

namespace SparseMatrix

variable {R : Type} {A B : SparseMatrix R} {i j k : ℤ}

/-! ### The representation invariant -/

/-- The element `k` belongs to row `i`. -/
def InRow (A : SparseMatrix R) (i k : ℤ) : Prop :=
  A.rowPtr.elem i ≤ k ∧ k < A.rowPtr.elem (i + 1)

/-- The invariant of the format. -/
structure Valid (A : SparseMatrix R) : Prop where
  nrows_nonneg : 0 ≤ A.nrows
  ncols_nonneg : 0 ≤ A.ncols
  rowPtr_size : A.nrows + 1 ≤ A.rowPtr.size
  rowPtr_first : A.rowPtr.elem 1 = 1
  rowPtr_le : ∀ i, 1 ≤ i → i ≤ A.nrows → A.rowPtr.elem i ≤ A.rowPtr.elem (i + 1)
  rowPtr_last : A.rowPtr.elem (A.nrows + 1) = A.nnz + 1
  col_mem : ∀ k, 1 ≤ k → k ≤ A.nnz → 1 ≤ A.colIndices.elem k ∧ A.colIndices.elem k ≤ A.ncols
  col_lt : ∀ i, 1 ≤ i → i ≤ A.nrows → ∀ k k', A.InRow i k → A.InRow i k' → k < k' →
    A.colIndices.elem k < A.colIndices.elem k'
  values_size : A.nnz ≤ A.values.size
  colIndices_size : A.nnz ≤ A.colIndices.size

/-- The format, but for the order of the columns in a row: they are different. -/
structure Compressed (A : SparseMatrix R) : Prop where
  nrows_nonneg : 0 ≤ A.nrows
  ncols_nonneg : 0 ≤ A.ncols
  rowPtr_size : A.nrows + 1 ≤ A.rowPtr.size
  rowPtr_first : A.rowPtr.elem 1 = 1
  rowPtr_le : ∀ i, 1 ≤ i → i ≤ A.nrows → A.rowPtr.elem i ≤ A.rowPtr.elem (i + 1)
  rowPtr_last : A.rowPtr.elem (A.nrows + 1) = A.nnz + 1
  col_mem : ∀ k, 1 ≤ k → k ≤ A.nnz → 1 ≤ A.colIndices.elem k ∧ A.colIndices.elem k ≤ A.ncols
  col_inj : ∀ {i}, 1 ≤ i → i ≤ A.nrows → ∀ {k k'}, A.InRow i k → A.InRow i k' →
    A.colIndices.elem k = A.colIndices.elem k' → k = k'
  values_size : A.nnz ≤ A.values.size
  colIndices_size : A.nnz ≤ A.colIndices.size

/-- In a row that is sorted, a column is stored at most once. -/
theorem Valid.compressed (h : A.Valid) : A.Compressed where
  nrows_nonneg := h.nrows_nonneg
  ncols_nonneg := h.ncols_nonneg
  rowPtr_size := h.rowPtr_size
  rowPtr_first := h.rowPtr_first
  rowPtr_le := h.rowPtr_le
  rowPtr_last := h.rowPtr_last
  col_mem := h.col_mem
  col_inj {i} hi hi' k k' hk hk' heq := by
    rcases lt_trichotomy k k' with hlt | rfl | hlt
    · exact absurd heq (h.col_lt i hi hi' k k' hk hk' hlt).ne
    · rfl
    · exact absurd heq.symm (h.col_lt i hi hi' k' k hk' hk hlt).ne
  values_size := h.values_size
  colIndices_size := h.colIndices_size

namespace Compressed

theorem rowPtr_mono (h : A.Compressed) (hi : 1 ≤ i) (hij : i ≤ j) (hj : j ≤ A.nrows + 1) :
    A.rowPtr.elem i ≤ A.rowPtr.elem j := by
  induction j, hij using Int.leInduction with
  | base => exact le_rfl
  | succ j hij ih => exact (ih (by omega)).trans (h.rowPtr_le j (by omega) (by omega))

theorem one_le_rowPtr (h : A.Compressed) (hi : 1 ≤ i) (hi' : i ≤ A.nrows + 1) :
    1 ≤ A.rowPtr.elem i :=
  h.rowPtr_first ▸ h.rowPtr_mono le_rfl hi hi'

theorem rowPtr_le_nnz (h : A.Compressed) (hi : 1 ≤ i) (hi' : i ≤ A.nrows + 1) :
    A.rowPtr.elem i ≤ A.nnz + 1 :=
  h.rowPtr_last ▸ h.rowPtr_mono hi hi' le_rfl

theorem nnz_nonneg (h : A.Compressed) : 0 ≤ A.nnz := by
  have hfirst := h.one_le_rowPtr (i := A.nrows + 1) (by have := h.nrows_nonneg; omega) le_rfl
  rw [h.rowPtr_last] at hfirst
  omega

variable (h : A.Compressed) (hi : 1 ≤ i) (hi' : i ≤ A.nrows)
include h hi hi'

theorem one_le_of_inRow (hk : A.InRow i k) : 1 ≤ k :=
  (h.one_le_rowPtr hi (by omega)).trans hk.1

theorem le_nnz_of_inRow (hk : A.InRow i k) : k ≤ A.nnz := by
  have hlast := h.rowPtr_le_nnz (i := i + 1) (by omega) (by omega)
  have := hk.2
  omega

theorem values_inRange (hk : A.InRow i k) : A.values.InRange k :=
  ⟨h.one_le_of_inRow hi hi' hk, (h.le_nnz_of_inRow hi hi' hk).trans h.values_size⟩

theorem colIndices_inRange (hk : A.InRow i k) : A.colIndices.InRange k :=
  ⟨h.one_le_of_inRow hi hi' hk, (h.le_nnz_of_inRow hi hi' hk).trans h.colIndices_size⟩

theorem col_mem_of_inRow (hk : A.InRow i k) :
    1 ≤ A.colIndices.elem k ∧ A.colIndices.elem k ≤ A.ncols :=
  h.col_mem k (h.one_le_of_inRow hi hi' hk) (h.le_nnz_of_inRow hi hi' hk)

theorem row_inj {r : ℤ} (hr : 1 ≤ r) (hr' : r ≤ A.nrows) (hk : A.InRow i k) (hk' : A.InRow r k) :
    i = r := by
  have hlt := hk.2
  have hlt' := hk'.2
  rcases lt_trichotomy i r with hir | rfl | hri
  · have hle := h.rowPtr_mono (i := i + 1) (j := r) (by omega) hir (by omega)
    exact absurd (hle.trans hk'.1) (by omega)
  · rfl
  · have hle := h.rowPtr_mono (i := r + 1) (j := i) (by omega) hri (by omega)
    exact absurd (hle.trans hk.1) (by omega)

theorem returns_rowBounds {β : Type} {f : ℤ × ℤ → Option β} {Q : β → Prop}
    (hf : Returns (f (A.rowPtr.elem i, A.rowPtr.elem (i + 1) - 1)) Q) :
    Returns (A.rowBounds i >>= f) Q := by
  have hsize := h.rowPtr_size
  rw [rowBounds, Array1.get_eq ⟨hi, by omega⟩, Array1.get_eq ⟨by omega, by omega⟩]
  exact hf

/-- **Going through a row.** The rule for a loop over the elements of a row. -/
theorem returns_row {σ : Type} {body : ℤ → σ → Option σ} (motive : ℤ → σ → Prop) {s : σ}
    (h0 : motive (A.rowPtr.elem i) s)
    (hstep : ∀ k s, A.InRow i k → motive k s → Returns (body k s) (motive (k + 1))) :
    Returns (doLoop (A.rowPtr.elem i) (A.rowPtr.elem (i + 1) - 1) body s)
      (motive (A.rowPtr.elem (i + 1))) := by
  have hle := h.rowPtr_le i hi hi'
  have hloop : Returns (doLoop (A.rowPtr.elem i) (A.rowPtr.elem (i + 1) - 1) body s)
      (motive (A.rowPtr.elem (i + 1) - 1 + 1)) :=
    returns_doLoop motive (by omega) h0 fun k s hk hk' => hstep k s ⟨hk, by omega⟩
  rwa [sub_add_cancel] at hloop

omit hi hi' in
/-- **Going through a matrix.** The rule for a loop over the elements of all rows. -/
theorem returns_elements {σ : Type} {body : ℤ → ℤ → σ → Option σ} (motive : ℤ → σ → Prop) {s : σ}
    (h0 : motive 1 s)
    (hstep : ∀ i k s, 1 ≤ i → i ≤ A.nrows → A.InRow i k → motive k s →
      Returns (body i k s) (motive (k + 1))) :
    Returns (doLoop 1 A.nrows (fun i s => do
      let bounds ← A.rowBounds i
      doLoop bounds.1 bounds.2 (body i) s) s) (motive (A.nnz + 1)) := by
  have hnrows := h.nrows_nonneg
  rw [← h.rowPtr_last]
  refine returns_doLoop (fun i s => motive (A.rowPtr.elem i) s) (by omega) ?_
    fun i s hi hi' hs => ?_
  · rwa [h.rowPtr_first]
  · refine h.returns_rowBounds hi hi' (h.returns_row hi hi' motive hs fun k s hk hs => ?_)
    exact hstep i k s hi hi' hk hs

end Compressed

/-! ### Entries -/

/-- The entry is stored. -/
def Stored (A : SparseMatrix R) (i j : ℤ) : Prop := ∃ k, A.InRow i k ∧ A.colIndices.elem k = j

instance (i j : ℤ) : Decidable (A.Stored i j) :=
  decidable_of_iff
    (¬ ∀ k, A.rowPtr.elem i ≤ k → k < A.rowPtr.elem (i + 1) → A.colIndices.elem k ≠ j)
    (by simp only [Stored, InRow, not_forall, not_not, exists_prop, and_assoc])

/-- **Looking for a column** finds its place, or that it is not stored. -/
theorem Valid.returns_findColumn (h : A.Valid) (hi : 1 ≤ i) (hi' : i ≤ A.nrows) (col : ℤ) :
    Returns (A.findColumn (A.rowPtr.elem i, A.rowPtr.elem (i + 1) - 1) col) fun
      | some k => A.InRow i k ∧ A.colIndices.elem k = col
      | none => ¬ A.Stored i col := by
  have hfind : Returns (A.findColumn (A.rowPtr.elem i, A.rowPtr.elem (i + 1) - 1) col)
      (Found (A.colIndices.elem · = col) (A.rowPtr.elem i) (A.rowPtr.elem (i + 1) - 1)) := by
    refine returns_findFirst fun k hk hk' => ?_
    rw [Array1.get_eq (h.compressed.colIndices_inRange hi hi' ⟨hk, by omega⟩)]
    rfl
  refine hfind.mono ?_
  rintro (- | k) hfound
  · rintro ⟨k, ⟨hk, hk'⟩, hcol⟩
    exact hfound k hk (by omega) hcol
  · exact ⟨⟨hfound.1, by have := hfound.2.1; omega⟩, hfound.2.2⟩

theorem row_mem_of_not_indexError {row col : ℤ} (h : ¬ A.IndexError row col) :
    1 ≤ row ∧ row ≤ A.nrows := by
  rw [IndexError] at h
  omega

/-- **`sparse_set_value`** writes a value that is stored, or nothing. -/
theorem Valid.returns_setValue (h : A.Valid) (row col : ℤ) (value : R) :
    Returns (A.setValue row col value) fun r => r.1.Valid := by
  rw [setValue]
  split
  · exact returns_some h
  · next hindex =>
    have hrow := row_mem_of_not_indexError hindex
    refine h.compressed.returns_rowBounds hrow.1 hrow.2 ?_
    refine (h.returns_findColumn hrow.1 hrow.2 col).bind ?_
    rintro (- | k) hfound
    · exact returns_some h
    · have hrange := h.compressed.values_inRange hrow.1 hrow.2 hfound.1
      refine (Array1.returns_set hrange).bind fun values hset => ?_
      exact returns_some { h with values_size := hset.size_eq.symm ▸ h.values_size }

variable [Field R]

/-- What the elements of row `i` before the element `k` contribute to column `j`. -/
noncomputable def entryBefore (A : SparseMatrix R) (i k j : ℤ) : R :=
  ∑ m ∈ Ico (A.rowPtr.elem i) k, if A.colIndices.elem m = j then A.values.elem m else 0

/-- The entry at row `i` and column `j`. -/
noncomputable def entry (A : SparseMatrix R) (i j : ℤ) : R :=
  A.entryBefore i (A.rowPtr.elem (i + 1)) j

theorem entryBefore_first (A : SparseMatrix R) (i j : ℤ) :
    A.entryBefore i (A.rowPtr.elem i) j = 0 := by
  rw [entryBefore, Ico_self, sum_empty]

theorem entryBefore_add_one (hk : A.InRow i k) (j : ℤ) :
    A.entryBefore i (k + 1) j =
      A.entryBefore i k j + if A.colIndices.elem k = j then A.values.elem k else 0 :=
  (sum_Ico_add_eq_sum_Ico_add_one hk.1 _).symm

theorem entry_eq_zero (hnone : ¬ A.Stored i j) : A.entry i j = 0 :=
  sum_eq_zero fun k hk => if_neg fun hcol => hnone ⟨k, mem_Ico.1 hk, hcol⟩

/-- **The entry of a stored element** is its value. -/
theorem Compressed.entry_eq (h : A.Compressed) (hi : 1 ≤ i) (hi' : i ≤ A.nrows)
    (hk : A.InRow i k) : A.entry i (A.colIndices.elem k) = A.values.elem k := by
  rw [entry, entryBefore, sum_eq_single_of_mem k (mem_Ico.2 hk), if_pos rfl]
  intro m hm hne
  exact if_neg fun hcol => hne (h.col_inj hi hi' (mem_Ico.1 hm) hk hcol)

theorem Valid.sum_entry_mul (h : A.Valid) (hi : 1 ≤ i) (hi' : i ≤ A.nrows) (f : ℤ → R) :
    ∑ j ∈ Icc 1 A.ncols, A.entry i j * f j =
      ∑ k ∈ Ico (A.rowPtr.elem i) (A.rowPtr.elem (i + 1)),
        A.values.elem k * f (A.colIndices.elem k) := by
  simp only [entry, entryBefore, sum_mul]
  rw [sum_comm]
  refine sum_congr rfl fun k hk => ?_
  have hcol := h.compressed.col_mem_of_inRow hi hi' (mem_Ico.1 hk)
  simp only [ite_mul, zero_mul]
  rw [sum_ite_eq, if_pos (mem_Icc.2 hcol)]

/-! ### Elements -/

/-- **`sparse_get_value`** returns the entry, and zero for indices out of range. -/
theorem Valid.returns_getValue (h : A.Valid) (row col : ℤ) :
    Returns (A.getValue row col) (· = if A.IndexError row col then 0 else A.entry row col) := by
  rw [getValue]
  split
  · exact returns_some rfl
  · next hindex =>
    have hrow := row_mem_of_not_indexError hindex
    refine h.compressed.returns_rowBounds hrow.1 hrow.2 ?_
    refine (h.returns_findColumn hrow.1 hrow.2 col).bind ?_
    rintro (- | k) hfound
    · exact returns_some (entry_eq_zero hfound).symm
    · obtain ⟨hk, rfl⟩ := hfound
      rw [h.compressed.entry_eq hrow.1 hrow.2 hk]
      exact ⟨_, Array1.get_eq (h.compressed.values_inRange hrow.1 hrow.2 hk), rfl⟩

/-! ### Dense arrays and vectors -/

/-- **`sparse_to_dense`** writes the entries into an array that is large enough. -/
theorem Valid.returns_toDense (h : A.Valid) {rows cols : ℤ} (hrows : A.nrows ≤ rows)
    (hcols : A.ncols ≤ cols) :
    Returns (A.toDense rows cols) fun dense =>
      dense.rows = rows.toNat ∧ dense.cols = cols.toNat ∧
        ∀ i j, 1 ≤ i → i ≤ A.nrows → dense.elem i j = A.entry i j := by
  -- Before the element `k`, the elements before it are in place, and the rest is zero.
  refine Returns.mono (h.compressed.returns_elements (fun k (dense : Array2 R) =>
    dense.rows = rows.toNat ∧ dense.cols = cols.toNat ∧
      (∀ r m, 1 ≤ r → r ≤ A.nrows → A.InRow r m → m < k →
        dense.elem r (A.colIndices.elem m) = A.values.elem m) ∧
      ∀ r c, (∀ m, A.InRow r m → m < k → A.colIndices.elem m ≠ c) → dense.elem r c = 0)
    ⟨rfl, rfl, ?_, fun _ _ _ => rfl⟩ ?_) ?_
  · intro r m hr hr' hm hlt
    exact absurd (h.compressed.one_le_of_inRow hr hr' hm) (by omega)
  · rintro i k dense hi hi' hk ⟨hdrows, hdcols, hplaced, hzero⟩
    obtain ⟨hcol, hcol'⟩ := h.compressed.col_mem_of_inRow hi hi' hk
    refine Array1.returns_get (h.compressed.colIndices_inRange hi hi' hk) ?_
    refine Array1.returns_get (h.compressed.values_inRange hi hi' hk) ?_
    refine (Array2.returns_set ⟨⟨hi, by omega⟩, hcol, by omega⟩).mono fun dense' hset => ?_
    refine ⟨hset.rows_eq.trans hdrows, hset.cols_eq.trans hdcols, fun r m hr hr' hm hlt => ?_,
      fun r c hnone => ?_⟩
    · rcases eq_or_ne m k with rfl | hmk
      · rw [h.compressed.row_inj hr hr' hi hi' hm hk, hset.at_index]
      · rw [← hplaced r m hr hr' hm (by omega)]
        rcases eq_or_ne r i with rfl | hri
        · exact hset.same_row _ fun hcol => hmk (h.compressed.col_inj hi hi' hm hk hcol)
        · rw [hset.elsewhere r hri]
    · rw [← hzero r c fun m hm hlt => hnone m hm (by omega)]
      rcases eq_or_ne r i with rfl | hri
      · exact hset.same_row c (hnone k hk (by omega)).symm
      · rw [hset.elsewhere r hri]
  · rintro dense ⟨hdrows, hdcols, hplaced, hzero⟩
    refine ⟨hdrows, hdcols, fun i j hi hi' => ?_⟩
    by_cases hstored : A.Stored i j
    · obtain ⟨k, hk, rfl⟩ := hstored
      have hle := h.compressed.le_nnz_of_inRow hi hi' hk
      rw [h.compressed.entry_eq hi hi' hk, hplaced i k hi hi' hk (by omega)]
    · rw [entry_eq_zero hstored]
      exact hzero i j fun m hm _ hcol => hstored ⟨m, hm, hcol⟩

/-- **`sparse_matvec`** multiplies the matrix with the vector. -/
theorem Valid.returns_matvec (h : A.Valid) {x y : Array1 R} (hx : A.ncols ≤ x.size)
    (hy : A.nrows ≤ y.size) :
    Returns (A.matvec x y) fun y' =>
      ∀ i, 1 ≤ i → i ≤ A.nrows → y'.elem i = ∑ j ∈ Icc 1 A.ncols, A.entry i j * x.elem j := by
  refine (Array1.returns_doLoop_written h.nrows_nonneg fun i y' hi hi' hsize _ => ?_).mono
    fun y' hy' => hy'.2
  have hsize : y'.size = y.size := hsize
  refine h.compressed.returns_rowBounds hi hi' ?_
  refine (h.compressed.returns_row hi hi' (fun k sumVal => sumVal = ∑ m ∈ Ico (A.rowPtr.elem i) k,
    A.values.elem m * x.elem (A.colIndices.elem m)) ?_ ?_).bind ?_
  · rw [Ico_self, sum_empty]
  · rintro k _ hk rfl
    obtain ⟨hcol, hcol'⟩ := h.compressed.col_mem_of_inRow hi hi' hk
    refine Array1.returns_get (h.compressed.values_inRange hi hi' hk) ?_
    refine Array1.returns_get (h.compressed.colIndices_inRange hi hi' hk) ?_
    refine Array1.returns_get ⟨hcol, hcol'.trans hx⟩ (returns_some ?_)
    exact sum_Ico_add_eq_sum_Ico_add_one hk.1 _
  · rintro _ rfl
    rw [h.sum_entry_mul hi hi']
    exact Array1.returns_set ⟨hi, by omega⟩

/-- **`sparse_diagonal`** reads the diagonal. -/
theorem Valid.returns_diagonal (h : A.Valid) {diag : Array1 R}
    (hdiag : min A.nrows A.ncols ≤ diag.size) :
    Returns (A.diagonal diag) fun diag' =>
      ∀ i, 1 ≤ i → i ≤ min A.nrows A.ncols → diag'.elem i = A.entry i i := by
  have hnrows := h.nrows_nonneg
  have hncols := h.ncols_nonneg
  refine (Array1.returns_doLoop_written (f := fun i => A.entry i i) (by omega)
    fun i diag' hi hi' hsize hzero => ?_).mono fun diag' hd => hd.2
  have hrow : i ≤ A.nrows := by omega
  have hsize : diag'.size = diag.size := hsize
  refine h.compressed.returns_rowBounds hi hrow ?_
  refine (h.returns_findColumn hi hrow i).bind ?_
  rintro (- | k) hfound
  · -- Nothing is stored on the diagonal, and the element stays zero.
    exact returns_some ⟨rfl, hzero.trans (entry_eq_zero hfound).symm, fun _ _ => rfl⟩
  · obtain ⟨hk, hcol⟩ := hfound
    refine Array1.returns_get (h.compressed.values_inRange hi hrow hk) ?_
    have hentry := h.compressed.entry_eq hi hrow hk
    rw [hcol] at hentry
    rw [hentry]
    exact Array1.returns_set ⟨hi, by omega⟩

/-! ### Rows of a product -/

/-- The entry of the product. -/
noncomputable def mulEntry (A B : SparseMatrix R) (i j : ℤ) : R :=
  ∑ l ∈ Icc 1 A.ncols, A.entry i l * B.entry l j

/-- One row of the product. -/
theorem Valid.returns_multRow (hA : A.Valid) (hB : B.Valid) (hinner : A.ncols = B.nrows)
    {rowDense : Array1 R} (hsize : B.ncols ≤ rowDense.size) (hi : 1 ≤ i) (hi' : i ≤ A.nrows) :
    Returns (A.multRow B rowDense i) fun row =>
      row.size = rowDense.size ∧ ∀ c, row.elem c = A.mulEntry B i c := by
  simp only [mulEntry, hA.sum_entry_mul hi hi']
  refine hA.compressed.returns_rowBounds hi hi' (hA.compressed.returns_row hi hi'
    (fun k (row : Array1 R) => row.size = rowDense.size ∧
      ∀ c, row.elem c = ∑ m ∈ Ico (A.rowPtr.elem i) k,
        A.values.elem m * B.entry (A.colIndices.elem m) c) ⟨rfl, fun c => ?_⟩ ?_)
  · rw [Ico_self, sum_empty]
    rfl
  rintro k row hk ⟨hrow, hsum⟩
  obtain ⟨hj, hj'⟩ := hA.compressed.col_mem_of_inRow hi hi' hk
  rw [hinner] at hj'
  refine Array1.returns_get (hA.compressed.colIndices_inRange hi hi' hk) ?_
  refine hB.compressed.returns_rowBounds hj hj' ?_
  refine Returns.mono (hB.compressed.returns_row hj hj' (fun m (row : Array1 R) =>
    row.size = rowDense.size ∧ ∀ c, row.elem c = ∑ m ∈ Ico (A.rowPtr.elem i) k,
      A.values.elem m * B.entry (A.colIndices.elem m) c +
        A.values.elem k * B.entryBefore (A.colIndices.elem k) m c) ⟨hrow, fun c => ?_⟩ ?_) ?_
  · rw [entryBefore_first, mul_zero, add_zero, hsum]
  · rintro m row hm ⟨hrow, hsum⟩
    obtain ⟨hc, hc'⟩ := hB.compressed.col_mem_of_inRow hj hj' hm
    refine Array1.returns_get (hB.compressed.colIndices_inRange hj hj' hm) ?_
    refine Array1.returns_get ⟨hc, by omega⟩ ?_
    refine Array1.returns_get (hA.compressed.values_inRange hi hi' hk) ?_
    refine Array1.returns_get (hB.compressed.values_inRange hj hj' hm) ?_
    refine (Array1.returns_set ⟨hc, by omega⟩).mono fun row' hset => ?_
    refine ⟨hset.size_eq.trans hrow, fun c => ?_⟩
    rw [entryBefore_add_one hm, mul_add, ← add_assoc, ← hsum]
    rcases eq_or_ne c (B.colIndices.elem m) with rfl | hne
    · rw [hset.at_index, if_pos rfl]
    · rw [hset.elsewhere c hne, if_neg hne.symm, mul_zero, add_zero]
  · rintro row ⟨hrow, hsum⟩
    refine ⟨hrow, fun c => ?_⟩
    rw [hsum, ← sum_Ico_add_eq_sum_Ico_add_one hk.1]
    rfl

/-! ### Scaled sums -/

/-- **`sparse_add_scaled`** adds, where the first matrix has elements. -/
theorem Valid.returns_addScaled (hA : A.Valid) (hB : B.Valid) (hrows : A.nrows = B.nrows)
    (hcols : A.ncols = B.ncols) (undef : Undefined R) (alpha beta : R) :
    Returns (A.addScaled B undef alpha beta) fun r =>
      r.2 = .success ∧ r.1.Valid ∧ r.1.nrows = A.nrows ∧ r.1.ncols = A.ncols ∧
        ∀ i j, 1 ≤ i → i ≤ A.nrows → r.1.entry i j =
          if A.Stored i j then alpha * A.entry i j + beta * B.entry i j else 0 := by
  rw [addScaled, if_neg (by omega)]
  -- Before the element `k`, the products of `B` are added to the elements before it.
  refine Returns.bind (hA.compressed.returns_elements (fun k (values : Array1 R) =>
    values.size = A.values.size ∧
      (∀ r m, 1 ≤ r → r ≤ A.nrows → A.InRow r m → m < k → values.elem m =
        alpha * A.values.elem m + beta * B.entry r (A.colIndices.elem m)) ∧
      ∀ m, k ≤ m → values.elem m = alpha * A.values.elem m) ⟨rfl, ?_, fun _ _ => rfl⟩ ?_) ?_
  · intro r m hr hr' hm hlt
    exact absurd (hA.compressed.one_le_of_inRow hr hr' hm) (by omega)
  · rintro i k values hi hi' hk ⟨hsize, hadded, hscaled⟩
    have hcol := hA.compressed.col_mem_of_inRow hi hi' hk
    have hrange : values.InRange k := by
      rw [Array1.InRange, hsize]
      exact hA.compressed.values_inRange hi hi' hk
    refine Array1.returns_get hrange ?_
    refine Array1.returns_get (hA.compressed.colIndices_inRange hi hi' hk) ?_
    refine (hB.returns_getValue i _).bind ?_
    rintro _ rfl
    rw [if_neg (by rw [IndexError]; omega)]
    refine (Array1.returns_set hrange).mono fun values' hset => ?_
    refine ⟨hset.size_eq.trans hsize, fun r m hr hr' hm hlt => ?_, fun m hlt => ?_⟩
    · rcases eq_or_ne m k with rfl | hmk
      · rw [hset.at_index, hscaled m le_rfl, hA.compressed.row_inj hr hr' hi hi' hm hk]
      · rw [hset.elsewhere m hmk]
        exact hadded r m hr hr' hm (by omega)
    · rw [hset.elsewhere m (by omega)]
      exact hscaled m (by omega)
  · rintro values ⟨hsize, hadded, -⟩
    have hvalid : ({ A.copy with values } : SparseMatrix R).Valid :=
      { hA with values_size := hsize.symm ▸ hA.values_size }
    refine returns_some ⟨rfl, hvalid, rfl, rfl, fun i j hi hi' => ?_⟩
    split
    · next hstored =>
      obtain ⟨k, hk, rfl⟩ := hstored
      have hle := hA.compressed.le_nnz_of_inRow hi hi' hk
      rw [hA.compressed.entry_eq hi hi' hk, ← hadded i k hi hi' hk (by omega)]
      exact hvalid.compressed.entry_eq hi hi' hk
    · next hnone => exact entry_eq_zero hnone

end SparseMatrix

end DistributedComputing
