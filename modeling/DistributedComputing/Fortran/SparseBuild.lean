import DistributedComputing.Foundations.ArrayAssignments
import DistributedComputing.Fortran.SparseDense

/-!
# Sparse matrices from dense ones, and products

`sparse_create_from_dense` counts the elements above the tolerance column by column, allocates
arrays of that size, and fills them row by row. The two passes fit together since a sum over a
matrix does not depend on the order (`rowStart_last`): the index that the second pass has reached is
the number of elements it has passed, and so never beyond the number that the first has counted.

What the arrays are then is `SparseMatrix.Holds P f`: each row lists the columns `j` with `P i j` in
increasing order, along with the values `f i j`. Such a matrix is valid (`Holds.valid`), and its
entries are these values (`Holds.entry_eq`) or zero.

`sparse_matrix_mult` computes the product in a dense array and builds its result from that.
-/

namespace DistributedComputing

open ArrayLoops Finset

namespace SparseMatrix

variable {R : Type} {A B : SparseMatrix R} {i j k : ℤ}

/-! ### Matrices that list given entries -/

/-- The matrix lists the values `f i j` for the places with `P i j`. -/
structure Holds (A : SparseMatrix R) (P : ℤ → ℤ → Prop) (f : ℤ → ℤ → R) : Prop where
  nrows_nonneg : 0 ≤ A.nrows
  ncols_nonneg : 0 ≤ A.ncols
  rowPtr_size : A.nrows + 1 ≤ A.rowPtr.size
  rowPtr_first : A.rowPtr.elem 1 = 1
  rowPtr_last : A.rowPtr.elem (A.nrows + 1) = A.nnz + 1
  values_size : A.nnz ≤ A.values.size
  colIndices_size : A.nnz ≤ A.colIndices.size
  columns : ∀ i, 1 ≤ i → i ≤ A.nrows →
    Enumerates A.colIndices.elem (A.rowPtr.elem i) (A.rowPtr.elem (i + 1)) (P i)
  inside : ∀ i j, 1 ≤ i → i ≤ A.nrows → P i j → 1 ≤ j ∧ j ≤ A.ncols
  value : ∀ i k, 1 ≤ i → i ≤ A.nrows → A.InRow i k → A.values.elem k = f i (A.colIndices.elem k)

/-- Every element belongs to a row. -/
theorem exists_inRow (hfirst : A.rowPtr.elem 1 = 1)
    (hlast : A.rowPtr.elem (A.nrows + 1) = A.nnz + 1) (hnrows : 0 ≤ A.nrows) (hk : 1 ≤ k)
    (hk' : k ≤ A.nnz) : ∃ i, 1 ≤ i ∧ i ≤ A.nrows ∧ A.InRow i k := by
  by_contra hnone
  have hbelow : ∀ i, 1 ≤ i → i ≤ A.nrows + 1 → A.rowPtr.elem i ≤ k := by
    intro i hi
    induction i, hi using Int.leInduction with
    | base => exact fun _ => hfirst.trans_le hk
    | succ i hi ih =>
      intro hle
      by_contra hlt
      exact hnone ⟨i, hi, by omega, ih (by omega), not_le.1 hlt⟩
  have hend := hbelow (A.nrows + 1) (by omega) le_rfl
  omega

namespace Holds

variable {P : ℤ → ℤ → Prop} {f : ℤ → ℤ → R}

theorem valid (h : A.Holds P f) : A.Valid where
  nrows_nonneg := h.nrows_nonneg
  ncols_nonneg := h.ncols_nonneg
  rowPtr_size := h.rowPtr_size
  rowPtr_first := h.rowPtr_first
  rowPtr_le i hi hi' := (h.columns i hi hi').le
  rowPtr_last := h.rowPtr_last
  col_mem k hk hk' := by
    obtain ⟨i, hi, hi', hrow⟩ := exists_inRow h.rowPtr_first h.rowPtr_last h.nrows_nonneg hk hk'
    exact h.inside i _ hi hi' (((h.columns i hi hi').mem _).2 ⟨k, hrow.1, hrow.2, rfl⟩)
  col_lt i hi hi' k k' hk hk' hlt := (h.columns i hi hi').lt k k' hk.1 hlt hk'.2
  values_size := h.values_size
  colIndices_size := h.colIndices_size

theorem stored_iff (h : A.Holds P f) (hi : 1 ≤ i) (hi' : i ≤ A.nrows) : A.Stored i j ↔ P i j := by
  rw [(h.columns i hi hi').mem j]
  exact exists_congr fun k => and_assoc

theorem entry_eq [Field R] (h : A.Holds P f) (hi : 1 ≤ i) (hi' : i ≤ A.nrows) (hP : P i j) :
    A.entry i j = f i j := by
  obtain ⟨k, hk, rfl⟩ := (h.stored_iff hi hi').2 hP
  rw [h.valid.compressed.entry_eq hi hi' hk, h.value i k hi hi' hk]

theorem entry_eq_zero [Field R] (h : A.Holds P f) (hi : 1 ≤ i) (hi' : i ≤ A.nrows)
    (hP : ¬ P i j) : A.entry i j = 0 :=
  SparseMatrix.entry_eq_zero fun hstored => hP ((h.stored_iff hi hi').1 hstored)

end Holds

variable [Field R] [LinearOrder R]

/-! ### The two passes of `sparse_create_from_dense` -/

section Build

variable (dense : Array2 R) (tolerance : R)

/-- The element is above the tolerance. -/
abbrev Above (i j : ℤ) : Prop := tolerance < |dense.elem i j|

/-- The columns before `c` of the elements of row `i` above the tolerance. -/
def AboveBefore (i c j : ℤ) : Prop := 1 ≤ j ∧ j < c ∧ Above dense tolerance i j

/-- Where row `i` starts. -/
noncomputable def rowStart (i : ℤ) : ℤ :=
  offset (fun r => tally (Above dense tolerance r) (dense.cols + 1)) i

theorem rowStart_add_one (hi : 1 ≤ i) : rowStart dense tolerance (i + 1) =
    rowStart dense tolerance i + tally (Above dense tolerance i) (dense.cols + 1) :=
  offset_add_one hi

theorem rowStart_mono (hij : i ≤ j) : rowStart dense tolerance i ≤ rowStart dense tolerance j :=
  offset_mono (fun _ => tally_nonneg _ _) hij

/-- Counting by columns and counting by rows come to the same. -/
theorem rowStart_last : rowStart dense tolerance (dense.rows + 1) =
    1 + ∑ j ∈ Ico 1 (dense.cols + 1 : ℤ), tally (Above dense tolerance · j) (dense.rows + 1) := by
  simp only [rowStart, offset, tally]
  rw [sum_comm]

theorem returns_countNonZeros : Returns (countNonZeros dense tolerance) fun nnz =>
    rowStart dense tolerance (dense.rows + 1) = nnz + 1 := by
  rw [rowStart_last, Ico_add_one_right_eq_Icc]
  refine Returns.mono (returns_doLoop_sum (fun _ => True) id
    (fun j => tally (Above dense tolerance · j) (dense.rows + 1)) (by omega) trivial
    fun j nnz hj hj' _ => ?_) fun nnz hnnz => ?_
  · simp only [tally, Ico_add_one_right_eq_Icc]
    refine returns_doLoop_sum (fun _ => True) id _ (by omega) trivial fun i nnz hi hi' _ => ?_
    refine Array2.returns_get ⟨⟨hi, hi'⟩, hj, hj'⟩ ?_
    by_cases habove : Above dense tolerance i j
    · rw [if_pos habove, if_pos habove]
      exact returns_some ⟨trivial, rfl⟩
    · rw [if_neg habove, if_neg habove]
      exact returns_some ⟨trivial, (add_zero _).symm⟩
  · have hsum : nnz = 0 + ∑ j ∈ Icc 1 (dense.cols : ℤ), _ := hnnz.2
    rw [hsum, zero_add, add_comm]

/-- The arrays contain the elements of row `r` in the columns before `c`. -/
structure RowFilled (values : Array1 R) (colIndices : Array1 ℤ) (r c : ℤ) : Prop where
  columns : Enumerates colIndices.elem (rowStart dense tolerance r)
    (rowStart dense tolerance r + tally (Above dense tolerance r) c)
    (AboveBefore dense tolerance r c)
  value : ∀ k, rowStart dense tolerance r ≤ k →
    k < rowStart dense tolerance r + tally (Above dense tolerance r) c →
      values.elem k = dense.elem r (colIndices.elem k)

/-- **The second pass**, before the element in row `i` and column `j`. -/
structure Filled (nnz i j : ℤ) (s : Filling R) : Prop where
  values_size : s.values.size = nnz.toNat
  colIndices_size : s.colIndices.size = nnz.toNat
  rowPtr_size : s.rowPtr.size = dense.rows + 1
  idx_eq : s.idx = rowStart dense tolerance i + tally (Above dense tolerance i) j
  rowPtr_eq : ∀ r, 1 ≤ r → r ≤ i → s.rowPtr.elem r = rowStart dense tolerance r
  above : ∀ r, 1 ≤ r → r < i → RowFilled dense tolerance s.values s.colIndices r (dense.cols + 1)
  current : RowFilled dense tolerance s.values s.colIndices i j

variable {dense tolerance} {values values' : Array1 R} {colIndices colIndices' : Array1 ℤ}
  {s : Filling R} {nnz : ℤ}

/-- A row that is filled stays so when the arrays change behind it. -/
theorem RowFilled.congr {r c : ℤ} (h : RowFilled dense tolerance values colIndices r c)
    (hval : ∀ k < rowStart dense tolerance r + tally (Above dense tolerance r) c,
      values'.elem k = values.elem k)
    (hcol : ∀ k < rowStart dense tolerance r + tally (Above dense tolerance r) c,
      colIndices'.elem k = colIndices.elem k) :
    RowFilled dense tolerance values' colIndices' r c where
  columns := h.columns.congr (fun k _ hk => hcol k hk) fun _ => Iff.rfl
  value k hk hk' := by rw [hval k hk', hcol k hk', h.value k hk hk']

theorem rowFilled_one (values : Array1 R) (colIndices : Array1 ℤ) (r : ℤ) :
    RowFilled dense tolerance values colIndices r 1 := by
  refine ⟨?_, ?_⟩ <;> rw [tally_one, add_zero]
  · exact (Enumerates.empty _ _).congr (fun _ _ _ => rfl) fun c =>
      iff_false_intro fun ⟨hc, hlt, _⟩ => absurd hlt (by omega)
  · exact fun k hk hlt => absurd hlt (not_lt.2 hk)

theorem Filled.skip (h : Filled dense tolerance nnz i j s) (hj : 1 ≤ j)
    (hbelow : ¬ Above dense tolerance i j) : Filled dense tolerance nnz i (j + 1) s := by
  have htally : tally (Above dense tolerance i) (j + 1) = tally (Above dense tolerance i) j := by
    rw [tally_add_one _ hj, if_neg hbelow, add_zero]
  have hbefore (c : ℤ) :
      AboveBefore dense tolerance i (j + 1) c ↔ AboveBefore dense tolerance i j c := by
    refine and_congr_right fun _ => ⟨fun ⟨hlt, hc⟩ => ⟨?_, hc⟩, fun ⟨hlt, hc⟩ => ⟨by omega, hc⟩⟩
    rcases eq_or_ne c j with rfl | hne
    · exact absurd hc hbelow
    · omega
  refine { h with idx_eq := htally ▸ h.idx_eq, current := ⟨?_, ?_⟩ }
  · rw [htally]
    exact h.current.columns.congr (fun _ _ _ => rfl) hbefore
  · rw [htally]
    exact h.current.value

theorem Filled.append (h : Filled dense tolerance nnz i j s) (hj : 1 ≤ j)
    (habove : Above dense tolerance i j)
    (hval : s.values.Written s.idx (dense.elem i j) values)
    (hcol : s.colIndices.Written s.idx j colIndices) (count : ℤ) :
    Filled dense tolerance nnz i (j + 1)
      { s with values, colIndices, idx := s.idx + 1, count } := by
  have htally : tally (Above dense tolerance i) (j + 1) =
      tally (Above dense tolerance i) j + 1 := by
    rw [tally_add_one _ hj, if_pos habove]
  have hidx := h.idx_eq
  refine ⟨hval.size_eq.trans h.values_size, hcol.size_eq.trans h.colIndices_size, h.rowPtr_size,
    ?_, h.rowPtr_eq, fun r hr hlt => ?_, ⟨?_, fun k hk hk' => ?_⟩⟩
  · rw [htally, hidx, add_assoc]
  · -- The rows above end before the place of the new element.
    have hend := rowStart_mono dense tolerance (i := r + 1) (j := i) hlt
    rw [rowStart_add_one dense tolerance hr] at hend
    have hnonneg := tally_nonneg (Above dense tolerance i) j
    exact (h.above r hr hlt).congr (fun k hk => hval.elsewhere k (by omega))
      fun k hk => hcol.elsewhere k (by omega)
  · rw [htally, ← add_assoc]
    refine h.current.columns.push (fun k _ hk => hcol.elsewhere k (by omega)) ?_ ?_
    · rw [← hidx]
      rintro c ⟨-, hlt, -⟩
      exact hlt.trans_eq hcol.at_index.symm
    · rw [← hidx]
      intro c
      rw [hcol.at_index]
      constructor
      · rintro ⟨hc, hlt, hab⟩
        rcases eq_or_ne c j with rfl | hne
        · exact .inr rfl
        · exact .inl ⟨hc, by omega, hab⟩
      · rintro (⟨hc, hlt, hab⟩ | rfl)
        · exact ⟨hc, by omega, hab⟩
        · exact ⟨hj, by omega, habove⟩
  · rcases eq_or_ne k s.idx with rfl | hne
    · rw [hval.at_index, hcol.at_index]
    · rw [htally] at hk'
      rw [hval.elsewhere k hne, hcol.elsewhere k hne, h.current.value k hk (by omega)]

theorem Filled.returns_fillElement (h : Filled dense tolerance nnz i j s)
    (hnnz : rowStart dense tolerance (dense.rows + 1) = nnz + 1) (hi : 1 ≤ i)
    (hi' : i ≤ dense.rows) (hj : 1 ≤ j) (hj' : j ≤ dense.cols)
    (hcount : s.count = tally (Above dense tolerance i) j) :
    Returns (fillElement dense tolerance i j s) fun s' => Filled dense tolerance nnz i (j + 1) s' ∧
      s'.count = tally (Above dense tolerance i) (j + 1) := by
  rw [fillElement, tally_add_one _ hj]
  refine Array2.returns_get ⟨⟨hi, hi'⟩, hj, hj'⟩ ?_
  by_cases habove : Above dense tolerance i j
  · rw [if_pos habove, if_pos habove]
    -- The element is one of those that the first pass has counted.
    have hrange : 1 ≤ s.idx ∧ s.idx ≤ nnz := by
      have hfirst := rowStart_mono dense tolerance hi
      have hrow : tally (Above dense tolerance i) (j + 1) ≤
          tally (Above dense tolerance i) (dense.cols + 1) := tally_mono _ (by omega)
      have hend := rowStart_mono dense tolerance (i := i + 1) (j := dense.rows + 1) (by omega)
      rw [tally_add_one _ hj, if_pos habove] at hrow
      rw [rowStart_add_one dense tolerance hi] at hend
      have hnonneg := tally_nonneg (Above dense tolerance i) j
      rw [h.idx_eq]
      exact ⟨(hfirst.trans (by omega)), by omega⟩
    have hvalues := h.values_size
    have hcols := h.colIndices_size
    refine (Array1.returns_set ⟨hrange.1, by omega⟩).bind fun values hval => ?_
    refine (Array1.returns_set ⟨hrange.1, by omega⟩).bind fun colIndices hcol => ?_
    exact returns_some ⟨h.append hj habove hval hcol _, congrArg (· + 1) hcount⟩
  · rw [if_neg habove, if_neg habove, add_zero]
    exact returns_some ⟨h.skip hj habove, hcount⟩

theorem Filled.returns_fillRow (h : Filled dense tolerance nnz i 1 s)
    (hnnz : rowStart dense tolerance (dense.rows + 1) = nnz + 1) (hi : 1 ≤ i)
    (hi' : i ≤ dense.rows) :
    Returns (fillRow dense tolerance i s) (Filled dense tolerance nnz (i + 1) 1) := by
  refine Returns.bind (returns_doLoop (fun j s => Filled dense tolerance nnz i j s ∧
    s.count = tally (Above dense tolerance i) j) (by omega) ⟨{ h with }, rfl⟩ ?_) ?_
  · rintro j s hj hj' ⟨hs, hcount⟩
    exact hs.returns_fillElement hnnz hi hi' hj hj' hcount
  · rintro s ⟨hs, hcount⟩
    have hsize := hs.rowPtr_size
    refine Array1.returns_get ⟨hi, by omega⟩ ?_
    refine (Array1.returns_set ⟨by omega, by omega⟩).bind fun rowPtr hset => returns_some ?_
    have hend := rowStart_add_one dense tolerance hi
    refine ⟨hs.values_size, hs.colIndices_size, hset.size_eq.trans hsize, ?_, fun r hr hlt => ?_,
      fun r hr hlt => ?_, rowFilled_one _ _ _⟩
    · rw [tally_one, add_zero, hend]
      exact hs.idx_eq
    · rcases eq_or_ne r (i + 1) with rfl | hne
      · rw [hend, ← hcount, ← hs.rowPtr_eq i hi le_rfl]
        exact hset.at_index
      · exact (hset.elsewhere r hne).trans (hs.rowPtr_eq r hr (by omega))
    · rcases eq_or_ne r i with rfl | hne
      · exact hs.current
      · exact hs.above r hr (by omega)

theorem Filled.holds (h : Filled dense tolerance nnz (dense.rows + 1) 1 s)
    (hnnz : rowStart dense tolerance (dense.rows + 1) = nnz + 1) :
    (⟨dense.rows, dense.cols, nnz, s.values, s.colIndices, s.rowPtr⟩ : SparseMatrix R).Holds
      (AboveBefore dense tolerance · (dense.cols + 1)) dense.elem where
  nrows_nonneg := Int.natCast_nonneg _
  ncols_nonneg := Int.natCast_nonneg _
  rowPtr_size := by
    have hsize := h.rowPtr_size
    dsimp only
    omega
  rowPtr_first := h.rowPtr_eq 1 le_rfl (by omega)
  rowPtr_last := (h.rowPtr_eq _ (by omega) le_rfl).trans hnnz
  values_size := by
    have hsize := h.values_size
    dsimp only
    omega
  colIndices_size := by
    have hsize := h.colIndices_size
    dsimp only
    omega
  columns i hi (hi' : i ≤ (dense.rows : ℤ)) := by
    dsimp only
    rw [h.rowPtr_eq i hi (by omega), h.rowPtr_eq (i + 1) (by omega) (by omega),
      rowStart_add_one _ _ hi]
    exact (h.above i hi (by omega)).columns
  inside i j _ _ hP := ⟨hP.1, Int.le_of_lt_add_one hP.2.1⟩
  value i k hi (hi' : i ≤ (dense.rows : ℤ)) hk := by
    rw [InRow, h.rowPtr_eq i hi (by omega), h.rowPtr_eq (i + 1) (by omega) (by omega),
      rowStart_add_one _ _ hi] at hk
    exact (h.above i hi (by omega)).value k hk.1 hk.2

end Build

/-- **`sparse_create_from_dense`** keeps the elements above the tolerance. -/
theorem returns_createFromDense (undef : Undefined R) (dense : Array2 R) (tol : Option R) :
    Returns (createFromDense undef dense tol) fun C =>
      C.nrows = dense.rows ∧ C.ncols = dense.cols ∧
        C.Holds (AboveBefore dense (tol.getD tolDefault) · (dense.cols + 1)) dense.elem := by
  refine (returns_countNonZeros dense (tol.getD tolDefault)).bind fun nnz hnnz => ?_
  have hrange := Array1.inRange_allocate (n := dense.rows + 1) undef.integer le_rfl (by omega)
  refine (Array1.returns_set hrange).bind fun rowPtr hset => ?_
  refine Returns.bind (returns_doLoop (fun i s => Filled dense (tol.getD tolDefault) nnz i 1 s)
    (by omega) ?_ fun i s hi hi' hs => hs.returns_fillRow hnnz hi hi') ?_
  · refine ⟨rfl, rfl, hset.size_eq, rfl, fun r hr hr' => ?_, fun r hr hlt => absurd hlt (by omega),
      rowFilled_one _ _ _⟩
    rw [le_antisymm hr' hr]
    exact hset.at_index
  · exact fun s hs => returns_some ⟨rfl, rfl, hs.holds hnnz⟩

/-! ### Products -/

/-- **`sparse_matrix_mult`** keeps the entries of the product above the default tolerance. -/
theorem Valid.returns_mult (hA : A.Valid) (hB : B.Valid) (hinner : A.ncols = B.nrows)
    (undef : Undefined R) :
    Returns (A.mult B undef) fun r =>
      r.2 = .success ∧ r.1.Valid ∧ r.1.nrows = A.nrows ∧ r.1.ncols = B.ncols ∧
        ∀ i j, 1 ≤ i → i ≤ A.nrows → 1 ≤ j → j ≤ B.ncols →
          r.1.entry i j = if tolDefault < |A.mulEntry B i j| then A.mulEntry B i j else 0 := by
  obtain ⟨m, hm⟩ := Int.eq_ofNat_of_zero_le hA.nrows_nonneg
  obtain ⟨n, hn⟩ := Int.eq_ofNat_of_zero_le hB.ncols_nonneg
  rw [mult, if_neg (not_not.2 hinner)]
  refine Returns.bind (P := fun dense : Array2 R => dense.Tabulates m n (A.mulEntry B)) ?_ ?_
  · rw [hm, hn]
    refine Array2.returns_doLoop_rows rfl rfl fun i dense hi hi' _ _ => ?_
    refine ⟨_, (hA.returns_multRow hB hinner hn.le hi (by omega)).mono fun row hrow => ?_, rfl⟩
    exact ⟨hrow.1, fun c _ _ => hrow.2 c⟩
  · rintro dense ⟨hrows, hcols, helem⟩
    refine (returns_createFromDense undef dense none).bind fun C ⟨hCrows, hCcols, hC⟩ => ?_
    have hCrows' : C.nrows = A.nrows := by omega
    have hCcols' : C.ncols = B.ncols := by omega
    refine returns_some ⟨rfl, hC.valid, hCrows', hCcols', fun i j hi hi' hj hj' => ?_⟩
    rw [← helem i j hi (by omega) hj (by omega)]
    split
    · next habove => exact hC.entry_eq hi (by omega) ⟨hj, by omega, habove⟩
    · next hbelow => exact hC.entry_eq_zero hi (by omega) fun hP => hbelow hP.2.2

end SparseMatrix

end DistributedComputing
