import DistributedComputing.Fortran.SparseTranspose

/-!
# The sparse matrix module as a whole

Two results about all routines of the module, put together from what each of them does.

* **The format is kept**, and all indices are in range. `Produced` are the matrices that the module
  makes, starting from any that are valid; `produced_valid_and_inRange` says that they are valid,
  and that no routine fails on them.
* **The routines compute what they say**, in terms of dense arrays (`commutesWithDense`). The array
  of `sparse_to_dense` is `dense`; every other routine does on sparse matrices what matrix algebra
  does on these arrays, up to the tolerance of those that drop small elements and to the pattern of
  the first summand, which `sparse_add_scaled` keeps.
-/

namespace DistributedComputing

open ArrayLoops Finset

namespace SparseMatrix

variable {R : Type} {A B C : SparseMatrix R}

/-! ### The format -/

theorem valid_createEmpty (undef : Undefined R) {nrows ncols : ℤ} (hrows : 0 ≤ nrows)
    (hcols : 0 ≤ ncols) (nnzEstimate : ℤ) : (createEmpty undef nrows ncols nnzEstimate).Valid where
  nrows_nonneg := hrows
  ncols_nonneg := hcols
  rowPtr_size := Int.self_le_toNat _
  rowPtr_first := rfl
  rowPtr_le _ _ _ := le_rfl
  rowPtr_last := rfl
  col_mem _ hk hk' := absurd (hk.trans hk') (not_le.2 zero_lt_one)
  col_lt _ _ _ _ _ hk _ _ := absurd (hk.1.trans_lt hk.2) (lt_irrefl _)
  values_size := Int.natCast_nonneg _
  colIndices_size := Int.natCast_nonneg _

/-- The square matrix with `v` on the diagonal, and nothing else. -/
def scalar (n : ℕ) (v : R) : SparseMatrix R where
  nrows := n
  ncols := n
  nnz := n
  values := ⟨n, fun _ => v⟩
  colIndices := ⟨n, id⟩
  rowPtr := ⟨n + 1, id⟩

theorem valid_scalar (n : ℕ) (v : R) : (scalar n v).Valid where
  nrows_nonneg := Int.natCast_nonneg n
  ncols_nonneg := Int.natCast_nonneg n
  rowPtr_size := le_rfl
  rowPtr_first := rfl
  rowPtr_le _ _ _ := Int.le_add_one le_rfl
  rowPtr_last := rfl
  col_mem _ hk hk' := ⟨hk, hk'⟩
  col_lt _ _ _ _ _ _ _ hlt := hlt
  values_size := le_rfl
  colIndices_size := le_rfl

variable [Field R]

/-- **The dense form** of a matrix: what `sparse_to_dense` writes into an array of its size. -/
def dense (A : SparseMatrix R) : Array2 R :=
  (A.toDense A.nrows A.ncols).getD (.filled A.nrows A.ncols 0)

/-- The matrix has the given size and dense form. -/
structure HasDense (A : SparseMatrix R) (rows cols : ℤ) (f : ℤ → ℤ → R) : Prop where
  nrows_eq : A.nrows = rows
  ncols_eq : A.ncols = cols
  toDense_eq : A.toDense rows cols = some A.dense
  rows_eq : (A.dense.rows : ℤ) = rows
  cols_eq : (A.dense.cols : ℤ) = cols
  elem_eq : ∀ i j, 1 ≤ i → i ≤ rows → 1 ≤ j → j ≤ cols → A.dense.elem i j = f i j

/-- The dense form consists of the entries. -/
theorem Valid.hasDense (h : A.Valid) {rows cols : ℤ} {f : ℤ → ℤ → R} (hrows : A.nrows = rows)
    (hcols : A.ncols = cols)
    (hf : ∀ i j, 1 ≤ i → i ≤ rows → 1 ≤ j → j ≤ cols → A.entry i j = f i j) :
    A.HasDense rows cols f := by
  have hnrows := h.nrows_nonneg
  have hncols := h.ncols_nonneg
  subst hrows hcols
  obtain ⟨D, hD, hDrows, hDcols, helem⟩ := h.returns_toDense (le_refl A.nrows) (le_refl A.ncols)
  have hdense : A.dense = D := by rw [dense, hD, Option.getD_some]
  refine ⟨rfl, rfl, hdense ▸ hD, ?_, ?_, fun i j hi hi' hj hj' => ?_⟩
  · rw [hdense]
    omega
  · rw [hdense]
    omega
  · rw [hdense, helem i j hi hi', hf i j hi hi' hj hj']

theorem Valid.dense_elem (h : A.Valid) {i j : ℤ} (hi : 1 ≤ i) (hi' : i ≤ A.nrows) (hj : 1 ≤ j)
    (hj' : j ≤ A.ncols) : A.dense.elem i j = A.entry i j :=
  (h.hasDense rfl rfl fun _ _ _ _ _ _ => rfl).elem_eq i j hi hi' hj hj'

theorem addScaled_success_iff (hA : A.Valid) (hB : B.Valid) (undef : Undefined R) (alpha beta : R) :
    Returns (A.addScaled B undef alpha beta) fun r =>
      r.2 = .success ↔ A.nrows = B.nrows ∧ A.ncols = B.ncols := by
  by_cases hsize : A.nrows = B.nrows ∧ A.ncols = B.ncols
  · exact (hA.returns_addScaled hB hsize.1 hsize.2 undef alpha beta).mono fun r hr =>
      iff_of_true hr.1 hsize
  · rw [addScaled, if_pos (by omega)]
    exact returns_some (iff_of_false SparseStatus.noConfusion hsize)

variable [LinearOrder R]

theorem mult_success_iff (hA : A.Valid) (hB : B.Valid) (undef : Undefined R) :
    Returns (A.mult B undef) fun r => r.2 = .success ↔ A.ncols = B.nrows := by
  by_cases hsize : A.ncols = B.nrows
  · exact (hA.returns_mult hB hsize undef).mono fun r hr => iff_of_true hr.1 hsize
  · rw [mult, if_pos hsize]
    exact returns_some (iff_of_false SparseStatus.noConfusion hsize)

/-- **The matrices that the module produces** from valid ones. -/
inductive Produced : SparseMatrix R → Prop
  | valid {A : SparseMatrix R} (h : A.Valid) : Produced A
  | createFromDense (undef : Undefined R) (dense : Array2 R) (tol : Option R) {C : SparseMatrix R}
      (h : createFromDense undef dense tol = some C) : Produced C
  | createEmpty (undef : Undefined R) {nrows ncols : ℤ} (hrows : 0 ≤ nrows) (hcols : 0 ≤ ncols)
      (nnzEstimate : ℤ) : Produced (createEmpty undef nrows ncols nnzEstimate)
  | copy {A : SparseMatrix R} (hA : Produced A) : Produced A.copy
  | transpose {A C : SparseMatrix R} (hA : Produced A) (undef : Undefined R)
      (h : A.transpose undef = some C) : Produced C
  | mult {A B C : SparseMatrix R} (hA : Produced A) (hB : Produced B) (undef : Undefined R)
      (h : A.mult B undef = some (C, .success)) : Produced C
  | addScaled {A B C : SparseMatrix R} (hA : Produced A) (hB : Produced B) (undef : Undefined R)
      (alpha beta : R) (h : A.addScaled B undef alpha beta = some (C, .success)) : Produced C
  | setValue {A C : SparseMatrix R} (hA : Produced A) (row col : ℤ) (value : R)
      {status : SparseStatus} (h : A.setValue row col value = some (C, status)) : Produced C

/-- **All indices are in range**: no routine fails on the matrix, together with any other that is
produced and with arrays that are large enough. The two routines that compare sizes succeed if and
only if these agree. -/
structure IndexesInRange (A : SparseMatrix R) : Prop where
  setValue : ∀ row col value, (A.setValue row col value).isSome
  getValue : ∀ row col, (A.getValue row col).isSome
  matvec : ∀ x y : Array1 R, A.ncols ≤ x.size → A.nrows ≤ y.size → (A.matvec x y).isSome
  transpose : ∀ undef, (A.transpose undef).isSome
  toDense : ∀ rows cols, A.nrows ≤ rows → A.ncols ≤ cols → (A.toDense rows cols).isSome
  createFromDense : ∀ undef (dense : Array2 R) tol, (createFromDense undef dense tol).isSome
  diagonal : ∀ diag : Array1 R, min A.nrows A.ncols ≤ diag.size → (A.diagonal diag).isSome
  addScaled : ∀ B undef alpha beta, B.Produced →
    Returns (A.addScaled B undef alpha beta) fun r =>
      r.2 = .success ↔ A.nrows = B.nrows ∧ A.ncols = B.ncols
  mult : ∀ B undef, B.Produced →
    Returns (A.mult B undef) fun r => r.2 = .success ↔ A.ncols = B.nrows

/-- Producing a matrix keeps the format. -/
theorem Produced.isValid (h : A.Produced) : A.Valid := by
  induction h with
  | valid h => exact h
  | createFromDense undef dense tol h =>
    exact ((returns_createFromDense undef dense tol).elim h).2.2.valid
  | createEmpty undef hrows hcols nnzEstimate => exact valid_createEmpty undef hrows hcols _
  | copy hA ih => exact ih
  | transpose hA undef h ih => exact ((ih.returns_transpose undef).elim h).1
  | mult hA hB undef h ihA ihB =>
    have hsize := ((mult_success_iff ihA ihB undef).elim h).1 rfl
    exact ((ihA.returns_mult ihB hsize undef).elim h).2.1
  | addScaled hA hB undef alpha beta h ihA ihB =>
    have hsize := ((addScaled_success_iff ihA ihB undef alpha beta).elim h).1 rfl
    exact ((ihA.returns_addScaled ihB hsize.1 hsize.2 undef alpha beta).elim h).2.1
  | setValue hA row col value h ih => exact (ih.returns_setValue row col value).elim h

/-- **The format is kept, and all indices are in range.** Every matrix that the module produces from
valid ones is valid, and no routine indexes an array out of range on it. -/
theorem produced_valid_and_inRange (h : A.Produced) : A.Valid ∧ A.IndexesInRange := by
  have hA := h.isValid
  exact ⟨hA, fun row col value => (hA.returns_setValue row col value).isSome,
    fun row col => (hA.returns_getValue row col).isSome,
    fun x y hx hy => (hA.returns_matvec hx hy).isSome,
    fun undef => (hA.returns_transpose undef).isSome,
    fun rows cols hrows hcols => (hA.returns_toDense hrows hcols).isSome,
    fun undef dense tol => (returns_createFromDense undef dense tol).isSome,
    fun diag hdiag => (hA.returns_diagonal hdiag).isSome,
    fun B undef alpha beta hB => addScaled_success_iff hA hB.isValid undef alpha beta,
    fun B undef hB => mult_success_iff hA hB.isValid undef⟩

/-- A copy of twice the identity. -/
theorem produced_valid_and_inRange_scalar :
    (scalar 2 (2 : ℚ)).copy.Valid ∧ (scalar 2 (2 : ℚ)).copy.IndexesInRange :=
  produced_valid_and_inRange (.copy (.valid (valid_scalar 2 2)))

/-! ### Dense forms -/

/-- **What the routines do**, in terms of dense forms. -/
structure CommutesWithDense (A B : SparseMatrix R) (undef : Undefined R) : Prop where
  /-- The dense forms are what `sparse_to_dense` returns. -/
  toDense : A.toDense A.nrows A.ncols = some A.dense ∧ B.toDense B.nrows B.ncols = some B.dense
  /-- Elements are those of the dense form, and zero out of its range. -/
  getValue : ∀ i j, A.getValue i j =
    some (if (1 ≤ i ∧ i ≤ A.nrows) ∧ 1 ≤ j ∧ j ≤ A.ncols then A.dense.elem i j else 0)
  /-- The product with a vector. -/
  matvec : ∀ x y : Array1 R, A.ncols ≤ x.size → A.nrows ≤ y.size →
    Returns (A.matvec x y) fun y' => ∀ i, 1 ≤ i → i ≤ A.nrows →
      y'.elem i = ∑ j ∈ Icc 1 A.ncols, A.dense.elem i j * x.elem j
  /-- The transposed matrix. -/
  transpose : Returns (A.transpose undef)
    (·.HasDense A.ncols A.nrows fun i j => A.dense.elem j i)
  /-- The diagonal. -/
  diagonal : ∀ diag : Array1 R, min A.nrows A.ncols ≤ diag.size →
    Returns (A.diagonal diag) fun diag' => ∀ i, 1 ≤ i → i ≤ min A.nrows A.ncols →
      diag'.elem i = A.dense.elem i i
  /-- The product, without the entries that the tolerance drops. -/
  mult : A.ncols = B.nrows → Returns (A.mult B undef) fun r => r.2 = .success ∧
    r.1.HasDense A.nrows B.ncols fun i j =>
      let product := ∑ l ∈ Icc 1 A.ncols, A.dense.elem i l * B.dense.elem l j
      if tolDefault < |product| then product else 0
  /-- The scaled sum, on the elements that the first matrix stores. -/
  addScaled : A.nrows = B.nrows → A.ncols = B.ncols → ∀ alpha beta : R,
    Returns (A.addScaled B undef alpha beta) fun r => r.2 = .success ∧
      r.1.HasDense A.nrows A.ncols fun i j =>
        if A.Stored i j then alpha * A.dense.elem i j + beta * B.dense.elem i j else 0
  /-- The matrix of an array, without the elements that the tolerance drops. -/
  createFromDense : ∀ (M : Array2 R) (tol : Option R),
    Returns (createFromDense undef M tol) (·.HasDense M.rows M.cols fun i j =>
      if tol.getD tolDefault < |M.elem i j| then M.elem i j else 0)

/-- **Every routine commutes with `sparse_to_dense`**, for all matrices in the format. -/
theorem commutesWithDense (hA : A.Valid) (hB : B.Valid) (undef : Undefined R) :
    A.CommutesWithDense B undef where
  toDense := ⟨(hA.hasDense rfl rfl fun _ _ _ _ _ _ => rfl).toDense_eq,
    (hB.hasDense rfl rfl fun _ _ _ _ _ _ => rfl).toDense_eq⟩
  getValue i j := by
    obtain ⟨v, hv, rfl⟩ := hA.returns_getValue i j
    rw [hv]
    by_cases hindex : A.IndexError i j
    · rw [if_pos hindex, if_neg (by rw [IndexError] at hindex; omega)]
    · rw [if_neg hindex]
      rw [IndexError] at hindex
      rw [if_pos (by omega), hA.dense_elem (by omega) (by omega) (by omega) (by omega)]
  matvec x y hx hy := by
    refine (hA.returns_matvec hx hy).mono fun y' hy' i hi hi' => ?_
    rw [hy' i hi hi']
    refine sum_congr rfl fun j hj => ?_
    rw [hA.dense_elem hi hi' (mem_Icc.1 hj).1 (mem_Icc.1 hj).2]
  transpose := by
    refine (hA.returns_transpose undef).mono ?_
    rintro C ⟨hC, hrows, hcols, hentry⟩
    refine hC.hasDense hrows hcols fun i j hi hi' hj hj' => ?_
    rw [hA.dense_elem hj hj' hi hi', hentry j i hj hj' hi hi']
  diagonal diag hdiag := by
    refine (hA.returns_diagonal hdiag).mono fun diag' hd i hi hi' => ?_
    rw [hd i hi hi', hA.dense_elem hi (by omega) hi (by omega)]
  mult hinner := by
    refine (hA.returns_mult hB hinner undef).mono ?_
    rintro r ⟨hs, hC, hrows, hcols, hentry⟩
    refine ⟨hs, hC.hasDense hrows hcols fun i j hi hi' hj hj' => ?_⟩
    have hproduct : A.mulEntry B i j =
        ∑ l ∈ Icc 1 A.ncols, A.dense.elem i l * B.dense.elem l j := by
      refine sum_congr rfl fun l hl => ?_
      obtain ⟨hl, hl'⟩ := mem_Icc.1 hl
      rw [hA.dense_elem hi hi' hl hl', hB.dense_elem hl (by omega) hj hj']
    rw [hentry i j hi hi' hj hj', hproduct]
  addScaled hrows hcols alpha beta := by
    refine (hA.returns_addScaled hB hrows hcols undef alpha beta).mono ?_
    rintro r ⟨hs, hC, hCrows, hCcols, hentry⟩
    refine ⟨hs, hC.hasDense hCrows hCcols fun i j hi hi' hj hj' => ?_⟩
    rw [hentry i j hi hi', hA.dense_elem hi hi' hj hj',
      hB.dense_elem hi (by omega) hj (by omega)]
  createFromDense M tol := by
    refine (returns_createFromDense undef M tol).mono ?_
    rintro C ⟨hrows, hcols, hC⟩
    refine hC.valid.hasDense hrows hcols fun i j hi hi' hj hj' => ?_
    split
    · next habove => exact hC.entry_eq hi (by omega) ⟨hj, by omega, habove⟩
    · next hbelow => exact hC.entry_eq_zero hi (by omega) fun hP => hbelow hP.2.2

/-- Twice the identity, and three times the identity. -/
theorem commutesWithDense_scalar :
    (scalar 2 (2 : ℚ)).CommutesWithDense (scalar 2 3) ⟨fun _ => 0, fun _ => 0⟩ :=
  commutesWithDense (valid_scalar 2 2) (valid_scalar 2 3) _

end SparseMatrix

end DistributedComputing
