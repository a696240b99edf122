import DistributedComputing.Fortran.SparseAlgebra

/-!
# Transposing twice

Two calls of `sparse_transpose` give back the matrix they started from, array by array, and sort its
rows on the way if they were not sorted.

The places that an element goes through need not be computed for this. A transposed matrix lists the
stored entries in sorted rows (`Compressed.returns_holds`), so that the matrix after two calls lists
the entries of the first one in sorted rows (`Compressed.returns_twice`). As no column stands twice
in a row, a row is a list of pairs without repetitions, and two such rows with the same entries are
permutations of each other (`perm_rowPairs`). From their lengths come the row pointers
(`rowPtr_eq`), and two sorted rows are equal.
-/

namespace DistributedComputing

open ArrayLoops

namespace SparseMatrix

variable {R : Type} {A B : SparseMatrix R} {i j k c : ℤ} {v : R}

/-! ### Rows as lists -/

/-- The columns and values of a row, in the order in which they are stored. -/
def rowPairs (A : SparseMatrix R) (i : ℤ) : List (ℤ × R) :=
  (List.range (A.rowPtr.elem (i + 1) - A.rowPtr.elem i).toNat).map fun d : ℕ =>
    (A.colIndices.elem (A.rowPtr.elem i + d), A.values.elem (A.rowPtr.elem i + d))

theorem length_rowPairs (A : SparseMatrix R) (i : ℤ) :
    (A.rowPairs i).length = (A.rowPtr.elem (i + 1) - A.rowPtr.elem i).toNat := by
  rw [rowPairs, List.length_map, List.length_range]

theorem getElem?_rowPairs (hk : A.InRow i k) :
    (A.rowPairs i)[(k - A.rowPtr.elem i).toNat]? =
      some (A.colIndices.elem k, A.values.elem k) := by
  obtain ⟨hfirst, hbehind⟩ := hk
  have hplace : A.rowPtr.elem i + ((k - A.rowPtr.elem i).toNat : ℤ) = k := by omega
  rw [rowPairs, List.getElem?_map, List.getElem?_range (by omega), Option.map_some, hplace]

theorem mem_rowPairs : (c, v) ∈ A.rowPairs i ↔
    ∃ k, A.InRow i k ∧ A.colIndices.elem k = c ∧ A.values.elem k = v := by
  rw [rowPairs, List.mem_map]
  constructor
  · rintro ⟨d, hd, heq⟩
    rw [List.mem_range] at hd
    obtain ⟨hc, hv⟩ := Prod.ext_iff.1 heq
    exact ⟨_, ⟨by omega, by omega⟩, hc, hv⟩
  · rintro ⟨k, ⟨hfirst, hbehind⟩, rfl, rfl⟩
    refine ⟨(k - A.rowPtr.elem i).toNat, List.mem_range.2 (by omega), ?_⟩
    rw [show A.rowPtr.elem i + ((k - A.rowPtr.elem i).toNat : ℤ) = k by omega]

/-- No column stands twice in a row. -/
theorem Compressed.nodup_rowPairs (h : A.Compressed) (hi : 1 ≤ i) (hi' : i ≤ A.nrows) :
    (A.rowPairs i).Nodup := by
  refine List.Nodup.map_on (fun d hd d' hd' heq => ?_) List.nodup_range
  rw [List.mem_range] at hd hd'
  have hplace := h.col_inj hi hi' ⟨by omega, by omega⟩ ⟨by omega, by omega⟩ (congrArg Prod.fst heq)
  omega

theorem Valid.pairwise_rowPairs (h : A.Valid) (hi : 1 ≤ i) (hi' : i ≤ A.nrows) :
    (A.rowPairs i).Pairwise (·.1 < ·.1) := by
  rw [rowPairs, List.pairwise_map]
  refine List.pairwise_lt_range.imp_of_mem fun {d d'} hd hd' hlt => ?_
  rw [List.mem_range] at hd hd'
  exact h.col_lt i hi hi' _ _ ⟨by omega, by omega⟩ ⟨by omega, by omega⟩ (by omega)

theorem rowPtr_eq (hA : A.Compressed) (hB : B.Compressed) (hrows : B.nrows = A.nrows)
    (hlength : ∀ i, 1 ≤ i → i ≤ A.nrows → (B.rowPairs i).length = (A.rowPairs i).length)
    (hi : 1 ≤ i) (hi' : i ≤ A.nrows + 1) : B.rowPtr.elem i = A.rowPtr.elem i := by
  induction i, hi using Int.leInduction with
  | base => rw [hA.rowPtr_first, hB.rowPtr_first]
  | succ i hi ih =>
    have hstart := ih (by omega)
    have hsame := hlength i hi (by omega)
    have hA' := hA.rowPtr_le i hi (by omega)
    have hB' := hB.rowPtr_le i hi (by omega)
    rw [length_rowPairs, length_rowPairs] at hsame
    omega

section Entries

variable [Field R]

theorem Compressed.mem_rowPairs_iff (h : A.Compressed) (hi : 1 ≤ i) (hi' : i ≤ A.nrows) :
    (c, v) ∈ A.rowPairs i ↔ A.Stored i c ∧ A.entry i c = v := by
  rw [mem_rowPairs]
  constructor
  · rintro ⟨k, hk, rfl, rfl⟩
    exact ⟨⟨k, hk, rfl⟩, h.entry_eq hi hi' hk⟩
  · rintro ⟨⟨k, hk, rfl⟩, hv⟩
    exact ⟨k, hk, rfl, (h.entry_eq hi hi' hk).symm.trans hv⟩

/-- **Rows with the same entries** differ in the order of their pairs only. -/
theorem perm_rowPairs (hA : A.Compressed) (hB : B.Compressed) (hrows : B.nrows = A.nrows)
    (hi : 1 ≤ i) (hi' : i ≤ A.nrows) (hstored : ∀ c, B.Stored i c ↔ A.Stored i c)
    (hentry : ∀ c, A.Stored i c → B.entry i c = A.entry i c) :
    (B.rowPairs i).Perm (A.rowPairs i) := by
  have hB' : i ≤ B.nrows := hi'.trans_eq hrows.symm
  refine (List.perm_ext_iff_of_nodup (hB.nodup_rowPairs hi hB') (hA.nodup_rowPairs hi hi')).2 ?_
  rintro ⟨c, v⟩
  rw [hB.mem_rowPairs_iff hi hB', hA.mem_rowPairs_iff hi hi', hstored]
  exact and_congr_right fun hc => by rw [hentry c hc]

/-! ### The matrix after two calls -/

/-- The matrix after two calls holds the entries of the first one. -/
structure ListsEntries (A B : SparseMatrix R) : Prop where
  nrows_eq : B.nrows = A.nrows
  ncols_eq : B.ncols = A.ncols
  nnz_eq : B.nnz = A.nnz
  rowPtr_size : B.rowPtr.size = (A.nrows + 1).toNat
  colIndices_size : B.colIndices.size = A.nnz.toNat
  values_size : B.values.size = A.nnz.toNat
  valid : B.Valid
  stored_iff : ∀ i c, 1 ≤ i → i ≤ A.nrows → (B.Stored i c ↔ A.Stored i c)
  entry_eq : ∀ i c, 1 ≤ i → i ≤ A.nrows → A.Stored i c → B.entry i c = A.entry i c

theorem Compressed.returns_twice (h : A.Compressed) (undef undef' : Undefined R) :
    Returns (A.transpose undef >>= fun C => C.transpose undef') A.ListsEntries := by
  refine (h.returns_holds undef).bind ?_
  rintro C ⟨⟨hrows, hcols, hnnz⟩, -, hC⟩
  refine (hC.valid.compressed.returns_holds undef').mono ?_
  rintro B ⟨⟨hrows', hcols', hnnz'⟩, ⟨hptr, hcol, hval⟩, hB⟩
  have hin : ∀ {i c}, 1 ≤ i → i ≤ A.nrows → A.Stored i c → 1 ≤ c ∧ c ≤ C.nrows := by
    rintro i c hi hi' ⟨k, hk, rfl⟩
    rw [hrows]
    exact h.col_mem_of_inRow hi hi' hk
  have hstored : ∀ {i c}, 1 ≤ i → i ≤ A.nrows → 1 ≤ c ∧ c ≤ C.nrows →
      (C.StoredBefore (C.nnz + 1) i c ↔ A.Stored i c) := fun hi hi' hc =>
    calc C.StoredBefore (C.nnz + 1) _ _
        ↔ C.Stored _ _ := hC.valid.compressed.storedBefore_last hc.1 hc.2 _
      _ ↔ A.StoredBefore (A.nnz + 1) _ _ := hC.stored_iff hc.1 hc.2
      _ ↔ A.Stored _ _ := h.storedBefore_last hi hi' _
  refine ⟨hrows'.trans hcols, hcols'.trans hrows, hnnz'.trans hnnz, ?_, ?_, ?_, hB.valid,
    fun i c hi hi' => ?_, fun i c hi hi' hc => ?_⟩
  · rw [hptr, hrows', hcols]
  · rw [hcol, hnnz', hnnz]
  · rw [hval, hnnz', hnnz]
  · rw [hB.stored_iff hi (by omega)]
    exact ⟨fun hs => (hstored hi hi' hs.1).1 hs, fun hs => (hstored hi hi' (hin hi hi' hs)).2 hs⟩
  · have hc' := hin hi hi' hc
    rw [hB.entry_eq hi (by omega) ((hstored hi hi' hc').2 hc),
      hC.entry_eq hc'.1 hc'.2 ((h.storedBefore_last hi hi' c).2 hc)]

/-- The second matrix is the first one **with its rows sorted**. -/
structure SortedRows (A B : SparseMatrix R) : Prop where
  nrows_eq : B.nrows = A.nrows
  ncols_eq : B.ncols = A.ncols
  nnz_eq : B.nnz = A.nnz
  rowPtr_eq : B.rowPtr.toList = A.rowPtr.take (A.nrows + 1).toNat
  perm : ∀ i, 1 ≤ i → i ≤ A.nrows → (B.rowPairs i).Perm (A.rowPairs i)
  sorted : ∀ i, 1 ≤ i → i ≤ A.nrows → (B.rowPairs i).Pairwise (·.1 < ·.1)

/-- The second matrix is the first one, **array by array**. Of longer arrays than the format needs,
only the elements that it uses come back. -/
structure SameArrays (A B : SparseMatrix R) : Prop where
  nrows_eq : B.nrows = A.nrows
  ncols_eq : B.ncols = A.ncols
  nnz_eq : B.nnz = A.nnz
  rowPtr_eq : B.rowPtr.toList = A.rowPtr.take (A.nrows + 1).toNat
  colIndices_eq : B.colIndices.toList = A.colIndices.take A.nnz.toNat
  values_eq : B.values.toList = A.values.take A.nnz.toNat

namespace ListsEntries

variable (h : A.ListsEntries B)
include h

theorem perm (hA : A.Compressed) (hi : 1 ≤ i) (hi' : i ≤ A.nrows) :
    (B.rowPairs i).Perm (A.rowPairs i) :=
  perm_rowPairs hA h.valid.compressed h.nrows_eq hi hi' (fun c => h.stored_iff i c hi hi')
    fun c => h.entry_eq i c hi hi'

theorem rowPtr_elem (hA : A.Compressed) (hi : 1 ≤ i) (hi' : i ≤ A.nrows + 1) :
    B.rowPtr.elem i = A.rowPtr.elem i :=
  rowPtr_eq hA h.valid.compressed h.nrows_eq (fun _ hi hi' => (h.perm hA hi hi').length_eq) hi hi'

theorem sortedRows (hA : A.Compressed) : A.SortedRows B where
  nrows_eq := h.nrows_eq
  ncols_eq := h.ncols_eq
  nnz_eq := h.nnz_eq
  rowPtr_eq := by
    rw [Array1.toList, h.rowPtr_size]
    exact Array1.take_congr fun i hi hi' => h.rowPtr_elem hA hi (by omega)
  perm i hi hi' := h.perm hA hi hi'
  sorted i hi hi' := h.valid.pairwise_rowPairs hi (hi'.trans_eq h.nrows_eq.symm)

/-- Two sorted rows with the same entries are equal. -/
theorem rowPairs_eq (hA : A.Valid) (hi : 1 ≤ i) (hi' : i ≤ A.nrows) :
    B.rowPairs i = A.rowPairs i :=
  (h.perm hA.compressed hi hi').eq_of_pairwise (fun _ _ _ _ hlt hgt => absurd hlt hgt.not_gt)
    ((h.sortedRows hA.compressed).sorted i hi hi') (hA.pairwise_rowPairs hi hi')

theorem elem_eq (hA : A.Valid) (hk : 1 ≤ k) (hk' : k ≤ A.nnz) :
    B.colIndices.elem k = A.colIndices.elem k ∧ B.values.elem k = A.values.elem k := by
  obtain ⟨i, hi, hi', hrow⟩ := exists_inRow hA.rowPtr_first hA.rowPtr_last hA.nrows_nonneg hk hk'
  have hstart := h.rowPtr_elem hA.compressed hi (by omega)
  have hend := h.rowPtr_elem (i := i + 1) hA.compressed (by omega) (by omega)
  have hrow' : B.InRow i k := by
    rw [InRow, hstart, hend]
    exact hrow
  have hpair := getElem?_rowPairs hrow'
  rw [hstart, h.rowPairs_eq hA hi hi', getElem?_rowPairs hrow] at hpair
  obtain ⟨hcol, hval⟩ := Prod.ext_iff.1 (Option.some.inj hpair)
  exact ⟨hcol.symm, hval.symm⟩

theorem sameArrays (hA : A.Valid) : A.SameArrays B where
  nrows_eq := h.nrows_eq
  ncols_eq := h.ncols_eq
  nnz_eq := h.nnz_eq
  rowPtr_eq := (h.sortedRows hA.compressed).rowPtr_eq
  colIndices_eq := by
    rw [Array1.toList, h.colIndices_size]
    exact Array1.take_congr fun k hk hk' => (h.elem_eq hA hk (by omega)).1
  values_eq := by
    rw [Array1.toList, h.values_size]
    exact Array1.take_congr fun k hk hk' => (h.elem_eq hA hk (by omega)).2

end ListsEntries

/-- **Transposing twice.** A matrix in the format comes back array by array. If its rows are not
sorted, but without repeated columns, it comes back with its rows sorted. -/
theorem transpose_twice (A : SparseMatrix R) (undef undef' : Undefined R) :
    (A.Valid → Returns (A.transpose undef >>= fun C => C.transpose undef') A.SameArrays) ∧
      (A.Compressed →
        Returns (A.transpose undef >>= fun C => C.transpose undef') A.SortedRows) :=
  ⟨fun h => (h.compressed.returns_twice undef undef').mono fun _ hB => hB.sameArrays h,
    fun h => (h.returns_twice undef undef').mono fun _ hB => hB.sortedRows h⟩

end Entries

/-! ### A row that is not sorted -/

/-- A row with the columns 2 and 1, where the value for column 2 is a zero that is stored. -/
def unsortedRow : SparseMatrix ℚ where
  nrows := 1
  ncols := 2
  nnz := 2
  values := ⟨2, fun k => if k = 1 then 0 else 1⟩
  colIndices := ⟨2, fun k => 3 - k⟩
  rowPtr := ⟨2, fun i => 2 * i - 1⟩

theorem compressed_unsortedRow : unsortedRow.Compressed where
  nrows_nonneg := by decide
  ncols_nonneg := by decide
  rowPtr_size := by decide
  rowPtr_first := by decide
  rowPtr_le i _ _ := show 2 * i - 1 ≤ 2 * (i + 1) - 1 by omega
  rowPtr_last := by decide
  col_mem k hk hk' := by
    have hk' : k ≤ 2 := hk'
    show 1 ≤ 3 - k ∧ 3 - k ≤ 2
    omega
  col_inj _ _ k k' _ _ heq := by
    have heq : 3 - k = 3 - k' := heq
    omega
  values_size := by decide
  colIndices_size := by decide

/-- Twice the identity comes back, and the row that is not sorted comes back sorted. -/
theorem transpose_twice_examples :
    Returns ((scalar 2 (2 : ℚ)).transpose ⟨fun _ => 0, fun _ => 0⟩ >>= fun C =>
      C.transpose ⟨fun _ => 0, fun _ => 0⟩) (scalar 2 (2 : ℚ)).SameArrays ∧
    Returns (unsortedRow.transpose ⟨fun _ => 0, fun _ => 0⟩ >>= fun C =>
      C.transpose ⟨fun _ => 0, fun _ => 0⟩) unsortedRow.SortedRows :=
  ⟨(transpose_twice (scalar 2 2) _ _).1 (valid_scalar 2 2),
    (transpose_twice unsortedRow _ _).2 compressed_unsortedRow⟩

end SparseMatrix

end DistributedComputing
