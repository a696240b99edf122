import DistributedComputing.Fortran.SparseBuild

/-!
# Transposition of sparse matrices

`sparse_transpose` is a counting sort of the elements by their column: it counts the elements of
each column, lays out one part of the new arrays for each, and then goes through the elements again,
putting each at the end of what is already filled of the part of its column.

The invariant of that last loop (`Scattered`) speaks about every part at once. Before the element
`k`, the part of column `c` lists, in increasing order, the rows in which an element before `k` has
the column `c`. One step touches one part only (`Compressed.place_not_in_part`), and what it appends
there is greater than what is there, since the elements come row by row. In the end the parts are
the rows of the transposed matrix.

None of this needs rows that are sorted, only rows without repeated columns (`Compressed`).
-/

namespace DistributedComputing

open ArrayLoops Finset

namespace SparseMatrix

variable {R : Type} {A : SparseMatrix R} {i j k c : ℤ}

/-! ### Where the columns go -/

/-- How many of the elements before `k` have the column `c`. -/
noncomputable def colTally (A : SparseMatrix R) (c k : ℤ) : ℤ := tally (A.colIndices.elem · = c) k

theorem colTally_one (A : SparseMatrix R) (c : ℤ) : A.colTally c 1 = 0 := rfl

theorem colTally_add_one (hk : 1 ≤ k) (c : ℤ) :
    A.colTally c (k + 1) = A.colTally c k + if A.colIndices.elem k = c then 1 else 0 :=
  tally_add_one _ hk

theorem colTally_nonneg (A : SparseMatrix R) (c k : ℤ) : 0 ≤ A.colTally c k := tally_nonneg _ k

theorem colTally_le (hk : k ≤ A.nnz + 1) (c : ℤ) : A.colTally c k ≤ A.colTally c (A.nnz + 1) :=
  tally_mono _ hk

/-- Where the part of column `c` starts. -/
noncomputable def colStart (A : SparseMatrix R) (c : ℤ) : ℤ := offset (A.colTally · (A.nnz + 1)) c

theorem colStart_add_one (hc : 1 ≤ c) :
    A.colStart (c + 1) = A.colStart c + A.colTally c (A.nnz + 1) :=
  offset_add_one hc

theorem colStart_mono {c' : ℤ} (h : c ≤ c') : A.colStart c ≤ A.colStart c' :=
  offset_mono (fun c => A.colTally_nonneg c _) h

/-- The parts fill the arrays. -/
theorem Compressed.colStart_last (h : A.Compressed) : A.colStart (A.ncols + 1) = A.nnz + 1 := by
  have hnnz := h.nnz_nonneg
  calc A.colStart (A.ncols + 1)
      = 1 + ∑ m ∈ Ico 1 (A.nnz + 1), ∑ c ∈ Ico 1 (A.ncols + 1),
          if A.colIndices.elem m = c then 1 else 0 := by
        simp only [colStart, offset, colTally, tally]
        rw [sum_comm]
    _ = 1 + ∑ m ∈ Ico 1 (A.nnz + 1), 1 := by
        congr 1
        refine sum_congr rfl fun m hm => ?_
        obtain ⟨hm, hm'⟩ := mem_Ico.1 hm
        have hcol := h.col_mem m hm (by omega)
        rw [sum_ite_eq, if_pos (mem_Ico.2 ⟨hcol.1, by omega⟩)]
    _ = A.nnz + 1 := by
        rw [sum_const, Int.card_Ico, nsmul_eq_mul, mul_one]
        omega

theorem Compressed.returns_countColumns (h : A.Compressed) (undef : Undefined R) :
    Returns (A.countColumns undef) fun counts =>
      counts.size = A.ncols.toNat ∧ ∀ c, counts.elem c = A.colTally c (A.nnz + 1) := by
  have hnnz := h.nnz_nonneg
  refine returns_doLoop (fun k (counts : Array1 ℤ) =>
    counts.size = A.ncols.toNat ∧ ∀ c, counts.elem c = A.colTally c k) (by omega)
    ⟨rfl, fun c => rfl⟩ ?_
  rintro k counts hk hk' ⟨hsize, hcount⟩
  have hcol := h.col_mem k hk hk'
  refine Array1.returns_get ⟨hk, hk'.trans h.colIndices_size⟩ ?_
  refine Array1.returns_get ⟨hcol.1, by omega⟩ ?_
  refine (Array1.returns_set ⟨hcol.1, by omega⟩).mono fun counts' hset => ?_
  refine ⟨hset.size_eq.trans hsize, fun c => ?_⟩
  rw [colTally_add_one hk]
  rcases eq_or_ne c (A.colIndices.elem k) with rfl | hne
  · rw [hset.at_index, hcount, if_pos rfl]
  · rw [hset.elsewhere c hne, hcount, if_neg hne.symm, add_zero]

theorem Compressed.returns_buildRowPtr (h : A.Compressed) (undef : Undefined R) {counts : Array1 ℤ}
    (hsize : counts.size = A.ncols.toNat)
    (hcount : ∀ c, counts.elem c = A.colTally c (A.nnz + 1)) :
    Returns (A.buildRowPtr undef counts) fun rowPtr => rowPtr.size = (A.ncols + 1).toNat ∧
      ∀ c, 1 ≤ c → c ≤ A.ncols + 1 → rowPtr.elem c = A.colStart c := by
  have hncols := h.ncols_nonneg
  have hrange := Array1.inRange_allocate (n := A.ncols + 1) undef.integer le_rfl (by omega)
  refine (Array1.returns_set hrange).bind fun rowPtr hset => ?_
  refine returns_doLoop (fun i (rowPtr : Array1 ℤ) => rowPtr.size = (A.ncols + 1).toNat ∧
    ∀ c, 1 ≤ c → c ≤ i → rowPtr.elem c = A.colStart c) (by omega)
    ⟨hset.size_eq, fun c hc hc' => ?_⟩ ?_
  · rw [le_antisymm hc' hc]
    exact hset.at_index
  · rintro i rowPtr hi hi' ⟨hptr, hstart⟩
    refine Array1.returns_get ⟨hi, by omega⟩ (Array1.returns_get ⟨hi, by omega⟩ ?_)
    refine (Array1.returns_set ⟨by omega, by omega⟩).mono fun rowPtr' hset => ?_
    refine ⟨hset.size_eq.trans hptr, fun c hc hc' => ?_⟩
    rcases eq_or_ne c (i + 1) with rfl | hne
    · rw [hset.at_index, hstart i hi le_rfl, hcount, colStart_add_one hi]
    · rw [hset.elsewhere c hne]
      exact hstart c hc (by omega)

/-! ### Putting the elements to their places -/

/-- An element before `k` is in row `r` and column `c`. -/
def StoredBefore (A : SparseMatrix R) (k c r : ℤ) : Prop :=
  (1 ≤ r ∧ r ≤ A.nrows) ∧ ∃ m, A.InRow r m ∧ m < k ∧ A.colIndices.elem m = c

section Step

variable (h : A.Compressed) (hi : 1 ≤ i) (hi' : i ≤ A.nrows) (hk : A.InRow i k)
include h hi hi' hk

/-- The place of an element is in the part of its column. -/
theorem Compressed.place_lt :
    A.colStart (A.colIndices.elem k) + A.colTally (A.colIndices.elem k) k <
      A.colStart (A.colIndices.elem k + 1) := by
  have hone := h.one_le_of_inRow hi hi' hk
  have hle := h.le_nnz_of_inRow hi hi' hk
  have hlt := colTally_le (A := A) (k := k + 1) (by omega) (A.colIndices.elem k)
  rw [colTally_add_one hone, if_pos rfl] at hlt
  rw [colStart_add_one (h.col_mem_of_inRow hi hi' hk).1]
  omega

theorem Compressed.place_mem :
    1 ≤ A.colStart (A.colIndices.elem k) + A.colTally (A.colIndices.elem k) k ∧
      A.colStart (A.colIndices.elem k) + A.colTally (A.colIndices.elem k) k ≤ A.nnz := by
  obtain ⟨hc, hc'⟩ := h.col_mem_of_inRow hi hi' hk
  have hlt := h.place_lt hi hi' hk
  have hlast : A.colStart (A.colIndices.elem k + 1) ≤ A.colStart (A.ncols + 1) :=
    colStart_mono (by omega)
  have hfirst : A.colStart 1 ≤ A.colStart (A.colIndices.elem k) := colStart_mono hc
  have hnonneg := A.colTally_nonneg (A.colIndices.elem k) k
  rw [h.colStart_last] at hlast
  rw [colStart, offset_one] at hfirst
  omega

theorem Compressed.place_not_in_part {p : ℤ} (hc : 1 ≤ c) (hne : A.colIndices.elem k ≠ c)
    (hp : A.colStart c ≤ p) (hp' : p < A.colStart c + A.colTally c k) :
    p ≠ A.colStart (A.colIndices.elem k) + A.colTally (A.colIndices.elem k) k := by
  have hle := h.le_nnz_of_inRow hi hi' hk
  have hlt := h.place_lt hi hi' hk
  have hnonneg := A.colTally_nonneg (A.colIndices.elem k) k
  rcases lt_or_gt_of_ne hne with hless | hgreater
  · have hmono : A.colStart (A.colIndices.elem k + 1) ≤ A.colStart c := colStart_mono hless
    omega
  · have hmono : A.colStart (c + 1) ≤ A.colStart (A.colIndices.elem k) := colStart_mono hgreater
    have htally := colTally_le (A := A) (k := k) (by omega) c
    rw [colStart_add_one hc] at hmono
    omega

theorem Compressed.lt_of_storedBefore {r : ℤ} (hr : A.StoredBefore k (A.colIndices.elem k) r) :
    r < i := by
  obtain ⟨⟨hr, hr'⟩, m, hm, hlt, hcol⟩ := hr
  rcases lt_trichotomy r i with hless | rfl | hgreater
  · exact hless
  · exact absurd (h.col_inj hi hi' hm hk hcol) hlt.ne
  · have hmono := h.rowPtr_mono (i := i + 1) (j := r) (by omega) hgreater (by omega)
    have hbefore := hm.1
    have hbehind := hk.2
    omega

theorem Compressed.storedBefore_add_one (c r : ℤ) :
    A.StoredBefore (k + 1) c r ↔ A.StoredBefore k c r ∨ r = i ∧ A.colIndices.elem k = c := by
  constructor
  · rintro ⟨⟨hr, hr'⟩, m, hm, hlt, hcol⟩
    rcases eq_or_ne m k with rfl | hne
    · exact .inr ⟨h.row_inj hr hr' hi hi' hm hk, hcol⟩
    · exact .inl ⟨⟨hr, hr'⟩, m, hm, by omega, hcol⟩
  · rintro (⟨hr, m, hm, hlt, hcol⟩ | ⟨rfl, hcol⟩)
    · exact ⟨hr, m, hm, by omega, hcol⟩
    · exact ⟨⟨hi, hi'⟩, k, hk, by omega, hcol⟩

end Step

theorem Compressed.storedBefore_last (h : A.Compressed) (hi : 1 ≤ i) (hi' : i ≤ A.nrows) (c : ℤ) :
    A.StoredBefore (A.nnz + 1) c i ↔ A.Stored i c := by
  constructor
  · rintro ⟨-, m, hm, -, hcol⟩
    exact ⟨m, hm, hcol⟩
  · rintro ⟨m, hm, hcol⟩
    have hle := h.le_nnz_of_inRow hi hi' hm
    exact ⟨⟨hi, hi'⟩, m, hm, by omega, hcol⟩

variable [Field R]

/-- **The parts of the columns**, before the element `k`. -/
structure Scattered (A : SparseMatrix R) (k : ℤ) (s : Scatter R) : Prop where
  values_size : s.values.size = A.nnz.toNat
  colIndices_size : s.colIndices.size = A.nnz.toNat
  colCounts_size : s.colCounts.size = A.ncols.toNat
  count_eq : ∀ c, s.colCounts.elem c = A.colTally c k
  columns : ∀ c, 1 ≤ c → Enumerates s.colIndices.elem (A.colStart c)
    (A.colStart c + A.colTally c k) (A.StoredBefore k c)
  value : ∀ c, 1 ≤ c → ∀ p, A.colStart c ≤ p → p < A.colStart c + A.colTally c k →
    s.values.elem p = A.entry (s.colIndices.elem p) c

/-- At the start, all parts are empty. -/
theorem Compressed.scattered_one (h : A.Compressed) {s : Scatter R}
    (hvalues : s.values.size = A.nnz.toNat) (hcols : s.colIndices.size = A.nnz.toNat)
    (hsize : s.colCounts.size = A.ncols.toNat) (hzero : ∀ c, s.colCounts.elem c = 0) :
    A.Scattered 1 s := by
  refine ⟨hvalues, hcols, hsize, hzero, fun c hc => ?_, fun c hc p hp hp' => ?_⟩
  · rw [colTally_one, add_zero]
    refine (Enumerates.empty _ _).congr (fun _ _ _ => rfl) fun r => iff_false_intro ?_
    rintro ⟨⟨hr, hr'⟩, m, hm, hlt, -⟩
    exact absurd (h.one_le_of_inRow hr hr' hm) (by omega)
  · rw [colTally_one] at hp'
    omega

/-- **One element** at its place: the part of its column grows by one, and the others stay as they
are. -/
theorem Scattered.place {s : Scatter R} (hs : A.Scattered k s) (h : A.Compressed) (hi : 1 ≤ i)
    (hi' : i ≤ A.nrows) (hk : A.InRow i k) {values : Array1 R} {colIndices colCounts : Array1 ℤ}
    (hval : s.values.Written (A.colStart (A.colIndices.elem k) + A.colTally (A.colIndices.elem k) k)
      (A.values.elem k) values)
    (hcol : s.colIndices.Written
      (A.colStart (A.colIndices.elem k) + A.colTally (A.colIndices.elem k) k) i colIndices)
    (hcnt : s.colCounts.Written (A.colIndices.elem k) (A.colTally (A.colIndices.elem k) k + 1)
      colCounts) :
    A.Scattered (k + 1) { values, colIndices, colCounts } := by
  have hone := h.one_le_of_inRow hi hi' hk
  have hsame : A.colTally (A.colIndices.elem k) (k + 1) =
      A.colTally (A.colIndices.elem k) k + 1 := by
    rw [colTally_add_one hone, if_pos rfl]
  have hother : ∀ c, A.colIndices.elem k ≠ c → A.colTally c (k + 1) = A.colTally c k := by
    intro c hne
    rw [colTally_add_one hone, if_neg hne, add_zero]
  refine ⟨hval.size_eq.trans hs.values_size, hcol.size_eq.trans hs.colIndices_size,
    hcnt.size_eq.trans hs.colCounts_size, fun c => ?_, fun c hc => ?_, fun c hc p hp hp' => ?_⟩
  · rcases eq_or_ne (A.colIndices.elem k) c with rfl | hne
    · rw [hcnt.at_index, hsame]
    · rw [hcnt.elsewhere c hne.symm, hs.count_eq, hother c hne]
  · rcases eq_or_ne (A.colIndices.elem k) c with rfl | hne
    · rw [hsame, ← add_assoc]
      refine (hs.columns _ hc).push (fun p _ hp => hcol.elsewhere p hp.ne) ?_ fun r => ?_
      · rw [hcol.at_index]
        exact fun r hr => h.lt_of_storedBefore hi hi' hk hr
      · rw [hcol.at_index, h.storedBefore_add_one hi hi' hk, and_iff_left rfl]
    · rw [hother c hne]
      refine (hs.columns c hc).congr (fun p hp hp' => ?_) fun r => ?_
      · exact hcol.elsewhere p (h.place_not_in_part hi hi' hk hc hne hp hp')
      · rw [h.storedBefore_add_one hi hi' hk, or_iff_left fun hnew => hne hnew.2]
  · rcases eq_or_ne (A.colIndices.elem k) c with rfl | hne
    · rw [hsame] at hp'
      rcases eq_or_ne p (A.colStart (A.colIndices.elem k) + A.colTally (A.colIndices.elem k) k)
        with rfl | hlt
      · rw [hval.at_index, hcol.at_index, h.entry_eq hi hi' hk]
      · rw [hval.elsewhere p hlt, hcol.elsewhere p hlt]
        exact hs.value _ hc p hp (by omega)
    · rw [hother c hne] at hp'
      have hplace := h.place_not_in_part hi hi' hk hc hne hp hp'
      rw [hval.elsewhere p hplace, hcol.elsewhere p hplace]
      exact hs.value c hc p hp hp'

theorem Scattered.returns_scatterElement {s : Scatter R} (hs : A.Scattered k s) (h : A.Compressed)
    (hi : 1 ≤ i) (hi' : i ≤ A.nrows) (hk : A.InRow i k) {rowPtr : Array1 ℤ}
    (hptr : rowPtr.size = (A.ncols + 1).toNat)
    (hstart : ∀ c, 1 ≤ c → c ≤ A.ncols + 1 → rowPtr.elem c = A.colStart c) :
    Returns (A.scatterElement rowPtr i k s) (A.Scattered (k + 1)) := by
  obtain ⟨hc, hc'⟩ := h.col_mem_of_inRow hi hi' hk
  obtain ⟨hp, hp'⟩ := h.place_mem hi hi' hk
  have hvalues := hs.values_size
  have hcols := hs.colIndices_size
  have hcounts := hs.colCounts_size
  refine Array1.returns_get (h.colIndices_inRange hi hi' hk) ?_
  refine Array1.returns_get ⟨hc, by omega⟩ (Array1.returns_get ⟨hc, by omega⟩ ?_)
  refine Array1.returns_get (h.values_inRange hi hi' hk) ?_
  rw [hstart _ hc (by omega), hs.count_eq]
  refine (Array1.returns_set ⟨hp, by omega⟩).bind fun values hval => ?_
  refine (Array1.returns_set ⟨hp, by omega⟩).bind fun colIndices hcol => ?_
  refine (Array1.returns_set ⟨hc, by omega⟩).bind fun colCounts hcnt => returns_some ?_
  exact hs.place h hi hi' hk hval hcol hcnt

theorem Scattered.holds {s : Scatter R} (hs : A.Scattered (A.nnz + 1) s) (h : A.Compressed)
    {rowPtr : Array1 ℤ} (hptr : rowPtr.size = (A.ncols + 1).toNat)
    (hstart : ∀ c, 1 ≤ c → c ≤ A.ncols + 1 → rowPtr.elem c = A.colStart c) :
    (⟨A.ncols, A.nrows, A.nnz, s.values, s.colIndices, rowPtr⟩ : SparseMatrix R).Holds
      (A.StoredBefore (A.nnz + 1)) fun c r => A.entry r c where
  nrows_nonneg := h.ncols_nonneg
  ncols_nonneg := h.nrows_nonneg
  rowPtr_size := by
    dsimp only
    omega
  rowPtr_first := hstart 1 le_rfl (by have := h.ncols_nonneg; omega)
  rowPtr_last := (hstart _ (by have := h.ncols_nonneg; omega) le_rfl).trans h.colStart_last
  values_size := by
    have hsize := hs.values_size
    dsimp only
    omega
  colIndices_size := by
    have hsize := hs.colIndices_size
    dsimp only
    omega
  columns c hc (hc' : c ≤ A.ncols) := by
    dsimp only
    rw [hstart c hc (by omega), hstart (c + 1) (by omega) (by omega), colStart_add_one hc]
    exact hs.columns c hc
  inside c r _ _ hr := hr.1
  value c p hc (hc' : c ≤ A.ncols) hp := by
    rw [InRow, hstart c hc (by omega), hstart (c + 1) (by omega) (by omega),
      colStart_add_one hc] at hp
    exact hs.value c hc p hp.1 hp.2

/-- **`sparse_transpose`** lists the elements by column. The rows of the result are sorted, whether
or not those of the matrix are. -/
theorem Compressed.returns_holds (h : A.Compressed) (undef : Undefined R) :
    Returns (A.transpose undef) fun C =>
      (C.nrows = A.ncols ∧ C.ncols = A.nrows ∧ C.nnz = A.nnz) ∧
        (C.rowPtr.size = (C.nrows + 1).toNat ∧ C.colIndices.size = C.nnz.toNat ∧
          C.values.size = C.nnz.toNat) ∧
        C.Holds (A.StoredBefore (A.nnz + 1)) fun c r => A.entry r c := by
  refine (h.returns_countColumns undef).bind fun counts ⟨hsize, hcount⟩ => ?_
  refine (h.returns_buildRowPtr undef hsize hcount).bind fun rowPtr ⟨hptr, hstart⟩ => ?_
  refine Returns.bind (h.returns_elements (fun k s => A.Scattered k s)
    (h.scattered_one rfl rfl hsize fun c => rfl) fun i k s hi hi' hk hs =>
      hs.returns_scatterElement h hi hi' hk hptr hstart) fun s hs => ?_
  exact returns_some ⟨⟨rfl, rfl, rfl⟩, ⟨hptr, hs.colIndices_size, hs.values_size⟩,
    hs.holds h hptr hstart⟩

/-- **`sparse_transpose`** exchanges rows and columns. -/
theorem Valid.returns_transpose (h : A.Valid) (undef : Undefined R) :
    Returns (A.transpose undef) fun C =>
      C.Valid ∧ C.nrows = A.ncols ∧ C.ncols = A.nrows ∧
        ∀ i j, 1 ≤ i → i ≤ A.nrows → 1 ≤ j → j ≤ A.ncols → C.entry j i = A.entry i j := by
  refine (h.compressed.returns_holds undef).mono ?_
  rintro C ⟨⟨hrows, hcols, -⟩, -, hholds⟩
  refine ⟨hholds.valid, hrows, hcols, fun i j hi hi' hj hj' => ?_⟩
  have hstored := h.compressed.storedBefore_last hi hi' j
  by_cases hP : A.StoredBefore (A.nnz + 1) j i
  · exact hholds.entry_eq hj (by omega) hP
  · rw [hholds.entry_eq_zero hj (by omega) hP, entry_eq_zero fun hs => hP (hstored.2 hs)]

end SparseMatrix

end DistributedComputing
