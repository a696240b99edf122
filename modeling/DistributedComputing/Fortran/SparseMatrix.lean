import DistributedComputing.Foundations.ArrayLoops
import DistributedComputing.Fortran.Constants

/-!
# Sparse matrices

A model of `sparse_matrix.f90`: matrices in compressed sparse row format, with `real(wp)` read as an
ordered field and `integer` as the integers. Every routine is a computation over checked arrays
(`ArrayLoops`), in which an index out of range is a failure; the routines that index no array, or
none that could be too short, are plain functions.

Points of the representation:

* `allocate` gives an array of the requested size, whose contents are arbitrary (`Undefined`). An
  array that is not allocated is one of size zero. The assignment of a whole allocatable array gives
  it the size of the right-hand side;
* a result with `intent(out)` on which a routine returns early is what its type starts with;
* the loops that leave at the first hit are `findFirst`. A function that returns from such a loop
  reads its result behind it;
* the bounds of a loop are evaluated once. So `sparse_matrix_mult` may count with the variable that
  held the bound of an outer loop;
* the optional `status` is always returned here. `sparse_nnz` and `sparse_destroy`, which read and
  reset fields, are left out.
-/

namespace DistributedComputing

open ArrayLoops

variable {R : Type} [Field R] [LinearOrder R]

/-- The values of `status` that are set. -/
inductive SparseStatus
  | success
  | errSize
  | errIndex
  deriving DecidableEq, Repr

/-- `sparse_matrix_t`. -/
structure SparseMatrix (R : Type) where
  nrows : ℤ := 0
  ncols : ℤ := 0
  nnz : ℤ := 0
  values : Array1 R
  colIndices : Array1 ℤ
  rowPtr : Array1 ℤ

/-- What arrays contain before anything is assigned to them. -/
structure Undefined (R : Type) where
  real : ℤ → R
  integer : ℤ → ℤ

namespace SparseMatrix

/-- A matrix as its type starts with it. -/
def unset (undef : Undefined R) : SparseMatrix R where
  values := .allocate 0 undef.real
  colIndices := .allocate 0 undef.integer
  rowPtr := .allocate 0 undef.integer

/-! ### Creating -/

/-- The arrays and counters of `sparse_create_from_dense` while it fills them. -/
structure Filling (R : Type) where
  values : Array1 R
  colIndices : Array1 ℤ
  rowPtr : Array1 ℤ
  idx : ℤ
  count : ℤ

/-- The number of elements above the tolerance. -/
def countNonZeros (dense : Array2 R) (tolerance : R) : Option ℤ :=
  doLoop 1 dense.cols (fun j nnz => doLoop 1 dense.rows (fun i nnz => do
    let x ← dense.get i j
    if tolerance < |x| then some (nnz + 1) else some nnz) nnz) 0

/-- One element is appended, if it is above the tolerance. -/
def fillElement (dense : Array2 R) (tolerance : R) (i j : ℤ) (s : Filling R) :
    Option (Filling R) := do
  let x ← dense.get i j
  if tolerance < |x| then
    let values ← s.values.set s.idx x
    let colIndices ← s.colIndices.set s.idx j
    some { s with values, colIndices, idx := s.idx + 1, count := s.count + 1 }
  else some s

/-- One row is appended. -/
def fillRow (dense : Array2 R) (tolerance : R) (i : ℤ) (s : Filling R) : Option (Filling R) := do
  let s ← doLoop 1 dense.cols (fillElement dense tolerance i) { s with count := 0 }
  let start ← s.rowPtr.get i
  let rowPtr ← s.rowPtr.set (i + 1) (start + s.count)
  some { s with rowPtr }

/-- `sparse_create_from_dense`. -/
def createFromDense (undef : Undefined R) (dense : Array2 R) (tol : Option R) :
    Option (SparseMatrix R) := do
  let tolerance := tol.getD tolDefault
  let nnz ← countNonZeros dense tolerance
  let rowPtr ← (Array1.allocate (dense.rows + 1) undef.integer).set 1 1
  let s ← doLoop 1 dense.rows (fillRow dense tolerance)
    ⟨.allocate nnz undef.real, .allocate nnz undef.integer, rowPtr, 1, 0⟩
  some ⟨dense.rows, dense.cols, nnz, s.values, s.colIndices, s.rowPtr⟩

/-- `sparse_create_empty`. -/
def createEmpty (undef : Undefined R) (nrows ncols nnzEstimate : ℤ) : SparseMatrix R where
  nrows := nrows
  ncols := ncols
  nnz := 0
  values := .allocate nnzEstimate undef.real
  colIndices := .allocate nnzEstimate undef.integer
  rowPtr := (Array1.allocate (nrows + 1) undef.integer).fill 1

/-- `sparse_copy`. The assignments give the new arrays the sizes of the old ones. -/
def copy (src : SparseMatrix R) : SparseMatrix R where
  nrows := src.nrows
  ncols := src.ncols
  nnz := src.nnz
  values := src.values
  colIndices := src.colIndices
  rowPtr := src.rowPtr

/-! ### Elements -/

variable (A B : SparseMatrix R)

/-- `start_idx` and `end_idx` of a row. -/
def rowBounds (i : ℤ) : Option (ℤ × ℤ) := do
  let first ← A.rowPtr.get i
  let behind ← A.rowPtr.get (i + 1)
  some (first, behind - 1)

/-- The check of the indices. -/
def IndexError (row col : ℤ) : Prop := row < 1 ∨ A.nrows < row ∨ col < 1 ∨ A.ncols < col

instance (row col : ℤ) : Decidable (A.IndexError row col) := inferInstanceAs (Decidable (_ ∨ _))

/-- The place of a column among those of a row. -/
def findColumn (bounds : ℤ × ℤ) (col : ℤ) : Option (Option ℤ) :=
  findFirst bounds.1 bounds.2 fun i => (A.colIndices.get i).map fun c => decide (c = col)

/-- `sparse_set_value`. -/
def setValue (row col : ℤ) (value : R) : Option (SparseMatrix R × SparseStatus) :=
  if A.IndexError row col then some (A, .errIndex)
  else do
    let bounds ← A.rowBounds row
    match ← A.findColumn bounds col with
    | some i =>
      let values ← A.values.set i value
      some ({ A with values }, .success)
    | none => some (A, .errIndex)

/-- `sparse_get_value`. -/
def getValue (row col : ℤ) : Option R :=
  if A.IndexError row col then some 0
  else do
    let bounds ← A.rowBounds row
    match ← A.findColumn bounds col with
    | some i => A.values.get i
    | none => some 0

/-! ### Operations -/

/-- `sparse_matvec`. -/
def matvec (x y : Array1 R) : Option (Array1 R) :=
  doLoop 1 A.nrows (fun i y => do
    let bounds ← A.rowBounds i
    let sumVal ← doLoop bounds.1 bounds.2 (fun j sumVal => do
      let v ← A.values.get j
      let c ← A.colIndices.get j
      let xc ← x.get c
      some (sumVal + v * xc)) 0
    y.set i sumVal) (y.fill 0)

/-- The arrays of `sparse_transpose` while it fills them. -/
structure Scatter (R : Type) where
  values : Array1 R
  colIndices : Array1 ℤ
  colCounts : Array1 ℤ

/-- The number of elements in each column. -/
def countColumns (undef : Undefined R) : Option (Array1 ℤ) :=
  doLoop 1 A.nnz (fun i counts => do
    let col ← A.colIndices.get i
    let n ← counts.get col
    counts.set col (n + 1)) ((Array1.allocate A.ncols undef.integer).fill 0)

/-- The row pointers that go with these numbers. -/
def buildRowPtr (undef : Undefined R) (counts : Array1 ℤ) : Option (Array1 ℤ) := do
  let rowPtr ← (Array1.allocate (A.ncols + 1) undef.integer).set 1 1
  doLoop 1 A.ncols (fun i rowPtr => do
    let p ← rowPtr.get i
    let n ← counts.get i
    rowPtr.set (i + 1) (p + n)) rowPtr

/-- One element is put to its place. -/
def scatterElement (rowPtr : Array1 ℤ) (row idx : ℤ) (s : Scatter R) : Option (Scatter R) := do
  let col ← A.colIndices.get idx
  let p ← rowPtr.get col
  let n ← s.colCounts.get col
  let v ← A.values.get idx
  let values ← s.values.set (p + n) v
  let colIndices ← s.colIndices.set (p + n) row
  let colCounts ← s.colCounts.set col (n + 1)
  some { values, colIndices, colCounts }

/-- `sparse_transpose`. -/
def transpose (undef : Undefined R) : Option (SparseMatrix R) := do
  let counts ← A.countColumns undef
  let rowPtr ← A.buildRowPtr undef counts
  let s ← doLoop 1 A.nrows (fun row s => do
    let bounds ← A.rowBounds row
    doLoop bounds.1 bounds.2 (A.scatterElement rowPtr row) s)
    ⟨.allocate A.nnz undef.real, .allocate A.nnz undef.integer, counts.fill 0⟩
  some ⟨A.ncols, A.nrows, A.nnz, s.values, s.colIndices, rowPtr⟩

/-- `sparse_to_dense`, into an array of the given extents. -/
def toDense (rows cols : ℤ) : Option (Array2 R) :=
  doLoop 1 A.nrows (fun i dense => do
    let bounds ← A.rowBounds i
    doLoop bounds.1 bounds.2 (fun j dense => do
      let c ← A.colIndices.get j
      let v ← A.values.get j
      dense.set i c v) dense) (.filled rows cols 0)

/-- `sparse_diagonal`. -/
def diagonal (diag : Array1 R) : Option (Array1 R) :=
  doLoop 1 (min A.nrows A.ncols) (fun i diag => do
    let bounds ← A.rowBounds i
    match ← A.findColumn bounds i with
    | some j =>
      let v ← A.values.get j
      diag.set i v
    | none => some diag) (diag.fill 0)

/-- `sparse_add_scaled`. -/
def addScaled (undef : Undefined R) (alpha beta : R) : Option (SparseMatrix R × SparseStatus) :=
  if A.nrows ≠ B.nrows ∨ A.ncols ≠ B.ncols then some (unset undef, .errSize)
  else do
    let C := A.copy
    let values ← doLoop 1 A.nrows (fun i values => do
      let bounds ← A.rowBounds i
      doLoop bounds.1 bounds.2 (fun j values => do
        let v ← values.get j
        let c ← A.colIndices.get j
        let b ← B.getValue i c
        values.set j (v + beta * b)) values)
      { A.values with elem := fun k => alpha * A.values.elem k }
    some ({ C with values }, .success)

/-- Row `i` of the product, in `row_dense`. -/
def multRow (rowDense : Array1 R) (i : ℤ) : Option (Array1 R) := do
  let bounds ← A.rowBounds i
  doLoop bounds.1 bounds.2 (fun k rowDense => do
    let j ← A.colIndices.get k
    let boundsB ← B.rowBounds j
    doLoop boundsB.1 boundsB.2 (fun m rowDense => do
      let c ← B.colIndices.get m
      let old ← rowDense.get c
      let a ← A.values.get k
      let b ← B.values.get m
      rowDense.set c (old + a * b)) rowDense) (rowDense.fill 0)

/-- `sparse_matrix_mult`. -/
def mult (undef : Undefined R) : Option (SparseMatrix R × SparseStatus) :=
  if A.ncols ≠ B.nrows then some (unset undef, .errSize)
  else do
    let dense ← doLoop 1 A.nrows (fun i dense => do
      let rowDense ← A.multRow B (.allocate B.ncols undef.real) i
      dense.setRow i rowDense) (.filled A.nrows B.ncols 0)
    let C ← createFromDense undef dense none
    some (C, .success)

end SparseMatrix

end DistributedComputing
