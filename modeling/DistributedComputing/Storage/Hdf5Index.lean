import Mathlib.Data.Int.Bitwise
import DistributedComputing.Foundations.KeyedTable

/-!
# The HDF5 index

`hdf5_index` keeps one row per HDF5 file in an SQLite database. The model has the two tables as
lists of rows, the statements of the module as functions on them, and a query as the conditions that
`hdf5_index_query` appends to its `SELECT`.

Points of the representation:

* a column of type `INTEGER` is an integer. `sqlite3_bind_int64` and `sqlite3_bind_int` store the
  signed reading of their argument, and the two `sqlite3_column` functions read the low bits back;
  the literal of a condition is the number whose digits `snprintf` wrote. Both are compared as
  numbers;
* SQLite may visit the rows in any order, which may depend on the query: that is `Planner`;
* what the HDF5 library, `stat` and SQLite answer are arguments of a call. A path that is opened has
  less than 4096 bytes, the limit of `open`, so that it is stored whole;
* strings are their bytes before the terminating zero. The extents of a dataset are left out, which
  are read and never stored; so are null arguments other than the query.
-/

namespace DistributedComputing

/-- The error codes that are returned: 2, 4 and 5. -/
inductive Hdf5Error
  | notFound
  | hdf5
  | db
  deriving DecidableEq, Repr

/-- `HDF5_MAX_PATH_LEN`. -/
def hdf5MaxPathLen : ℕ := 4096

/-- The bytes of a string constant. -/
def ascii (s : String) : List UInt8 := s.toList.map fun c => UInt8.ofNat c.toNat

/-! ### Entries -/

/-- `hdf5_dataset_type_t`. -/
inductive Hdf5DatasetType
  | unknown
  | input
  | output
  | state
  | checkpoint
  | metadata
  deriving DecidableEq, Repr

/-- The number of a type. -/
def Hdf5DatasetType.code : Hdf5DatasetType → ℤ
  | unknown => 0
  | input => 1
  | output => 2
  | state => 3
  | checkpoint => 4
  | metadata => 5

/-- `hdf5_dataset_info_t`. -/
structure Hdf5DatasetInfo where
  name : List UInt8
  type : Hdf5DatasetType
  rank : UInt64 := 0
  elementSize : UInt64 := 0
  dtypeName : List UInt8 := []
  deriving DecidableEq, Repr

/-- `hdf5_file_entry_t`. -/
structure Hdf5FileEntry where
  filepath : List UInt8
  taskId : UInt64
  modelId : UInt32
  created : Int64 := 0
  fileSize : UInt64 := 0
  datasets : List Hdf5DatasetInfo := []
  deriving DecidableEq, Repr

/-- `hdf5_query_t`. -/
structure Hdf5Query where
  taskId : UInt64 := 0
  modelId : UInt32 := 0
  createdAfter : Int64 := 0
  createdBefore : Int64 := 0
  datasetName : Option (List UInt8) := none
  deriving DecidableEq, Repr

/-! ### Scanning a file -/

/-- `H5T_class_t`, as far as it is told apart. -/
inductive H5TypeClass
  | integer
  | float
  | string
  | other
  deriving DecidableEq, Repr

/-- The `switch` over the class. -/
def H5TypeClass.dtypeName : H5TypeClass → List UInt8
  | integer => ascii "integer"
  | float => ascii "float"
  | string => ascii "string"
  | other => ascii "unknown"

/-- What the library says about an open dataset: the number of dimensions if it has a dataspace, and
the size and class of its type if it has one. -/
structure H5Dataset where
  ndims : Option Int32
  dtype : Option (UInt64 × H5TypeClass)

/-- What the library and `stat` say about an open file. -/
structure H5File where
  dataset : List UInt8 → Option H5Dataset
  stat : Option (UInt64 × Int64)

/-- `common_datasets` with `dataset_types`. -/
def commonDatasets : List (List UInt8 × Hdf5DatasetType) :=
  [(ascii "input", .input), (ascii "output", .output), (ascii "state", .state),
    (ascii "checkpoint", .checkpoint), (ascii "metadata", .metadata)]

/-- The entry of an open dataset. -/
def H5Dataset.info (d : H5Dataset) (name : List UInt8) (type : Hdf5DatasetType) :
    Hdf5DatasetInfo where
  name := name
  type := type
  rank := match d.ndims with
    | some n => n.toInt64.toUInt64
    | none => 0
  elementSize := match d.dtype with
    | some (size, _) => size
    | none => 0
  dtypeName := match d.dtype with
    | some (_, cls) => cls.dtypeName
    | none => []

/-- `scan_hdf5_file`, after the file was opened. -/
def scanHdf5File (file : H5File) (entry : Hdf5FileEntry) : Hdf5FileEntry :=
  let entry := match file.stat with
    | some (size, mtime) => { entry with fileSize := size, created := mtime }
    | none => entry
  { entry with
    datasets := commonDatasets.filterMap fun (name, type) =>
      (file.dataset name).map fun d => d.info name type }

theorem scanHdf5File_filepath (file : H5File) (entry : Hdf5FileEntry) :
    (scanHdf5File file entry).filepath = entry.filepath := by
  rcases file with ⟨dataset, - | ⟨size, mtime⟩⟩ <;> rfl

/-! ### The tables -/

/-- The columns of `files` that are bound by the insert. -/
structure FileColumns where
  filepath : List UInt8
  taskId : ℤ
  modelId : ℤ
  created : ℤ
  fileSize : ℤ
  deriving DecidableEq, Repr

/-- A row of `files`. -/
structure FileRow extends FileColumns where
  id : ℕ
  deriving DecidableEq, Repr

/-- A row of `datasets`. -/
structure DatasetRow where
  fileId : ℕ
  name : List UInt8
  type : ℤ
  rank : ℤ
  elementSize : ℤ
  dtypeName : List UInt8
  deriving DecidableEq, Repr

/-- The database, with the last id that was given out. -/
structure IndexDb where
  files : List FileRow := []
  datasets : List DatasetRow := []
  lastId : ℕ := 0
  deriving DecidableEq, Repr

namespace IndexDb

/-- `DELETE FROM files WHERE filepath = ?`. The rows of `datasets` go with their file. -/
def deleteFile (db : IndexDb) (filepath : List UInt8) : IndexDb where
  files := KeyedTable.discard (·.filepath) filepath db.files
  datasets := db.datasets.filter fun d =>
    ¬ ∃ row ∈ db.files, row.filepath = filepath ∧ row.id = d.fileId
  lastId := db.lastId

/-- `INSERT OR REPLACE INTO files`. The path is unique, so that a row with it is deleted first. -/
def insertOrReplace (db : IndexDb) (columns : FileColumns) : IndexDb :=
  let db := db.deleteFile columns.filepath
  { db with
    files := db.files ++ [{ columns with id := db.lastId + 1 }]
    lastId := db.lastId + 1 }

/-- `INSERT INTO datasets`, one statement for each dataset. One that fails is passed over. -/
def insertDatasets (db : IndexDb) (datasets : List Hdf5DatasetInfo) (inserted : ℕ → Bool) :
    IndexDb :=
  { db with
    datasets := db.datasets ++ (datasets.zipIdx.filter fun (_, i) => inserted i).map fun (d, _) =>
      { fileId := db.lastId
        name := d.name
        type := d.type.code
        rank := d.rank.toUInt32.toInt32.toInt
        elementSize := d.elementSize.toInt64.toInt
        dtypeName := d.dtypeName } }

@[simp] theorem files_insertDatasets (db : IndexDb) (datasets : List Hdf5DatasetInfo)
    (inserted : ℕ → Bool) : (db.insertDatasets datasets inserted).files = db.files := rfl

theorem files_insertOrReplace (db : IndexDb) (columns : FileColumns) :
    (db.insertOrReplace columns).files =
      KeyedTable.upsert (·.filepath) { columns with id := db.lastId + 1 } db.files := rfl

end IndexDb

/-- The values bound by the insert. -/
def Hdf5FileEntry.columns (e : Hdf5FileEntry) : FileColumns where
  filepath := e.filepath
  taskId := e.taskId.toInt64.toInt
  modelId := e.modelId.toInt32.toInt
  created := e.created.toInt
  fileSize := e.fileSize.toInt64.toInt

/-- The entry that `hdf5_index_query` reads from a row. -/
def FileColumns.entry (c : FileColumns) : Hdf5FileEntry where
  filepath := c.filepath.take (hdf5MaxPathLen - 1)
  taskId := (Int64.ofInt c.taskId).toUInt64
  modelId := (Int32.ofInt c.modelId).toUInt32
  created := .ofInt c.created
  fileSize := (Int64.ofInt c.fileSize).toUInt64

/-! ### Adding and removing -/

/-- Where a statement fails. -/
inductive SqliteFault
  | prepare
  | step
  deriving DecidableEq, Repr

/-- A call of `hdf5_index_add_file` with what it meets: the file if `H5Fopen` opens it, a fault of
the insert into `files`, and the inserts into `datasets` that succeed. -/
structure AddCall where
  filepath : List UInt8
  taskId : UInt64
  modelId : UInt32
  file : Option H5File
  fault : Option SqliteFault := none
  inserted : ℕ → Bool := fun _ => true
  opened_length : file.isSome → filepath.length < hdf5MaxPathLen

/-- A call of `hdf5_index_add_file` or `hdf5_index_remove_file`. -/
inductive IndexCall
  | add (call : AddCall)
  | remove (filepath : List UInt8) (fault : Option SqliteFault)

/-- The entry that is filled in for an open file. -/
def AddCall.entry (call : AddCall) (file : H5File) : Hdf5FileEntry :=
  scanHdf5File file
    { filepath := call.filepath.take (hdf5MaxPathLen - 1)
      taskId := call.taskId
      modelId := call.modelId }

namespace IndexDb

/-- `hdf5_index_add_file`. -/
def addFile (db : IndexDb) (call : AddCall) : IndexDb × Except Hdf5Error Unit :=
  match call.file with
  | none => (db, .error .hdf5)
  | some file =>
    match call.fault with
    | some _ => (db, .error .db)
    | none =>
      let entry := call.entry file
      ((db.insertOrReplace entry.columns).insertDatasets entry.datasets call.inserted, .ok ())

/-- `hdf5_index_remove_file`. -/
def removeFile (db : IndexDb) (filepath : List UInt8) (fault : Option SqliteFault) :
    IndexDb × Except Hdf5Error Unit :=
  match fault with
  | some _ => (db, .error .db)
  | none => (db.deleteFile filepath, .ok ())

/-- One call. -/
def call (db : IndexDb) : IndexCall → IndexDb × Except Hdf5Error Unit
  | .add c => db.addFile c
  | .remove filepath fault => db.removeFile filepath fault

end IndexDb

/-! ### Queries -/

/-- The columns in the conditions of a query. -/
inductive Column
  | taskId
  | modelId
  | created
  deriving DecidableEq, Repr

/-- The comparisons in the conditions of a query. -/
inductive Comparison
  | eq
  | ge
  | le
  deriving DecidableEq, Repr

/-- A condition: a column, a comparison and the number after it. -/
structure Condition where
  column : Column
  comparison : Comparison
  literal : ℤ
  deriving DecidableEq, Repr

/-- The value in a column. -/
def FileColumns.value (c : FileColumns) : Column → ℤ
  | .taskId => c.taskId
  | .modelId => c.modelId
  | .created => c.created

/-- The meaning of a comparison. -/
def Comparison.Holds (value literal : ℤ) : Comparison → Prop
  | eq => value = literal
  | ge => literal ≤ value
  | le => value ≤ literal

instance (value literal : ℤ) (c : Comparison) : Decidable (c.Holds value literal) := by
  cases c <;> unfold Comparison.Holds <;> infer_instance

/-- `SELECT … FROM files WHERE 1=1 AND … LIMIT …`. -/
structure Select where
  conditions : List Condition
  limit : ℕ
  deriving DecidableEq, Repr

/-- All conditions hold. -/
def Select.Matches (s : Select) (c : FileColumns) : Prop :=
  ∀ cond ∈ s.conditions, cond.comparison.Holds (c.value cond.column) cond.literal

instance (s : Select) (c : FileColumns) : Decidable (s.Matches c) :=
  inferInstanceAs (Decidable (∀ cond ∈ s.conditions, _))

/-- The conditions that are appended for a query. Nothing is appended for `dataset_name`. -/
def Hdf5Query.conditions (q : Hdf5Query) : List Condition :=
  (if 0 < q.taskId then [⟨.taskId, .eq, q.taskId.toNat⟩] else []) ++
  (if 0 < q.modelId then [⟨.modelId, .eq, q.modelId.toNat⟩] else []) ++
  (if 0 < q.createdAfter then [⟨.created, .ge, q.createdAfter.toInt⟩] else []) ++
  (if 0 < q.createdBefore then [⟨.created, .le, q.createdBefore.toInt⟩] else [])

/-- The statement that is built. -/
def buildSelect (query : Option Hdf5Query) (maxResults : UInt64) : Select where
  conditions := match query with
    | some q => q.conditions
    | none => []
  limit := maxResults.toNat

@[simp] theorem limit_buildSelect (query : Option Hdf5Query) (maxResults : UInt64) :
    (buildSelect query maxResults).limit = maxResults.toNat := rfl

/-- The order in which SQLite visits the rows for a statement. -/
structure Planner where
  visit : Select → List FileRow → List FileRow
  visit_perm : ∀ s rows, (visit s rows).Perm rows

/-- The rows in the order of their ids. -/
def Planner.inOrder : Planner where
  visit _ rows := rows
  visit_perm _ _ := .refl _

namespace IndexDb

/-- The rows that the statement returns. A limit that is no 64-bit integer makes the first
`sqlite3_step` fail. -/
def select (P : Planner) (db : IndexDb) (s : Select) : List FileRow :=
  if s.limit < 2 ^ 63 then
    ((P.visit s db.files).filter fun row => s.Matches row.toFileColumns).take s.limit
  else []

/-- `hdf5_index_query`. -/
def query (P : Planner) (db : IndexDb) (prepared : Bool) (query : Option Hdf5Query)
    (maxResults : UInt64) : Except Hdf5Error (List Hdf5FileEntry) :=
  if prepared then
    .ok (((db.select P (buildSelect query maxResults)).take maxResults.toNat).map
      fun row => row.toFileColumns.entry)
  else .error .db

/-- `hdf5_index_get_by_task`. -/
def getByTask (P : Planner) (db : IndexDb) (prepared : Bool) (taskId : UInt64) :
    Except Hdf5Error Hdf5FileEntry :=
  match db.query P prepared (some { taskId := taskId }) 1 with
  | .error e => .error e
  | .ok [] => .error .notFound
  | .ok (entry :: _) => .ok entry

end IndexDb

end DistributedComputing
