import DistributedComputing.Storage.Hdf5Index
import DistributedComputing.Storage.MetadataStore

/-!
# Datasets in HDF5 files

A model of `hdf5_write_dataset` and `hdf5_read_dataset`. What the HDF5 library is taken to do:
`H5Screate_simple` reads as many extents as it is given for the rank, and `H5Dwrite` and `H5Dread`
transfer all elements of the dataset, each of the size of its type. A call of the library may fail;
a write that fails has created the dataset, and leaves anything in it.

* The rank is converted to `int`, and the extents are copied to an array of eight. `readDims` is
  `none` where the library reads an extent that was not set.
* The type is chosen by the size of an element, and has that size if it is one, four or eight. For
  all others it has one byte, and most of the data is not written.
* `hdf5_read_dataset` reads the whole dataset, whatever the limit is; the limit only bounds the
  number that is reported.

`dataset_round_trip_iff` puts that together.

Names are compared byte by byte; `/a` and `a` are different names. Null arguments are left out.
-/

namespace DistributedComputing

open Bytes

/-- The error codes that are returned: 1 to 4. -/
inductive DatasetError
  | invalidArg
  | notFound
  | io
  | hdf5
  deriving DecidableEq, Repr

/-! ### Files -/

/-- The types of elements. -/
inductive NativeType
  | double
  | float
  | int64
  | int32
  | char
  deriving DecidableEq, Repr

/-- The size of an element. -/
def NativeType.size : NativeType → ℕ
  | double => 8
  | float => 4
  | int64 => 8
  | int32 => 4
  | char => 1

/-- The number of elements. -/
def points (dims : List UInt64) : ℕ := dims.foldr (fun d n => d.toNat * n) 1

/-- A dataset has a type, extents, and the bytes of all its elements. -/
structure StoredDataset where
  dtype : NativeType
  dims : List UInt64
  bytes : List UInt8
  length_bytes : bytes.length = points dims * dtype.size
  deriving DecidableEq, Repr

/-- A file: the groups apart from the root, and the datasets by name. -/
structure DataFile where
  groups : List (List UInt8) := []
  datasets : List UInt8 → Option StoredDataset := fun _ => none

/-- The HDF5 files, by path. -/
abbrev DataFiles := List UInt8 → Option DataFile

/-- What stands in front of the last slash, if anything does. -/
def parentGroup (name : List UInt8) : Option (List UInt8) :=
  let front := ((name.reverse.dropWhile (· ≠ slash)).drop 1).reverse
  if front = [] then none else some front

namespace DataFile

/-- The group in which something with the name would be is there. -/
def HasParent (file : DataFile) (name : List UInt8) : Prop :=
  ∀ g ∈ parentGroup name, g ∈ file.groups

instance (file : DataFile) (name : List UInt8) : Decidable (file.HasParent name) :=
  inferInstanceAs (Decidable (∀ g ∈ parentGroup name, g ∈ file.groups))

/-- There is a group or a dataset with the name. -/
def Taken (file : DataFile) (name : List UInt8) : Prop :=
  name ∈ file.groups ∨ (file.datasets name).isSome

instance (file : DataFile) (name : List UInt8) : Decidable (file.Taken name) :=
  inferInstanceAs (Decidable (_ ∨ _))

/-- `H5Gcreate2`, its result ignored. -/
def createGroup (file : DataFile) (fails : Bool) (name : List UInt8) : DataFile :=
  if fails ∨ file.Taken name ∨ ¬ file.HasParent name then file
  else { file with groups := name :: file.groups }

/-- A dataset is put under a name. -/
def setDataset (file : DataFile) (name : List UInt8) (d : StoredDataset) : DataFile :=
  { file with datasets := Function.update file.datasets name (some d) }

end DataFile

/-! ### Writing -/

/-- The library calls that fail. `H5Dwrite` that fails leaves bytes behind. -/
structure DatasetFaults where
  fopen : Bool := false
  strdup : Bool := false
  lexists : Bool := false
  gcreate : Bool := false
  screate : Bool := false
  dcreate : Bool := false
  dwrite : Option (ℕ → UInt8) := none

/-- The number of slots of `h5_dims`. -/
def maxDims : ℕ := 8

/-- The conversion of the rank to `int`. -/
def intRank (rank : ℕ) : ℤ := (Int32.ofNat rank).toInt

/-- The extents that `H5Screate_simple` reads, if all of them were set. -/
def readDims (dims : List UInt64) (rank : ℕ) : Option (List UInt64) :=
  if rank ≤ (dims.take maxDims).length then some ((dims.take maxDims).take rank) else none

/-- The type for a size of an element. -/
def nativeType (elementSize : UInt64) : NativeType :=
  if elementSize = 8 then .double
  else if elementSize = 4 then .float
  else if elementSize = 8 then .int64
  else if elementSize = 4 then .int32
  else .char

/-- `H5Dwrite` to a dataset that was just created. It is `none` where more is read than there
is. -/
def writeData (dwrite : Option (ℕ → UInt8)) (file : DataFile) (name : List UInt8)
    (dtype : NativeType) (dims : List UInt64) (data : List UInt8) :
    Option (DataFile × Except DatasetError Unit) :=
  match dwrite with
  | some left =>
    some (file.setDataset name ⟨dtype, dims, (List.range (points dims * dtype.size)).map left,
      by rw [List.length_map, List.length_range]⟩, .error .hdf5)
  | none =>
    if h : points dims * dtype.size ≤ data.length then
      some (file.setDataset name ⟨dtype, dims, data.take (points dims * dtype.size),
        by rw [List.length_take, Nat.min_eq_left h]⟩, .ok ())
    else none

/-- The group in front of the last slash is created, if it is not there. -/
def DataFile.ensureParent (file : DataFile) (faults : DatasetFaults) (name : List UInt8) :
    DataFile :=
  match parentGroup name with
  | none => file
  | some g => file.createGroup (faults.lexists || faults.gcreate) g

/-- The space or the dataset is not created. -/
def DataFile.Refuses (file : DataFile) (faults : DatasetFaults) (name : List UInt8) : Prop :=
  faults.screate ∨ faults.dcreate ∨ file.Taken name ∨ ¬ file.HasParent name

instance (file : DataFile) (faults : DatasetFaults) (name : List UInt8) :
    Decidable (file.Refuses faults name) := inferInstanceAs (Decidable (_ ∨ _))

/-- `hdf5_write_dataset` in a file that is open: the parent group, the space, the dataset and its
data. -/
def DataFile.addDataset (file : DataFile) (faults : DatasetFaults) (name data : List UInt8)
    (dims : List UInt64) (elementSize : UInt64) : Option (DataFile × Except DatasetError Unit) :=
  let file := file.ensureParent faults name
  if intRank dims.length < 0 then some (file, .error .hdf5)
  else (readDims dims (intRank dims.length).toNat).bind fun extents =>
    if file.Refuses faults name then some (file, .error .hdf5)
    else writeData faults.dwrite file name (nativeType elementSize) extents data

/-- `hdf5_write_dataset`. -/
def hdf5WriteDataset (faults : DatasetFaults) (files : DataFiles) (filepath name data : List UInt8)
    (dims : List UInt64) (elementSize : UInt64) : Option (DataFiles × Except DatasetError Unit) :=
  if dims.length = 0 then some (files, .error .invalidArg)
  else
    match files filepath with
    | none => some (files, .error .hdf5)
    | some file =>
      if faults.fopen then some (files, .error .hdf5)
      else if faults.strdup then some (files, .error .invalidArg)
      else (file.addDataset faults name data dims elementSize).map fun r =>
        (Function.update files filepath (some r.1), r.2)

/-! ### Reading -/

/-- The library calls that fail. -/
structure ReadFaults where
  fopen : Bool := false
  dopen : Bool := false
  dread : Bool := false

/-- What a successful read reports, and what it stores in the caller's buffer. -/
structure DatasetRead where
  elementsRead : ℕ
  stored : ℕ
  bytes : List UInt8
  deriving DecidableEq, Repr

/-- `hdf5_read_dataset`. The limit is compared as a signed number. -/
def hdf5ReadDataset (faults : ReadFaults) (files : DataFiles) (filepath name : List UInt8)
    (maxElements : UInt64) : Except DatasetError DatasetRead :=
  match files filepath with
  | none => .error .hdf5
  | some file =>
    if faults.fopen then .error .hdf5
    else
      match file.datasets name with
      | none => .error .notFound
      | some d =>
        if faults.dopen then .error .notFound
        else if faults.dread then .error .hdf5
        else .ok
          { elementsRead :=
              if maxElements.toInt64.toInt < points d.dims then maxElements.toNat else points d.dims
            stored := points d.dims
            bytes := d.bytes }

/-- A buffer. Its size is of type `size_t`. -/
structure Buffer where
  bytes : List UInt8
  length_lt : bytes.length < 2 ^ 64
  deriving DecidableEq, Repr

/-! ### What is written -/

/-- The conversion takes the rank modulo `2 ^ 32`. -/
theorem intRank_eq (n : ℕ) :
    intRank n = if (n : ℤ) % 4294967296 < 2147483648 then (n : ℤ) % 4294967296
      else (n : ℤ) % 4294967296 - 4294967296 := by
  rw [intRank, Int32.toInt_ofNat', Int.bmod_def]
  rfl

theorem intRank_toNat_le (n : ℕ) : (intRank n).toNat ≤ n := by
  rw [intRank_eq]
  split <;> omega

theorem readDims_eq {dims : List UInt64} {rank : ℕ} (h : rank ≤ dims.length) :
    readDims dims rank = if rank ≤ maxDims then some (dims.take rank) else none := by
  rw [readDims, List.length_take]
  by_cases hle : rank ≤ maxDims
  · rw [if_pos (Nat.le_min.2 ⟨hle, h⟩), if_pos hle, List.take_take, Nat.min_eq_left hle]
  · rw [if_neg fun hmin => hle (Nat.le_min.1 hmin).1, if_neg hle]

variable {faults : DatasetFaults} {files : DataFiles} {filepath name : List UInt8}
  {file : DataFile} {data : List UInt8} {dims : List UInt64} {elementSize : UInt64}

/-- **How far a write gets** in a file that is open. -/
inductive DataFile.Adds (file : DataFile) (faults : DatasetFaults) (name data : List UInt8)
    (dims : List UInt64) (elementSize : UInt64) :
    Option (DataFile × Except DatasetError Unit) → Prop
  | negative (h : intRank dims.length < 0) :
      Adds file faults name data dims elementSize
        (some (file.ensureParent faults name, .error .hdf5))
  | unset (h : (maxDims : ℤ) < intRank dims.length) :
      Adds file faults name data dims elementSize none
  | refused (h0 : 0 ≤ intRank dims.length) (h8 : intRank dims.length ≤ maxDims)
      (h : (file.ensureParent faults name).Refuses faults name) :
      Adds file faults name data dims elementSize
        (some (file.ensureParent faults name, .error .hdf5))
  | created (h0 : 0 ≤ intRank dims.length) (h8 : intRank dims.length ≤ maxDims)
      (h : ¬ (file.ensureParent faults name).Refuses faults name) :
      Adds file faults name data dims elementSize
        (writeData faults.dwrite (file.ensureParent faults name) name (nativeType elementSize)
          (dims.take (intRank dims.length).toNat) data)

theorem adds_addDataset (file : DataFile) (faults : DatasetFaults) (name data : List UInt8)
    (dims : List UInt64) (elementSize : UInt64) :
    file.Adds faults name data dims elementSize
      (file.addDataset faults name data dims elementSize) := by
  rw [DataFile.addDataset, readDims_eq (intRank_toNat_le _)]
  by_cases hneg : intRank dims.length < 0
  · rw [if_pos hneg]
    exact .negative hneg
  rw [if_neg hneg]
  by_cases hset : (intRank dims.length).toNat ≤ maxDims
  · rw [if_pos hset, Option.bind_some]
    by_cases hrefuses : (file.ensureParent faults name).Refuses faults name
    · rw [if_pos hrefuses]
      exact .refused (by omega) (by omega) hrefuses
    · rw [if_neg hrefuses]
      exact .created (by omega) (by omega) hrefuses
  · rw [if_neg hset]
    exact .unset (by omega)

theorem hdf5WriteDataset_of_opens (hrank : dims ≠ []) (hfile : files filepath = some file)
    (hopen : faults.fopen = false) (hcopy : faults.strdup = false) :
    hdf5WriteDataset faults files filepath name data dims elementSize =
      (file.addDataset faults name data dims elementSize).map fun r =>
        (Function.update files filepath (some r.1), r.2) := by
  rw [hdf5WriteDataset, if_neg (mt List.length_eq_zero_iff.1 hrank), hfile, hopen, hcopy]
  rfl

/-- The call fails before it looks at the extents. -/
def Stops (faults : DatasetFaults) (files : DataFiles) (filepath : List UInt8) : Prop :=
  files filepath = none ∨ faults.fopen ∨ faults.strdup

theorem hdf5WriteDataset_of_stops (hrank : dims ≠ []) (h : Stops faults files filepath) :
    ∃ err, hdf5WriteDataset faults files filepath name data dims elementSize =
      some (files, .error err) := by
  rw [hdf5WriteDataset, if_neg (mt List.length_eq_zero_iff.1 hrank)]
  rcases hfile : files filepath with - | file
  · exact ⟨_, rfl⟩
  rcases h with hnone | hopen | hcopy
  · cases hfile.symm.trans hnone
  · exact ⟨_, if_pos hopen⟩
  · by_cases hopen : faults.fopen
    · exact ⟨_, if_pos hopen⟩
    · exact ⟨_, (if_neg hopen).trans (if_pos hcopy)⟩

/-! ### What is read -/

/-- The dataset that a read transfers. -/
def transferred (faults : ReadFaults) (files : DataFiles) (filepath name : List UInt8) :
    Option StoredDataset :=
  if faults.fopen ∨ faults.dopen ∨ faults.dread then none
  else (files filepath).bind fun file => file.datasets name

/-- **A read** that succeeds stores all of the dataset. -/
theorem hdf5ReadDataset_eq_ok_iff {rf : ReadFaults} {maxElements : UInt64} {r : DatasetRead} :
    hdf5ReadDataset rf files filepath name maxElements = .ok r ↔
      ∃ d, transferred rf files filepath name = some d ∧ r =
        { elementsRead :=
            if maxElements.toInt64.toInt < points d.dims then maxElements.toNat else points d.dims
          stored := points d.dims
          bytes := d.bytes } := by
  rw [hdf5ReadDataset, transferred]
  rcases files filepath with - | file
  · simp
  rcases hname : file.datasets name with - | d
  · rcases rf with ⟨- | -, dopen, dread⟩ <;> simp [hname]
  · rcases rf with ⟨- | -, - | -, - | -⟩ <;> simp [hname, eq_comm]

theorem transferred_setDataset (files : DataFiles) (filepath name : List UInt8) (file : DataFile)
    (d : StoredDataset) :
    transferred {} (Function.update files filepath (some (file.setDataset name d))) filepath name =
      some d := by
  have hnone : ¬ (({} : ReadFaults).fopen ∨ ({} : ReadFaults).dopen ∨ ({} : ReadFaults).dread) := by
    decide
  rw [transferred, if_neg hnone, Function.update_self, Option.bind_some]
  exact Function.update_self ..

/-! ### There and back -/

/-- A write ends without a read behind the extents or the data, and if it succeeds, a read with a
large enough limit returns the data. -/
def RoundTrips (faults : DatasetFaults) (files : DataFiles) (filepath name data : List UInt8)
    (dims : List UInt64) (elementSize : UInt64) : Prop :=
  ∃ files' result,
    hdf5WriteDataset faults files filepath name data dims elementSize = some (files', result) ∧
      (result = .ok () → ∀ maxElements : UInt64, points dims ≤ maxElements.toNat →
        ∃ r, hdf5ReadDataset {} files' filepath name maxElements = .ok r ∧ r.bytes = data)

/-- The extents that are read and the type that is chosen account for all the data. -/
def Accounts (dims : List UInt64) (elementSize : UInt64) : Prop :=
  points (dims.take (intRank dims.length).toNat) * (nativeType elementSize).size =
    points dims * elementSize.toNat

instance (dims : List UInt64) (elementSize : UInt64) : Decidable (Accounts dims elementSize) :=
  inferInstanceAs (Decidable (_ = _))

theorem roundTrips_of_error {err : DatasetError} {files' : DataFiles}
    (h : hdf5WriteDataset faults files filepath name data dims elementSize =
      some (files', .error err)) :
    RoundTrips faults files filepath name data dims elementSize :=
  ⟨files', _, h, fun hok => by cases hok⟩

/-- What was written is read back whole exactly if it was all. -/
theorem roundTrips_of_created {left : Option (ℕ → UInt8)} {extents : List UInt64}
    (hlen : points dims < 2 ^ 64)
    (h : hdf5WriteDataset faults files filepath name data dims elementSize =
      (writeData left file name (nativeType elementSize) extents data).map fun r =>
        (Function.update files filepath (some r.1), r.2)) :
    RoundTrips faults files filepath name data dims elementSize ↔
      left.isSome ∨ points extents * (nativeType elementSize).size = data.length := by
  rcases left with - | left
  · rw [writeData] at h
    split at h
    · next hle =>
      constructor
      · rintro ⟨files', result, hwrite, hback⟩
        obtain ⟨rfl, rfl⟩ := Prod.mk.inj (Option.some.inj (h.symm.trans hwrite))
        -- the limit of which we know that it is large enough
        obtain ⟨r, hread, hbytes⟩ := hback rfl (.ofNat (points dims))
          (UInt64.toNat_ofNat_of_lt' hlen).ge
        obtain ⟨d, hd, rfl⟩ := hdf5ReadDataset_eq_ok_iff.1 hread
        obtain rfl := Option.some.inj ((transferred_setDataset ..).symm.trans hd)
        have hall := congrArg List.length hbytes
        rw [List.length_take, Nat.min_eq_left hle] at hall
        exact .inr hall
      · rintro (hfail | hall)
        · cases hfail
        refine ⟨_, _, h, fun _ maxElements _ => ?_⟩
        refine ⟨_, hdf5ReadDataset_eq_ok_iff.2 ⟨_, transferred_setDataset .., rfl⟩, ?_⟩
        exact List.take_of_length_le hall.ge
    · next hlt =>
      refine iff_of_false (fun ⟨_, _, hwrite, _⟩ => ?_) ?_
      · cases h.symm.trans hwrite
      · rintro (hfail | hall)
        · cases hfail
        · exact hlt hall.le
  · exact iff_of_true (roundTrips_of_error h) (.inl rfl)

/-- The call fails behind the extents, whatever the data are. -/
def Fails (faults : DatasetFaults) (files : DataFiles) (filepath name : List UInt8) : Prop :=
  faults.dwrite.isSome ∨ ∀ file, files filepath = some file →
    (file.ensureParent faults name).Refuses faults name

/-- **Datasets.** A write reads no extent that was not set and no data that are not there, and a
read after a successful one returns the data, exactly if it stops early, or if the library reads at
most eight extents, and the call fails or these extents and the type account for all the data. A
read stores no more elements than its limit exactly if the dataset has no more. -/
theorem dataset_round_trip_iff (faults : DatasetFaults) (files : DataFiles)
    (filepath name : List UInt8) (data : Buffer) {dims : List UInt64} (hrank : dims ≠ [])
    {elementSize : UInt64} (hsize : 1 ≤ elementSize.toNat)
    (hdata : data.bytes.length = points dims * elementSize.toNat) :
    (RoundTrips faults files filepath name data.bytes dims elementSize ↔
      Stops faults files filepath ∨ intRank dims.length < 0 ∨
        (intRank dims.length ≤ maxDims ∧
          (Fails faults files filepath name ∨ Accounts dims elementSize))) ∧
    ∀ (rf : ReadFaults) (maxElements : UInt64),
      (∀ r, hdf5ReadDataset rf files filepath name maxElements = .ok r →
        r.stored ≤ maxElements.toNat) ↔
      ∀ d, transferred rf files filepath name = some d → points d.dims ≤ maxElements.toNat := by
  refine ⟨?_, fun rf maxElements => ?_⟩
  · by_cases hstops : Stops faults files filepath
    · obtain ⟨err, h⟩ := hdf5WriteDataset_of_stops hrank hstops
      exact iff_of_true (roundTrips_of_error h) (.inl hstops)
    rw [or_iff_right hstops]
    obtain ⟨hnone, hopen, hcopy⟩ : files filepath ≠ none ∧ faults.fopen = false ∧
        faults.strdup = false := by simpa [Stops, not_or] using hstops
    obtain ⟨file, hfile⟩ := Option.ne_none_iff_exists'.1 hnone
    have hwrite : hdf5WriteDataset faults files filepath name data.bytes dims elementSize = _ :=
      hdf5WriteDataset_of_opens hrank hfile hopen hcopy
    have hadds := adds_addDataset file faults name data.bytes dims elementSize
    generalize file.addDataset faults name data.bytes dims elementSize = r at hadds hwrite
    cases hadds with
    | negative h => exact iff_of_true (roundTrips_of_error hwrite) (.inl h)
    | unset h =>
      refine iff_of_false (fun ⟨_, _, hsome, _⟩ => ?_) ?_
      · cases hwrite.symm.trans hsome
      · rw [maxDims] at *
        omega
    | refused h0 h8 h =>
      have hfails : Fails faults files filepath name := .inr fun file' hfile' => by
        rwa [← Option.some.inj (hfile.symm.trans hfile')]
      exact iff_of_true (roundTrips_of_error hwrite) (.inr ⟨h8, .inl hfails⟩)
    | created h0 h8 h =>
      have hlen : points dims < 2 ^ 64 :=
        Nat.lt_of_le_of_lt (hdata ▸ Nat.le_mul_of_pos_right _ hsize) data.length_lt
      have hfails : Fails faults files filepath name ↔ faults.dwrite.isSome :=
        or_iff_left fun hall => h (hall file hfile)
      rw [roundTrips_of_created hlen hwrite, or_iff_right h0.not_gt, and_iff_right h8, hfails,
        Accounts, hdata]
  · constructor
    · exact fun h d hd => h _ (hdf5ReadDataset_eq_ok_iff.2 ⟨d, hd, rfl⟩)
    · intro h r hr
      obtain ⟨d, hd, rfl⟩ := hdf5ReadDataset_eq_ok_iff.1 hr
      exact h d hd

/-- A file with nothing in it, under every path. -/
def emptyFiles : DataFiles := fun _ => some {}

/-- Two elements of four bytes under the name `x`. -/
theorem dataset_round_trip_iff_float :
    RoundTrips {} emptyFiles [] (ascii "x") [1, 2, 3, 4, 5, 6, 7, 8] [2] 4 := by
  have hiff := dataset_round_trip_iff {} emptyFiles [] (ascii "x")
    ⟨[1, 2, 3, 4, 5, 6, 7, 8], by decide⟩ (show ([2] : List UInt64) ≠ [] by decide)
    (show 1 ≤ (4 : UInt64).toNat by decide) (by decide)
  exact hiff.1.2 (.inr (.inr ⟨by decide, .inr (by decide)⟩))

/-- An element of two bytes comes back as one byte; nine extents are one more than were set; and two
elements are stored where one was the limit. -/
theorem dataset_out_of_bounds :
    (∃ files, hdf5WriteDataset {} emptyFiles [] (ascii "x") [1, 2] [1] 2 = some (files, .ok ()) ∧
      hdf5ReadDataset {} files [] (ascii "x") 1 = .ok ⟨1, 1, [1]⟩) ∧
    hdf5WriteDataset {} emptyFiles [] (ascii "x") [1] [1, 1, 1, 1, 1, 1, 1, 1, 1] 1 = none ∧
    ∃ files, hdf5WriteDataset {} emptyFiles [] (ascii "x") [1, 2] [2] 1 = some (files, .ok ()) ∧
      hdf5ReadDataset {} files [] (ascii "x") 1 = .ok ⟨1, 2, [1, 2]⟩ :=
  ⟨⟨_, rfl, rfl⟩, rfl, _, rfl, rfl⟩

end DistributedComputing
