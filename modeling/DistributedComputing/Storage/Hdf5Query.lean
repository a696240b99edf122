import DistributedComputing.Storage.Hdf5Index

/-!
# What the HDF5 index finds

What the index is for: a set of files with distinct paths, in which adding a file replaces the one
with its path, and a query finds the files that satisfy all its filters. `tracked` is the database
together with that set, which changes as the results of the calls say, and `Represents` says that
the rows are the bound values of its entries. Every sequence of calls keeps it
(`represents_afterCalls`).

A query then returns the entries that meet the conditions in its SQL text, `Matches`. They are not
its filters, `Satisfies`: a task id of at least `2 ^ 63` and a model id of at least `2 ^ 31` are
stored as negative numbers and asked for as positive ones, bounds on the creation time before 1970
are taken for absent ones, and the name of a dataset is not looked at. `matches_iff` compares the
two, and `finds_iff` says when the index finds what was added. Looking up the task 0 asks for every
file.
-/

namespace DistributedComputing

/-! ### Numbers in the database -/

theorem toInt_eq_toNat_iff {w : ℕ} {x q : BitVec w} :
    x.toInt = (q.toNat : ℤ) ↔ x = q ∧ 2 * q.toNat < 2 ^ w := by
  have hx := x.isLt
  have hq := q.isLt
  rw [BitVec.toInt_eq_toNat_cond, ← BitVec.toNat_inj]
  split <;> omega

theorem toInt_toInt64_eq_iff {x q : UInt64} :
    x.toInt64.toInt = (q.toNat : ℤ) ↔ x = q ∧ q.toNat < 2 ^ 63 := by
  have hbits : x.toInt64.toInt = (q.toNat : ℤ) ↔ x.toBitVec = q.toBitVec ∧ 2 * q.toNat < 2 ^ 64 :=
    toInt_eq_toNat_iff
  rw [hbits, UInt64.toBitVec_inj]
  exact and_congr_right' (by omega)

theorem toInt_toInt32_eq_iff {x q : UInt32} :
    x.toInt32.toInt = (q.toNat : ℤ) ↔ x = q ∧ q.toNat < 2 ^ 31 := by
  have hbits : x.toInt32.toInt = (q.toNat : ℤ) ↔ x.toBitVec = q.toBitVec ∧ 2 * q.toNat < 2 ^ 32 :=
    toInt_eq_toNat_iff
  rw [hbits, UInt32.toBitVec_inj]
  exact and_congr_right' (by omega)

/-- The condition on a task id, which is only there for an id that is not zero. -/
theorem taskId_condition_iff {x q : UInt64} :
    (0 < q → x.toInt64.toInt = (q.toNat : ℤ)) ↔ q.toNat < 2 ^ 63 ∧ (q = 0 ∨ x = q) := by
  rcases eq_or_ne q 0 with rfl | hne
  · exact iff_of_true (fun h => absurd h (UInt64.lt_irrefl 0)) ⟨by decide, .inl rfl⟩
  · rw [or_iff_right hne, imp_iff_right (UInt64.pos_iff_ne_zero.2 hne), toInt_toInt64_eq_iff,
      and_comm]

theorem modelId_condition_iff {x q : UInt32} :
    (0 < q → x.toInt32.toInt = (q.toNat : ℤ)) ↔ q.toNat < 2 ^ 31 ∧ (q = 0 ∨ x = q) := by
  rcases eq_or_ne q 0 with rfl | hne
  · exact iff_of_true (fun h => absurd h (UInt32.lt_irrefl 0)) ⟨by decide, .inl rfl⟩
  · rw [or_iff_right hne, imp_iff_right (UInt32.pos_iff_ne_zero.2 hne), toInt_toInt32_eq_iff,
      and_comm]

theorem created_condition_iff {t : Int64} {p : Prop} : (0 < t → p) ↔ t ≤ 0 ∨ p := by
  rw [← Int64.not_lt, imp_iff_not_or]

/-- What a caller is told about a file: its path and the ids it was added with. -/
def Hdf5FileEntry.label (e : Hdf5FileEntry) : List UInt8 × UInt64 × UInt32 :=
  (e.filepath, e.taskId, e.modelId)

/-- **Ids come back** as they were bound, and so does a path that fits. -/
theorem label_entry_columns {e : Hdf5FileEntry} (hfits : e.filepath.length < hdf5MaxPathLen) :
    e.columns.entry.label = e.label := by
  have hpath : e.filepath.take (hdf5MaxPathLen - 1) = e.filepath :=
    List.take_of_length_le (Nat.le_sub_one_of_lt hfits)
  have htask : (Int64.ofInt e.taskId.toInt64.toInt).toUInt64 = e.taskId := by
    rw [Int64.ofInt_toInt]
    rfl
  have hmodel : (Int32.ofInt e.modelId.toInt32.toInt).toUInt32 = e.modelId := by
    rw [Int32.ofInt_toInt]
    rfl
  exact Prod.ext hpath (Prod.ext htask hmodel)

/-! ### Filters and conditions -/

namespace Hdf5Query

variable {q : Hdf5Query} {e : Hdf5FileEntry}

/-- **The filters** of a query, each of them absent if it is zero or null. -/
def Satisfies (q : Hdf5Query) (e : Hdf5FileEntry) : Prop :=
  (q.taskId = 0 ∨ e.taskId = q.taskId) ∧ (q.modelId = 0 ∨ e.modelId = q.modelId) ∧
    (q.createdAfter = 0 ∨ q.createdAfter ≤ e.created) ∧
    (q.createdBefore = 0 ∨ e.created ≤ q.createdBefore) ∧
    ∀ name ∈ q.datasetName, name ∈ e.datasets.map (·.name)

instance (q : Hdf5Query) (e : Hdf5FileEntry) : Decidable (q.Satisfies e) :=
  inferInstanceAs (Decidable (_ ∧ _ ∧ _ ∧ _ ∧ _))

/-- Ids that are stored as the numbers they are. -/
def IdsFit (q : Hdf5Query) : Prop := q.taskId.toNat < 2 ^ 63 ∧ q.modelId.toNat < 2 ^ 31

/-- The filters that get into the statement. -/
def MeetsAsked (q : Hdf5Query) (e : Hdf5FileEntry) : Prop :=
  (q.taskId = 0 ∨ e.taskId = q.taskId) ∧ (q.modelId = 0 ∨ e.modelId = q.modelId) ∧
    (q.createdAfter ≤ 0 ∨ q.createdAfter ≤ e.created) ∧
    (q.createdBefore ≤ 0 ∨ e.created ≤ q.createdBefore)

/-- The filters that do not. -/
def MeetsIgnored (q : Hdf5Query) (e : Hdf5FileEntry) : Prop :=
  (q.createdAfter < 0 → q.createdAfter ≤ e.created) ∧
    (q.createdBefore < 0 → e.created ≤ q.createdBefore) ∧
    ∀ name ∈ q.datasetName, name ∈ e.datasets.map (·.name)

theorem satisfies_iff : q.Satisfies e ↔ q.MeetsAsked e ∧ q.MeetsIgnored e := by
  have hzero : (0 : Int64).toInt = 0 := rfl
  simp only [Satisfies, MeetsAsked, MeetsIgnored, ← Int64.toInt_inj, Int64.le_iff_toInt_le,
    Int64.lt_iff_toInt_lt, hzero]
  constructor
  · rintro ⟨ht, hm, ha, hb, hd⟩
    exact ⟨⟨ht, hm, by omega, by omega⟩, by omega, by omega, hd⟩
  · rintro ⟨⟨ht, hm, ha, hb⟩, ha', hb', hd⟩
    exact ⟨ht, hm, by omega, by omega, hd⟩

/-- **What the statement selects**: the files that meet the filters in its text, if the ids in the
text are numbers that a column can hold. -/
theorem matches_iff (maxResults : UInt64) :
    (buildSelect (some q) maxResults).Matches e.columns ↔ q.IdsFit ∧ q.MeetsAsked e := by
  have hcond : ∀ {p : Prop} [Decidable p] {c : Condition} {P : Condition → Prop},
      (∀ c' ∈ if p then [c] else [], P c') ↔ (p → P c) := by
    intro p _ c P
    split
    · next hp => rw [List.forall_mem_singleton, imp_iff_right hp]
    · next hp => exact iff_of_true (List.forall_mem_nil _) fun h => absurd h hp
  show (∀ c ∈ q.conditions, c.comparison.Holds (e.columns.value c.column) c.literal) ↔ _
  simp only [conditions, List.forall_mem_append, hcond]
  show (((0 < q.taskId → e.taskId.toInt64.toInt = (q.taskId.toNat : ℤ)) ∧
    (0 < q.modelId → e.modelId.toInt32.toInt = (q.modelId.toNat : ℤ))) ∧
    (0 < q.createdAfter → q.createdAfter.toInt ≤ e.created.toInt)) ∧
    (0 < q.createdBefore → e.created.toInt ≤ q.createdBefore.toInt) ↔ _
  rw [taskId_condition_iff, modelId_condition_iff, created_condition_iff, created_condition_iff,
    ← Int64.le_iff_toInt_le, ← Int64.le_iff_toInt_le]
  constructor
  · rintro ⟨⟨⟨⟨htask, ht⟩, hmodel, hm⟩, ha⟩, hb⟩
    exact ⟨⟨htask, hmodel⟩, ht, hm, ha, hb⟩
  · rintro ⟨⟨htask, hmodel⟩, ht, hm, ha, hb⟩
    exact ⟨⟨⟨⟨htask, ht⟩, hmodel, hm⟩, ha⟩, hb⟩

/-- A query **handles** a file as its filters say: it is not lost through an id that no column can
hold, nor let through by a filter that is not asked for. -/
def Handles (q : Hdf5Query) (e : Hdf5FileEntry) : Prop :=
  (q.Satisfies e → q.IdsFit) ∧ (q.IdsFit → q.MeetsAsked e → q.MeetsIgnored e)

theorem handles_iff (maxResults : UInt64) :
    ((buildSelect (some q) maxResults).Matches e.columns ↔ q.Satisfies e) ↔ q.Handles e := by
  rw [matches_iff, Handles, satisfies_iff]
  constructor
  · intro h
    exact ⟨fun hs => (h.2 hs).1, fun hfit hasked => (h.1 ⟨hfit, hasked⟩).2⟩
  · rintro ⟨hfit, hignored⟩
    exact ⟨fun ⟨hf, hasked⟩ => ⟨hasked, hignored hf hasked⟩, fun hs => ⟨hfit hs, hs.1⟩⟩

end Hdf5Query

/-- The filters of a query that may be null. -/
def Satisfies (query : Option Hdf5Query) (e : Hdf5FileEntry) : Prop :=
  ∀ q ∈ query, q.Satisfies e

instance (query : Option Hdf5Query) (e : Hdf5FileEntry) : Decidable (Satisfies query e) :=
  inferInstanceAs (Decidable (∀ q ∈ query, q.Satisfies e))

theorem matches_iff_satisfies_iff (query : Option Hdf5Query) (maxResults : UInt64)
    (e : Hdf5FileEntry) :
    ((buildSelect query maxResults).Matches e.columns ↔ Satisfies query e) ↔
      ∀ q ∈ query, q.Handles e := by
  rcases query with - | q
  · exact iff_of_true (iff_of_true (List.forall_mem_nil _) nofun) nofun
  · have hsome : ∀ {P : Hdf5Query → Prop}, (∀ q' ∈ some q, P q') ↔ P q := by simp
    rw [Satisfies, hsome, hsome]
    exact Hdf5Query.handles_iff maxResults

/-! ### The indexed files -/

/-- The indexed files after a call that succeeded. -/
def IndexCall.indexed (index : List Hdf5FileEntry) : IndexCall → List Hdf5FileEntry
  | .add c =>
    match c.file with
    | some file =>
      KeyedTable.upsert (·.filepath) { c.entry file with filepath := c.filepath } index
    | none => index
  | .remove filepath _ => KeyedTable.discard (·.filepath) filepath index

/-- A call, with the indexed files that its result stands for. -/
def tracked (s : IndexDb × List Hdf5FileEntry) (c : IndexCall) : IndexDb × List Hdf5FileEntry :=
  match s.1.call c with
  | (db, .ok ()) => (db, c.indexed s.2)
  | (db, .error _) => (db, s.2)

/-- The database and the indexed files after a sequence of calls on a new index. -/
def afterCalls (calls : List IndexCall) : IndexDb × List Hdf5FileEntry :=
  calls.foldl tracked ({}, [])

/-- The rows are the indexed files, in the same order. -/
structure Represents (s : IndexDb × List Hdf5FileEntry) : Prop where
  columns : s.1.files.map (·.toFileColumns) = s.2.map (·.columns)
  distinct : (s.2.map (·.filepath)).Nodup
  fits : ∀ e ∈ s.2, e.filepath.length < hdf5MaxPathLen

/-- A path that could be opened is stored whole. -/
theorem AddCall.entry_filepath {c : AddCall} {file : H5File} (hfile : c.file = some file) :
    (c.entry file).filepath = c.filepath := by
  rw [entry, scanHdf5File_filepath]
  exact List.take_of_length_le (Nat.le_sub_one_of_lt (c.opened_length (hfile ▸ rfl)))

namespace Represents

variable {s : IndexDb × List Hdf5FileEntry}

theorem upsert (h : Represents s) {e : Hdf5FileEntry}
    (hfits : e.filepath.length < hdf5MaxPathLen) (inserted : ℕ → Bool) :
    Represents ((s.1.insertOrReplace e.columns).insertDatasets e.datasets inserted,
      KeyedTable.upsert (·.filepath) e s.2) where
  columns := calc
    ((s.1.insertOrReplace e.columns).insertDatasets e.datasets inserted).files.map
        (·.toFileColumns)
      = KeyedTable.upsert FileColumns.filepath e.columns (s.1.files.map (·.toFileColumns)) := by
        rw [IndexDb.files_insertDatasets, IndexDb.files_insertOrReplace]
        exact KeyedTable.map_upsert fun _ => rfl
    _ = KeyedTable.upsert FileColumns.filepath e.columns (s.2.map (·.columns)) := by rw [h.columns]
    _ = (KeyedTable.upsert (·.filepath) e s.2).map (·.columns) :=
        (KeyedTable.map_upsert fun _ => rfl).symm
  distinct := KeyedTable.nodup_upsert h.distinct
  fits e' he' := by
    rcases List.mem_append.1 he' with hold | hnew
    · exact h.fits e' (List.mem_of_mem_filter hold)
    · exact List.mem_singleton.1 hnew ▸ hfits

theorem discard (h : Represents s) (filepath : List UInt8) :
    Represents (s.1.deleteFile filepath, KeyedTable.discard (·.filepath) filepath s.2) where
  columns := calc
    (s.1.deleteFile filepath).files.map (·.toFileColumns)
      = KeyedTable.discard FileColumns.filepath filepath (s.1.files.map (·.toFileColumns)) :=
        KeyedTable.map_discard fun _ => rfl
    _ = KeyedTable.discard FileColumns.filepath filepath (s.2.map (·.columns)) := by rw [h.columns]
    _ = (KeyedTable.discard (·.filepath) filepath s.2).map (·.columns) :=
        (KeyedTable.map_discard fun _ => rfl).symm
  distinct := KeyedTable.nodup_discard h.distinct
  fits e he := h.fits e (List.mem_of_mem_filter he)

/-- **Every call** keeps the rows in step with the indexed files. -/
theorem tracked (h : Represents s) (c : IndexCall) : Represents (tracked s c) := by
  rcases c with c | ⟨filepath, - | fault⟩
  · rw [DistributedComputing.tracked, IndexDb.call, IndexDb.addFile, IndexCall.indexed]
    rcases hfile : c.file with - | file
    · exact h
    · rcases c.fault with - | fault
      · have hpath := c.entry_filepath hfile
        have hfits : (c.entry file).filepath.length < hdf5MaxPathLen :=
          hpath ▸ c.opened_length (hfile ▸ rfl)
        have hsame : { c.entry file with filepath := c.filepath } = c.entry file := by rw [← hpath]
        show Represents (_, KeyedTable.upsert _ { c.entry file with filepath := c.filepath } s.2)
        rw [hsame]
        exact h.upsert hfits c.inserted
      · exact h
  · exact h.discard filepath
  · exact h

end Represents

theorem represents_afterCalls (calls : List IndexCall) : Represents (afterCalls calls) :=
  calls.foldlRecOn tracked ⟨rfl, List.nodup_nil, nofun⟩ fun _ h c _ => h.tracked c

/-! ### Finding what was added -/

namespace IndexDb

variable {P : Planner} {db : IndexDb}

theorem query_of_room {query : Option Hdf5Query} {maxResults : UInt64}
    (hroom : db.files.length ≤ maxResults.toNat) (hlimit : maxResults.toNat < 2 ^ 63) :
    db.query P true query maxResults =
      .ok (((P.visit (buildSelect query maxResults) db.files).filter fun row =>
        (buildSelect query maxResults).Matches row.toFileColumns).map
          fun row => row.toFileColumns.entry) := by
  have hall : ((P.visit (buildSelect query maxResults) db.files).filter fun row =>
      (buildSelect query maxResults).Matches row.toFileColumns).length ≤ maxResults.toNat :=
    calc _ ≤ (P.visit (buildSelect query maxResults) db.files).length := List.length_filter_le _ _
      _ = db.files.length := (P.visit_perm _ _).length_eq
      _ ≤ maxResults.toNat := hroom
  rw [IndexDb.query, if_pos rfl, select, limit_buildSelect, if_pos hlimit,
    List.take_of_length_le hall, List.take_of_length_le hall]

theorem getByTask_eq (taskId : UInt64) :
    db.getByTask P true taskId =
      match (P.visit (buildSelect (some { taskId := taskId }) 1) db.files).find?
        fun row => (buildSelect (some { taskId := taskId }) 1).Matches row.toFileColumns with
      | some row => .ok row.toFileColumns.entry
      | none => .error .notFound := by
  have hlimit : (1 : UInt64).toNat < 2 ^ 63 := by decide
  rw [getByTask, IndexDb.query, if_pos rfl, select, limit_buildSelect, if_pos hlimit,
    ← List.head?_filter]
  rcases List.filter _ _ with - | ⟨row, rows⟩ <;> rfl

end IndexDb

/-- **The statement for a task** asks for nothing but the task, and for nothing at all if that
is 0. -/
theorem matches_taskId_iff {taskId : UInt64} {e : Hdf5FileEntry} :
    (buildSelect (some { taskId := taskId }) 1).Matches e.columns ↔
      taskId.toNat < 2 ^ 63 ∧ (taskId = 0 ∨ e.taskId = taskId) := by
  rw [Hdf5Query.matches_iff, Hdf5Query.IdsFit, Hdf5Query.MeetsAsked]
  simp

/-- `hdf5_index_query` returns the indexed files that satisfy the query, in some order. -/
def Finds (P : Planner) (s : IndexDb × List Hdf5FileEntry) (query : Option Hdf5Query)
    (maxResults : UInt64) : Prop :=
  ∃ results, s.1.query P true query maxResults = .ok results ∧
    (results.map (·.label)).Perm ((s.2.filter fun e => Satisfies query e).map (·.label))

/-- `hdf5_index_get_by_task` returns an indexed file with the task id if there is one, and
`HDF5_ERR_NOT_FOUND` otherwise. -/
def GetsTask (P : Planner) (s : IndexDb × List Hdf5FileEntry) (taskId : UInt64) : Prop :=
  match s.1.getByTask P true taskId with
  | .ok r => r.taskId = taskId ∧ r.label ∈ s.2.map (·.label)
  | .error err => err = .notFound ∧ ∀ e ∈ s.2, e.taskId ≠ taskId

/-- The row that is visited first when a task is looked up. -/
def firstVisited (P : Planner) (db : IndexDb) (taskId : UInt64) : Option FileRow :=
  (P.visit (buildSelect (some { taskId := taskId }) 1) db.files).head?

namespace Represents

variable {s : IndexDb × List Hdf5FileEntry} {P : Planner}

/-- A row is the row of an indexed file. -/
theorem exists_columns (h : Represents s) {row : FileRow} (hrow : row ∈ s.1.files) :
    ∃ e ∈ s.2, row.toFileColumns = e.columns := by
  have hmem : row.toFileColumns ∈ s.2.map (·.columns) := h.columns ▸ List.mem_map_of_mem hrow
  obtain ⟨e, he, heq⟩ := List.mem_map.1 hmem
  exact ⟨e, he, heq.symm⟩

/-- So is a row that is visited. -/
theorem exists_columns_of_visit (h : Represents s) {q : Select} {row : FileRow}
    (hrow : row ∈ P.visit q s.1.files) : ∃ e ∈ s.2, row.toFileColumns = e.columns :=
  h.exists_columns ((P.visit_perm _ _).mem_iff.1 hrow)

/-- **Looking up the task 0** ends at the first row that is visited. -/
theorem find_eq_firstVisited (h : Represents s) :
    ((P.visit (buildSelect (some { taskId := 0 }) 1) s.1.files).find? fun row =>
      (buildSelect (some { taskId := 0 }) 1).Matches row.toFileColumns) =
        firstVisited P s.1 0 := by
  have hall : ∀ row ∈ P.visit (buildSelect (some { taskId := 0 }) 1) s.1.files,
      decide ((buildSelect (some { taskId := 0 }) 1).Matches row.toFileColumns) = true := by
    intro row hrow
    obtain ⟨e, -, hcols⟩ := h.exists_columns_of_visit hrow
    rw [hcols, decide_eq_true_iff, matches_taskId_iff]
    exact ⟨by decide, .inl rfl⟩
  rw [firstVisited, ← List.head?_filter, List.filter_eq_self.2 hall]

theorem exists_row (h : Represents s) {e : Hdf5FileEntry} (he : e ∈ s.2) :
    ∃ row ∈ s.1.files, row.toFileColumns = e.columns :=
  List.mem_map.1 (h.columns ▸ List.mem_map_of_mem (f := (·.columns)) he)

/-- **A query with room for all results** returns the files that match its statement. -/
theorem query_perm (h : Represents s) (query : Option Hdf5Query) {maxResults : UInt64}
    (hroom : s.2.length ≤ maxResults.toNat) (hlimit : maxResults.toNat < 2 ^ 63) :
    ∃ results, s.1.query P true query maxResults = .ok results ∧
      (results.map (·.label)).Perm
        ((s.2.filter fun e => (buildSelect query maxResults).Matches e.columns).map (·.label)) := by
  have hlength : s.1.files.length = s.2.length := by
    simpa using congrArg List.length h.columns
  refine ⟨_, IndexDb.query_of_room (hlength ▸ hroom) hlimit, ?_⟩
  rw [List.map_map]
  -- The order of the visit does not matter, and the rows are those of the indexed files.
  refine (((P.visit_perm (buildSelect query maxResults) _).filter _).map _).trans (.of_eq ?_)
  calc (s.1.files.filter fun row => (buildSelect query maxResults).Matches row.toFileColumns).map
        (fun row => row.toFileColumns.entry.label)
      = ((s.1.files.map (·.toFileColumns)).filter fun c =>
          (buildSelect query maxResults).Matches c).map (fun c => c.entry.label) := by
        rw [List.filter_map, List.map_map]
        rfl
    _ = ((s.2.map (·.columns)).filter fun c =>
          (buildSelect query maxResults).Matches c).map (fun c => c.entry.label) := by
        rw [h.columns]
    _ = (s.2.filter fun e => (buildSelect query maxResults).Matches e.columns).map
          (fun e => e.columns.entry.label) := by
        rw [List.filter_map, List.map_map]
        rfl
    _ = _ := List.map_congr_left fun e he =>
        label_entry_columns (h.fits e (List.mem_of_mem_filter he))

theorem distinct_label (h : Represents s) : (s.2.map (·.label)).Nodup := by
  have hfst : (s.2.map (·.label)).map Prod.fst = s.2.map (·.filepath) := List.map_map
  exact List.Nodup.of_map Prod.fst (hfst ▸ h.distinct)

theorem finds_iff (h : Represents s) (query : Option Hdf5Query) {maxResults : UInt64}
    (hroom : s.2.length ≤ maxResults.toNat) (hlimit : maxResults.toNat < 2 ^ 63) :
    Finds P s query maxResults ↔ ∀ e ∈ s.2, ∀ q ∈ query, q.Handles e := by
  obtain ⟨results, hquery, hperm⟩ := h.query_perm (P := P) query hroom hlimit
  have hfinds : Finds P s query maxResults ↔
      (results.map (·.label)).Perm ((s.2.filter fun e => Satisfies query e).map (·.label)) := by
    rw [Finds, hquery]
    exact ⟨fun ⟨_, heq, h'⟩ => Except.ok.inj heq ▸ h', fun h' => ⟨results, rfl, h'⟩⟩
  rw [hfinds, hperm.congr_left, KeyedTable.perm_map_filter_iff h.distinct_label]
  refine forall₂_congr fun e _ => ?_
  rw [decide_eq_decide, matches_iff_satisfies_iff]

theorem getsTask_iff (h : Represents s) (taskId : UInt64) :
    GetsTask P s taskId ↔
      (taskId = 0 → ∀ row ∈ firstVisited P s.1 taskId, row.taskId = 0) ∧
        (2 ^ 63 ≤ taskId.toNat → ∀ e ∈ s.2, e.taskId ≠ taskId) := by
  rw [GetsTask, IndexDb.getByTask_eq]
  rcases hfind : List.find? _ _ with - | row
  -- No row matches: there is no file at all, or none whose id could be asked for.
  · have hnone : ∀ e ∈ s.2, ¬ (taskId.toNat < 2 ^ 63 ∧ (taskId = 0 ∨ e.taskId = taskId)) := by
      intro e he
      obtain ⟨row, hrow, hcols⟩ := h.exists_row he
      have hnot := List.find?_eq_none.1 hfind row ((P.visit_perm _ _).mem_iff.2 hrow)
      rwa [hcols, decide_eq_true_iff, matches_taskId_iff] at hnot
    constructor
    · rintro ⟨-, hne⟩
      refine ⟨fun hzero row hrow => ?_, fun _ => hne⟩
      obtain ⟨e, he, -⟩ := h.exists_columns_of_visit (List.mem_of_mem_head? hrow)
      exact absurd ⟨hzero ▸ by decide, .inl hzero⟩ (hnone e he)
    · rintro ⟨-, hbig⟩
      refine ⟨rfl, fun e he heq => ?_⟩
      rcases Nat.lt_or_ge taskId.toNat (2 ^ 63) with hlt | hge
      · exact hnone e he ⟨hlt, .inr heq⟩
      · exact hbig hge e he heq
  -- A row matches, and it is the row of an indexed file.
  · obtain ⟨e, he, hcols⟩ := h.exists_columns_of_visit (List.mem_of_find?_eq_some hfind)
    have hmatch := List.find?_some hfind
    rw [hcols, decide_eq_true_iff, matches_taskId_iff] at hmatch
    have hlabel : row.toFileColumns.entry.label = e.label := by
      rw [hcols, label_entry_columns (h.fits e he)]
    have htask : row.toFileColumns.entry.taskId = e.taskId := congrArg (·.2.1) hlabel
    show (_ ∧ _) ↔ _
    rw [htask, hlabel, and_iff_left (List.mem_map_of_mem he),
      and_iff_left fun hge => absurd hmatch.1 (Nat.not_lt.2 hge)]
    rcases eq_or_ne taskId 0 with rfl | hne
    · have hfirst : firstVisited P s.1 0 = some row := h.find_eq_firstVisited.symm.trans hfind
      have hrow : row.taskId = e.taskId.toInt64.toInt := congrArg FileColumns.taskId hcols
      have hzero : e.taskId.toInt64.toInt = 0 ↔ e.taskId = 0 :=
        toInt_toInt64_eq_iff (q := 0).trans (and_iff_left (by decide))
      simp [hfirst, hrow, hzero]
    · exact iff_of_true (hmatch.2.resolve_left hne) fun h0 => absurd h0 hne

end Represents

/-- **What the index finds.** After any sequence of calls, a query with room for all files returns
exactly the files that satisfy its filters if and only if it handles each of them; and looking up a
task is right if and only if, for the task 0, the first file that is visited has it, and, for a task
from `2 ^ 63` on, no file has it. -/
theorem finds_and_getsTask_iff (P : Planner) (calls : List IndexCall) (query : Option Hdf5Query)
    (maxResults : UInt64) (hroom : (afterCalls calls).2.length ≤ maxResults.toNat)
    (hlimit : maxResults.toNat < 2 ^ 63) (taskId : UInt64) :
    (Finds P (afterCalls calls) query maxResults ↔
      ∀ e ∈ (afterCalls calls).2, ∀ q ∈ query, q.Handles e) ∧
    (GetsTask P (afterCalls calls) taskId ↔
      (taskId = 0 → ∀ row ∈ firstVisited P (afterCalls calls).1 taskId, row.taskId = 0) ∧
        (2 ^ 63 ≤ taskId.toNat → ∀ e ∈ (afterCalls calls).2, e.taskId ≠ taskId)) :=
  ⟨(represents_afterCalls calls).finds_iff query hroom hlimit,
    (represents_afterCalls calls).getsTask_iff taskId⟩

/-- A file `a` without datasets, added for a task. -/
def addFileA (taskId : UInt64) : IndexCall :=
  .add
    { filepath := [0x61]
      taskId := taskId
      modelId := 3
      file := some { dataset := fun _ => none, stat := some (0, 0) }
      opened_length := fun _ => by decide }

/-- A file is found by its task. -/
theorem finds_and_getsTask_iff_seven :
    Finds .inOrder (afterCalls [addFileA 7]) (some { taskId := 7 }) 1 ∧
      GetsTask .inOrder (afterCalls [addFileA 7]) 7 := by
  obtain ⟨hfinds, hgets⟩ :=
    finds_and_getsTask_iff .inOrder [addFileA 7] (some { taskId := 7 }) 1 (by decide) (by decide) 7
  refine ⟨hfinds.2 fun e he q hq => ?_, hgets.2 ⟨nofun, fun h => absurd h (by decide)⟩⟩
  obtain rfl := Option.some.inj hq
  have hfit : Hdf5Query.IdsFit { taskId := 7 } := ⟨by decide, by decide⟩
  exact ⟨fun _ => hfit, fun _ _ => ⟨nofun, nofun, nofun⟩⟩

/-- The least task id with the highest bit set. -/
def highTask : UInt64 := 0x8000000000000000

/-- **A file is not found by its task** if the id of the task has the highest bit set. -/
theorem file_lost_above_int64 :
    ¬ Finds .inOrder (afterCalls [addFileA highTask]) (some { taskId := highTask }) 1 ∧
      ¬ GetsTask .inOrder (afterCalls [addFileA highTask]) highTask := by
  have hrep := represents_afterCalls [addFileA highTask]
  constructor
  · rw [hrep.finds_iff _ (by decide) (by decide)]
    intro h
    have hsat : Hdf5Query.Satisfies { taskId := highTask } ⟨[0x61], highTask, 3, 0, 0, []⟩ := by
      decide
    exact absurd ((h _ List.mem_cons_self _ rfl).1 hsat).1 (by decide)
  · rw [hrep.getsTask_iff]
    exact fun h => h.2 (by decide) _ List.mem_cons_self rfl

end DistributedComputing
