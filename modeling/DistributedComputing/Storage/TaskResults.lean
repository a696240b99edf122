import DistributedComputing.Storage.Hdf5Datasets

/-!
# Task results in HDF5 files

`hdf5_store_task_result` creates a file and writes the input and the output of a task to it, each as
an array of doubles. The number of doubles is the size divided by eight, and nobody looks at what
the two writes return.

A write of this kind always ends, and what it leaves under its name are the bytes of whole doubles,
if the dataset could be created (`storeBuffer_spec`). `task_result_kept_iff` says what that means
for the buffers.

The index is left out, and so are null arguments other than the two buffers.
-/

namespace DistributedComputing

open Bytes

/-- The calls that fail while the file of a task is created. -/
structure TaskFileFaults where
  stat : Bool := false
  mkdir : Bool := false
  fcreate : Bool := false
  inputGroup : Bool := false
  outputGroup : Bool := false

/-- The path `<dir>/task_<id>_model_<id>.h5`, as `snprintf` leaves it in the buffer. -/
def taskFilePath (outputDir : List UInt8) (taskId : UInt64) (modelId : UInt32) : List UInt8 :=
  (outputDir ++ ascii "/task_" ++ decimalDigits taskId.toNat ++ ascii "_model_" ++
    decimalDigits modelId.toNat ++ ascii ".h5").take (hdf5MaxPathLen - 1)

/-- The file of a task, with the two groups if they could be created. -/
def taskFile (inputFails outputFails : Bool) : DataFile :=
  (({} : DataFile).createGroup inputFails (ascii "/input")).createGroup outputFails
    (ascii "/output")

/-- `hdf5_create_task_file`, without the index. -/
def hdf5CreateTaskFile (faults : TaskFileFaults) (files : DataFiles) (filepath : List UInt8) :
    DataFiles × Except DatasetError Unit :=
  if faults.stat && faults.mkdir then (files, .error .io)
  else if faults.fcreate then (files, .error .hdf5)
  else (Function.update files filepath (some (taskFile faults.inputGroup faults.outputGroup)),
    .ok ())

/-- The name of the dataset with the input of a task. -/
def inputData : List UInt8 := ascii "/input/data"

/-- The name of the dataset with the output of a task. -/
def outputData : List UInt8 := ascii "/output/data"

/-- A buffer of a task is written as an array of doubles, if there is one and it is not empty. The
result is ignored. -/
def storeBuffer (faults : DatasetFaults) (files : DataFiles) (filepath name : List UInt8)
    (buffer : Option Buffer) : Option DataFiles :=
  match buffer with
  | none => some files
  | some data =>
    if data.bytes.length = 0 then some files
    else (hdf5WriteDataset faults files filepath name data.bytes [.ofNat (data.bytes.length / 8)]
      8).map Prod.fst

/-- `hdf5_store_task_result`. -/
def hdf5StoreTaskResult (create : TaskFileFaults) (input output : DatasetFaults) (files : DataFiles)
    (outputDir : List UInt8) (taskId : UInt64) (modelId : UInt32)
    (inputBuffer outputBuffer : Option Buffer) : Option (DataFiles × Except DatasetError Unit) :=
  let filepath := taskFilePath outputDir taskId modelId
  match hdf5CreateTaskFile create files filepath with
  | (files, .error err) => some (files, .error err)
  | (files, .ok ()) => do
    let files ← storeBuffer input files filepath inputData inputBuffer
    let files ← storeBuffer output files filepath outputData outputBuffer
    return (files, .ok ())

/-! ### A buffer -/

variable {faults : DatasetFaults} {files : DataFiles} {filepath name g : List UInt8}
  {file : DataFile} {data : Buffer}

/-- What a write of doubles puts into the dataset. -/
def doubles (dwrite : Option (ℕ → UInt8)) (data : List UInt8) : List UInt8 :=
  match dwrite with
  | some left => (List.range (data.length / 8 * 8)).map left
  | none => data.take (data.length / 8 * 8)

theorem length_doubles (dwrite : Option (ℕ → UInt8)) (data : List UInt8) :
    (doubles dwrite data).length = data.length / 8 * 8 := by
  rcases dwrite with - | left
  · rw [doubles, List.length_take]
    omega
  · rw [doubles, List.length_map, List.length_range]

/-- The whole buffer is in the dataset exactly if its size is a multiple of eight, and the write
succeeds or leaves the same bytes. -/
theorem prefix_doubles_iff (dwrite : Option (ℕ → UInt8)) (data : List UInt8) :
    data <+: doubles dwrite data ↔
      8 ∣ data.length ∧ ∀ left, dwrite = some left → (List.range data.length).map left = data := by
  have hlen := length_doubles dwrite data
  constructor
  · intro h
    have hle := h.length_le
    have hdvd : 8 ∣ data.length := by omega
    refine ⟨hdvd, ?_⟩
    rintro left rfl
    have heq := h.eq_of_length_le (by omega)
    rw [doubles, Nat.div_mul_cancel hdvd] at heq
    exact heq.symm
  · rintro ⟨hdvd, hleft⟩
    rcases dwrite with - | left
    · rw [doubles, Nat.div_mul_cancel hdvd, List.take_length]
    · rw [doubles, Nat.div_mul_cancel hdvd, hleft left rfl]

/-- There is nothing yet under the name of a dataset, and its group can be created. -/
structure Ready (file : DataFile) (name g : List UInt8) : Prop where
  parent : parentGroup name = some g
  ne : name ≠ g
  free : ¬ file.Taken name
  noDataset : file.datasets g = none
  hasParent : file.HasParent g

theorem Ready.datasets_eq_none (h : Ready file name g) : file.datasets name = none :=
  Option.not_isSome_iff_eq_none.1 fun hsome => h.free (.inr hsome)

/-- The dataset is created: nothing fails before that, and its group is there, or is created now. -/
def Creates (hasGroup : Prop) (faults : DatasetFaults) : Prop :=
  (faults.fopen = false ∧ faults.strdup = false) ∧ faults.screate = false ∧
    faults.dcreate = false ∧ (hasGroup ∨ (faults.lexists = false ∧ faults.gcreate = false))

theorem datasets_ensureParent (file : DataFile) (faults : DatasetFaults) (name : List UInt8) :
    (file.ensureParent faults name).datasets = file.datasets := by
  rw [DataFile.ensureParent]
  rcases parentGroup name with - | g
  · rfl
  · show (file.createGroup _ g).datasets = file.datasets
    rw [DataFile.createGroup]
    split
    · rfl
    · rfl

theorem mem_groups_ensureParent (h : Ready file name g) (faults : DatasetFaults)
    (n : List UInt8) :
    n ∈ (file.ensureParent faults name).groups ↔
      n ∈ file.groups ∨ (n = g ∧ faults.lexists = false ∧ faults.gcreate = false) := by
  rw [DataFile.ensureParent, h.parent]
  show n ∈ (file.createGroup _ g).groups ↔ _
  rw [DataFile.createGroup]
  split
  · next hkeep =>
    refine (or_iff_left_of_imp ?_).symm
    rintro ⟨rfl, hexists, hcreate⟩
    rcases hkeep with hfail | (hmem | hdataset) | hparent
    · rw [hexists, hcreate] at hfail
      cases hfail
    · exact hmem
    · rw [h.noDataset] at hdataset
      cases hdataset
    · exact absurd h.hasParent hparent
  · next hnew =>
    have hfaults : faults.lexists = false ∧ faults.gcreate = false :=
      Bool.or_eq_false_iff.1 (Bool.eq_false_iff.2 fun hfail => hnew (.inl hfail))
    rw [List.mem_cons, or_comm, and_iff_left hfaults]

theorem creates_iff (h : Ready file name g)
    (hopen : faults.fopen = false ∧ faults.strdup = false) :
    Creates (g ∈ file.groups) faults ↔ ¬ (file.ensureParent faults name).Refuses faults name := by
  have htaken : ¬ (file.ensureParent faults name).Taken name := by
    rw [DataFile.Taken, datasets_ensureParent, mem_groups_ensureParent h]
    rintro ((hmem | ⟨heq, -⟩) | hsome)
    · exact h.free (.inl hmem)
    · exact h.ne heq
    · exact h.free (.inr hsome)
  have hparent : (file.ensureParent faults name).HasParent name ↔
      g ∈ (file.ensureParent faults name).groups := by
    rw [DataFile.HasParent, h.parent]
    simp
  rw [Creates, and_iff_right hopen, DataFile.Refuses, or_iff_right htaken, hparent,
    mem_groups_ensureParent h, and_iff_right rfl]
  rw [not_or, not_or, not_not, Bool.not_eq_true, Bool.not_eq_true]

/-- A write of doubles reads no more than there is. -/
theorem writeData_doubles (dwrite : Option (ℕ → UInt8)) (file : DataFile) (name : List UInt8)
    (data : Buffer) :
    ∃ d r, writeData dwrite file name .double [.ofNat (data.bytes.length / 8)] data.bytes =
      some (file.setDataset name d, r) ∧ d.bytes = doubles dwrite data.bytes := by
  have hpoints : points [UInt64.ofNat (data.bytes.length / 8)] * NativeType.double.size =
      data.bytes.length / 8 * 8 := by
    show (UInt64.ofNat (data.bytes.length / 8)).toNat * 1 * 8 = _
    rw [UInt64.toNat_ofNat_of_lt' (Nat.lt_of_le_of_lt (Nat.div_le_self ..) data.length_lt),
      Nat.mul_one]
  rcases dwrite with - | left
  · rw [writeData, dif_pos (by rw [hpoints]; omega)]
    exact ⟨_, _, rfl, congrArg (data.bytes.take ·) hpoints⟩
  · exact ⟨_, _, rfl, congrArg (fun n => (List.range n).map left) hpoints⟩

/-- A buffer is in the dataset of its name, all of it, after the call. -/
def Lands (hasGroup : Prop) (faults : DatasetFaults) (data : List UInt8) : Prop :=
  Creates hasGroup faults ∧ 8 ∣ data.length ∧
    ∀ left, faults.dwrite = some left → (List.range data.length).map left = data

/-- **A write of a buffer** ends, and changes nothing but the dataset and its group. -/
structure Stored (faults : DatasetFaults) (name g : List UInt8) (buffer : Option Buffer)
    (file file' : DataFile) : Prop where
  others : ∀ n, n ≠ name → file'.datasets n = file.datasets n
  groups : ∀ n, n ≠ g → (n ∈ file'.groups ↔ n ∈ file.groups)
  lands : ∀ data, buffer = some data → data.bytes ≠ [] →
    ((∃ d, file'.datasets name = some d ∧ data.bytes <+: d.bytes) ↔
      Lands (g ∈ file.groups) faults data.bytes)

theorem addDataset_doubles (h : Ready file name g) (data : Buffer)
    (hopen : faults.fopen = false ∧ faults.strdup = false) :
    ∃ file' r, file.addDataset faults name data.bytes [.ofNat (data.bytes.length / 8)] 8 =
      some (file', r) ∧ Stored faults name g (some data) file file' := by
  have hgroups (n : List UInt8) (hn : n ≠ g) :
      n ∈ (file.ensureParent faults name).groups ↔ n ∈ file.groups := by
    rw [mem_groups_ensureParent h]
    exact or_iff_left fun hnew => hn hnew.1
  have hadds := adds_addDataset file faults name data.bytes [.ofNat (data.bytes.length / 8)] 8
  generalize file.addDataset faults name data.bytes [.ofNat (data.bytes.length / 8)] 8 = r
    at hadds ⊢
  cases hadds with
  | negative hneg => exact absurd (show intRank 1 < 0 from hneg) (by decide)
  | unset hmax => exact absurd (show (maxDims : ℤ) < intRank 1 from hmax) (by decide)
  | refused _ _ hrefuses =>
    refine ⟨_, _, rfl, ?_, hgroups, ?_⟩
    · intro n _
      rw [datasets_ensureParent]
    · intro data' _ _
      rw [datasets_ensureParent, h.datasets_eq_none]
      refine iff_of_false (fun ⟨d, hd, _⟩ => by cases hd) fun hlands => ?_
      exact (creates_iff h hopen).1 hlands.1 hrefuses
  | created _ _ hcreated =>
    obtain ⟨d, r, hwrite, hbytes⟩ :=
      writeData_doubles faults.dwrite (file.ensureParent faults name) name data
    refine ⟨_, r, hwrite, ?_, hgroups, ?_⟩
    · intro n hn
      exact (Function.update_of_ne hn ..).trans (congrFun (datasets_ensureParent ..) n)
    · rintro data' hdata' -
      obtain rfl := Option.some.inj hdata'
      have hself : ((file.ensureParent faults name).setDataset name d).datasets name = some d :=
        Function.update_self ..
      rw [Lands, and_iff_right ((creates_iff h hopen).2 hcreated), ← prefix_doubles_iff, ← hbytes,
        hself]
      simp

theorem storeBuffer_spec (h : Ready file name g) (hfile : files filepath = some file)
    (faults : DatasetFaults) (buffer : Option Buffer) :
    ∃ file', storeBuffer faults files filepath name buffer =
      some (Function.update files filepath (some file')) ∧
        Stored faults name g buffer file file' := by
  have hsame : Function.update files filepath (some file) = files := by
    rw [← hfile, Function.update_eq_self]
  rcases buffer with - | data
  · exact ⟨file, congrArg some hsame.symm, fun _ _ => rfl, fun _ _ => Iff.rfl, fun _ hnone => by
      cases hnone⟩
  rw [storeBuffer]
  by_cases hempty : data.bytes.length = 0
  · refine ⟨file, (if_pos hempty).trans (congrArg some hsame.symm), fun _ _ => rfl,
      fun _ _ => Iff.rfl, fun data' hdata' hne => ?_⟩
    obtain rfl := Option.some.inj hdata'
    exact absurd (List.length_eq_zero_iff.1 hempty) hne
  rw [if_neg hempty]
  have hdims : [UInt64.ofNat (data.bytes.length / 8)] ≠ [] := List.cons_ne_nil _ _
  by_cases hopen : faults.fopen = false ∧ faults.strdup = false
  · obtain ⟨file', r, hadd, hstored⟩ := addDataset_doubles h data hopen
    refine ⟨file', ?_, hstored⟩
    rw [hdf5WriteDataset_of_opens hdims hfile hopen.1 hopen.2, hadd]
    rfl
  · -- the file is not opened, and stays as it is
    have hstops : Stops faults files filepath := .inr (by
      rw [not_and_or, Bool.not_eq_false, Bool.not_eq_false] at hopen
      exact hopen)
    obtain ⟨err, hwrite⟩ := hdf5WriteDataset_of_stops hdims hstops
    refine ⟨file, ?_, fun _ _ => rfl, fun _ _ => Iff.rfl, fun data' _ _ => ?_⟩
    · rw [hwrite, hsame]
      rfl
    · rw [h.datasets_eq_none]
      exact iff_of_false (fun ⟨d, hd, _⟩ => by cases hd) fun hlands => hopen hlands.1.1

/-! ### Both buffers -/

/-- Every byte of a buffer is in the dataset. -/
def Keeps (files : DataFiles) (filepath name : List UInt8) (buffer : Option Buffer) : Prop :=
  ∀ data, buffer = some data → data.bytes ≠ [] → ∃ file d,
    files filepath = some file ∧ file.datasets name = some d ∧ data.bytes <+: d.bytes

/-- A buffer with anything in it lands. -/
def BufferLands (groupFails : Bool) (faults : DatasetFaults) (buffer : Option Buffer) : Prop :=
  ∀ data, buffer = some data → data.bytes ≠ [] → Lands (groupFails = false) faults data.bytes

theorem keeps_iff (hfile : files filepath = some file) (buffer : Option Buffer) :
    Keeps files filepath name buffer ↔ ∀ data, buffer = some data → data.bytes ≠ [] →
      ∃ d, file.datasets name = some d ∧ data.bytes <+: d.bytes := by
  simp only [Keeps, hfile, Option.some.injEq, exists_and_left, exists_eq_left']

theorem mem_groups_taskFile (inputFails outputFails : Bool) :
    (ascii "/input" ∈ (taskFile inputFails outputFails).groups ↔ inputFails = false) ∧
      (ascii "/output" ∈ (taskFile inputFails outputFails).groups ↔ outputFails = false) := by
  revert inputFails outputFails
  decide

theorem datasets_taskFile (inputFails outputFails : Bool) :
    (taskFile inputFails outputFails).datasets = fun _ => none := by
  rcases inputFails with - | - <;> rcases outputFails with - | - <;> rfl

theorem ready_input (inputFails outputFails : Bool) :
    Ready (taskFile inputFails outputFails) inputData (ascii "/input") where
  parent := by decide
  ne := by decide
  free := by
    revert inputFails outputFails
    decide
  noDataset := by rw [datasets_taskFile]
  hasParent := by
    revert inputFails outputFails
    decide

/-- After the input, everything is there for the output. -/
theorem ready_output {inputFails outputFails : Bool} {faults : DatasetFaults}
    {buffer : Option Buffer} (h : Stored faults inputData (ascii "/input") buffer
      (taskFile inputFails outputFails) file) : Ready file outputData (ascii "/output") := by
  have hgroup : ∀ a b, outputData ∉ (taskFile a b).groups := by decide
  have hdata (n : List UInt8) (hn : n ≠ inputData) : file.datasets n = none := by
    rw [h.others n hn, datasets_taskFile]
  refine ⟨by decide, by decide, ?_, hdata _ (by decide), ?_⟩
  · rintro (hmem | hsome)
    · exact hgroup _ _ ((h.groups _ (by decide)).1 hmem)
    · rw [hdata _ (by decide)] at hsome
      cases hsome
  · have hnone : parentGroup (ascii "/output") = none := by decide
    rw [DataFile.HasParent, hnone]
    exact fun _ hmem => by cases hmem

theorem createTaskFile_ok {faults : TaskFileFaults} {files' : DataFiles}
    (h : hdf5CreateTaskFile faults files filepath = (files', .ok ())) :
    files' filepath = some (taskFile faults.inputGroup faults.outputGroup) := by
  rw [hdf5CreateTaskFile] at h
  split at h
  · cases h
  split at h
  · cases h
  · obtain rfl := congrArg Prod.fst h
    exact Function.update_self ..

section Store

variable {create : TaskFileFaults} {input output : DatasetFaults} {files₀ files' : DataFiles}
  {outputDir : List UInt8} {taskId : UInt64} {modelId : UInt32}
  {inputBuffer outputBuffer : Option Buffer}

/-- **Once the file is created**, the call reports success, and every byte is kept exactly if the
buffers land. -/
theorem exists_hdf5StoreTaskResult
    (hcreate : hdf5CreateTaskFile create files (taskFilePath outputDir taskId modelId) =
      (files₀, .ok ())) :
    ∃ files', hdf5StoreTaskResult create input output files outputDir taskId modelId inputBuffer
        outputBuffer = some (files', .ok ()) ∧
      ((Keeps files' (taskFilePath outputDir taskId modelId) inputData inputBuffer ∧
          Keeps files' (taskFilePath outputDir taskId modelId) outputData outputBuffer) ↔
        (BufferLands create.inputGroup input inputBuffer ∧
          BufferLands create.outputGroup output outputBuffer)) := by
  rw [hdf5StoreTaskResult, hcreate]
  generalize taskFilePath outputDir taskId modelId = filepath at hcreate ⊢
  obtain ⟨file₁, hwrite₁, hinput⟩ :=
    storeBuffer_spec (ready_input _ _) (createTaskFile_ok hcreate) input inputBuffer
  have hfile₁ : Function.update files₀ filepath (some file₁) filepath = some file₁ :=
    Function.update_self ..
  obtain ⟨file₂, hwrite₂, houtput⟩ :=
    storeBuffer_spec (ready_output hinput) hfile₁ output outputBuffer
  have hfile₂ : Function.update (Function.update files₀ filepath (some file₁)) filepath
      (some file₂) filepath = some file₂ := Function.update_self ..
  refine ⟨_, by simp only [hwrite₁, hwrite₂, Option.bind_eq_bind, Option.bind_some]; rfl, ?_⟩
  obtain ⟨hin, hout⟩ := mem_groups_taskFile create.inputGroup create.outputGroup
  have hkept : file₂.datasets inputData = file₁.datasets inputData :=
    houtput.others _ (by decide)
  have hgroup : ascii "/output" ∈ file₁.groups ↔ create.outputGroup = false :=
    (hinput.groups _ (by decide)).trans hout
  rw [keeps_iff hfile₂, keeps_iff hfile₂, hkept]
  refine and_congr ?_ ?_
  · refine forall_congr' fun data => forall_congr' fun hdata => forall_congr' fun hne => ?_
    rw [hinput.lands data hdata hne, Lands, hin, Lands]
  · refine forall_congr' fun data => forall_congr' fun hdata => forall_congr' fun hne => ?_
    rw [houtput.lands data hdata hne, Lands, hgroup, Lands]

/-- **Task results.** If `hdf5_store_task_result` reports success, every byte of the buffers is in
the file exactly if the size of each buffer is a multiple of eight, its dataset is created, and the
write succeeds or leaves the same bytes. -/
theorem task_result_kept_iff
    (hstore : hdf5StoreTaskResult create input output files outputDir taskId modelId inputBuffer
      outputBuffer = some (files', .ok ())) :
    (Keeps files' (taskFilePath outputDir taskId modelId) inputData inputBuffer ∧
      Keeps files' (taskFilePath outputDir taskId modelId) outputData outputBuffer) ↔
    (BufferLands create.inputGroup input inputBuffer ∧
      BufferLands create.outputGroup output outputBuffer) := by
  rcases hcreate : hdf5CreateTaskFile create files (taskFilePath outputDir taskId modelId) with
    ⟨files₀, err | ⟨⟨⟩⟩⟩
  · rw [hdf5StoreTaskResult, hcreate] at hstore
    cases hstore
  · obtain ⟨files'', hstore', hiff⟩ := exists_hdf5StoreTaskResult hcreate
    obtain rfl := congrArg Prod.fst (Option.some.inj (hstore'.symm.trans hstore))
    exact hiff

end Store

theorem exists_store_output (output : DatasetFaults) (data : Buffer) : ∃ files,
    hdf5StoreTaskResult {} {} output (fun _ => none) [] 1 1 none (some data) =
      some (files, .ok ()) ∧
      (Keeps files (taskFilePath [] 1 1) outputData (some data) ↔
        BufferLands false output (some data)) := by
  have hcreate : ∃ files₀, hdf5CreateTaskFile {} (fun _ => none) (taskFilePath [] 1 1) =
      (files₀, .ok ()) := ⟨_, rfl⟩
  have hnone {P : Buffer → Prop} : ∀ data, (none : Option Buffer) = some data → P data :=
    fun _ h => by cases h
  obtain ⟨files₀, hcreate⟩ := hcreate
  obtain ⟨files, hstore, hiff⟩ := exists_hdf5StoreTaskResult hcreate
  exact ⟨files, hstore, (and_iff_right hnone).symm.trans (hiff.trans (and_iff_right hnone))⟩

/-- A buffer of one double. -/
def oneDouble : Buffer := ⟨[1, 2, 3, 4, 5, 6, 7, 8], by decide⟩

/-- One double as the output of a task. -/
theorem task_result_kept_iff_double : ∃ files,
    hdf5StoreTaskResult {} {} {} (fun _ => none) [] 1 1 none (some oneDouble) =
      some (files, .ok ()) ∧
      Keeps files (taskFilePath [] 1 1) inputData none ∧
      Keeps files (taskFilePath [] 1 1) outputData (some oneDouble) := by
  obtain ⟨files, hstore, -⟩ := exists_store_output {} oneDouble
  refine ⟨files, hstore, (task_result_kept_iff hstore).2 ⟨fun _ h => (by cases h), ?_⟩⟩
  rintro data hdata -
  obtain rfl := Option.some.inj hdata
  exact ⟨⟨⟨rfl, rfl⟩, rfl, rfl, .inl rfl⟩, by decide, fun _ h => by cases h⟩

/-- A buffer of nine bytes. -/
def nineBytes : Buffer := ⟨[1, 2, 3, 4, 5, 6, 7, 8, 9], by decide⟩

/-- The last of nine bytes is lost, and so are all bytes of a double if the dataset is not created;
success is reported for both. -/
theorem task_result_lost :
    (∃ files, hdf5StoreTaskResult {} {} {} (fun _ => none) [] 1 1 none (some nineBytes) =
        some (files, .ok ()) ∧
      ¬ Keeps files (taskFilePath [] 1 1) outputData (some nineBytes)) ∧
    ∃ files, hdf5StoreTaskResult {} {} { dcreate := true } (fun _ => none) [] 1 1 none
        (some oneDouble) = some (files, .ok ()) ∧
      ¬ Keeps files (taskFilePath [] 1 1) outputData (some oneDouble) := by
  constructor
  · obtain ⟨files, hstore, hiff⟩ := exists_store_output {} nineBytes
    refine ⟨files, hstore, fun hkeeps => ?_⟩
    have hlands := hiff.1 hkeeps nineBytes rfl (List.cons_ne_nil _ _)
    exact absurd (show 8 ∣ 9 from hlands.2.1) (by decide)
  · obtain ⟨files, hstore, hiff⟩ := exists_store_output { dcreate := true } oneDouble
    refine ⟨files, hstore, fun hkeeps => ?_⟩
    have hlands := hiff.1 hkeeps oneDouble rfl (List.cons_ne_nil _ _)
    cases hlands.1.2.2.1

end DistributedComputing
