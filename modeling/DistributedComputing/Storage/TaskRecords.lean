import DistributedComputing.Foundations.LastWriter
import DistributedComputing.Storage.Experiments
import DistributedComputing.Storage.MetadataDurability

/-!
# Task records

`metadata_store_task_info` stores five integers about a task, each under a key of its own. It makes
five calls of `metadata_store_put_int64`, looks at none of their results, and returns `META_OK`.

So what can be read afterwards depends on the calls one by one. A call that opens its file empties
it, and leaves the whole entry or nothing that can be read; a call that cannot open its file leaves
it as it was (`leftBy_cases`). The files after the five calls are a fold of such updates, in which
the **last** call that opened a file decides what it holds (`foldl_place`). Two records have the
same file only in a directory whose path is so long that the first letter of the field's name is cut
off (`taskPath_injective`); `task_info_complete_iff` does not assume that away, and
`settled_iff_of_short` says what it comes to otherwise.

Null arguments are left out.
-/

namespace DistributedComputing

open Bytes LastWriter

/-! ### Integers in the store -/

/-- The entry that `metadata_store_put_int64` fills in: that of `metadata_store_put_string`, but for
the value. -/
def int64Entry (now : Int64) (key : List UInt8) (value : Int64) (tag : Option (List UInt8)) :
    MetadataEntry :=
  { stringEntry now key [] tag with value := .int64 value }

/-- The end of `metadata_store_get_int64`. -/
def MetadataEntry.int64 (e : MetadataEntry) : Except MetaError Int64 :=
  match e.value with
  | .int64 v => .ok v
  | _ => .error .invalidArg

namespace MetadataStore

/-- `metadata_store_put_int64`. -/
def putInt64 (store : MetadataStore) (call : PutCall) (files : Files) (key : List UInt8)
    (value : Int64) (tag : Option (List UInt8)) : Option (Files × Except MetaError Unit) :=
  store.put call.fault files (int64Entry call.now key value tag)

/-- `metadata_store_get_int64`. -/
def getInt64 (store : MetadataStore) (allocated : Bool) (files : Files) (key : List UInt8) :
    Option (Except MetaError Int64) :=
  (store.get allocated files key).map fun r => r.bind MetadataEntry.int64

/-- The file is opened for writing, which empties it. -/
def Opens (store : MetadataStore) (call : PutCall) : Prop :=
  store.readOnly = false ∧ call.fault ≠ some .fopen

instance (store : MetadataStore) (call : PutCall) : Decidable (store.Opens call) :=
  inferInstanceAs (Decidable (_ ∧ _))

end MetadataStore

/-! ### Task records -/

/-- What is stored of a task. -/
inductive TaskField
  | modelId
  | status
  | execTimeUs
  | queueTimeUs
  | workerId
  deriving DecidableEq, Repr

/-- The tag `task`. -/
def taskTag : List UInt8 := [0x74, 0x61, 0x73, 0x6B]

namespace TaskField

/-- The fields in the order in which they are stored. -/
def all : List TaskField := [modelId, status, execTimeUs, queueTimeUs, workerId]

/-- The first letter. -/
def letter : TaskField → UInt8
  | modelId => 0x6D
  | status => 0x73
  | execTimeUs => 0x65
  | queueTimeUs => 0x71
  | workerId => 0x77

/-- The other letters of `model_id`, `status`, `exec_time_us`, `queue_time_us` and `worker_id`. -/
def others : TaskField → List UInt8
  | modelId => [0x6F, 0x64, 0x65, 0x6C, 0x5F, 0x69, 0x64]
  | status => [0x74, 0x61, 0x74, 0x75, 0x73]
  | execTimeUs => [0x78, 0x65, 0x63, 0x5F, 0x74, 0x69, 0x6D, 0x65, 0x5F, 0x75, 0x73]
  | queueTimeUs => [0x75, 0x65, 0x75, 0x65, 0x5F, 0x74, 0x69, 0x6D, 0x65, 0x5F, 0x75, 0x73]
  | workerId => [0x6F, 0x72, 0x6B, 0x65, 0x72, 0x5F, 0x69, 0x64]

/-- The key up to the letter in which the fields differ: `task.<id>.`. -/
def front (taskId : UInt64) : List UInt8 :=
  taskTag ++ dot :: (decimalDigits taskId.toNat ++ [dot])

/-- The key `task.<id>.<field>`. -/
def key (f : TaskField) (taskId : UInt64) : List UInt8 := front taskId ++ f.letter :: f.others

/-- The size of the buffer for the key. -/
def keySize : ℕ := 256

/-- The key as `snprintf` leaves it in the buffer. -/
def printedKey (f : TaskField) (taskId : UInt64) : List UInt8 := (f.key taskId).take (keySize - 1)

end TaskField

/-- The arguments of `metadata_store_task_info`. -/
structure TaskRecord where
  taskId : UInt64
  modelId : UInt32
  status : Int32
  execTimeUs : UInt64
  queueTimeUs : UInt64
  workerId : UInt32
  deriving DecidableEq, Repr

namespace TaskRecord

/-- The number that was passed for a field. -/
def passed (t : TaskRecord) : TaskField → ℤ
  | .modelId => t.modelId.toNat
  | .status => t.status.toInt
  | .execTimeUs => t.execTimeUs.toNat
  | .queueTimeUs => t.queueTimeUs.toNat
  | .workerId => t.workerId.toNat

/-- The number as it is converted to `int64_t`. -/
def value (t : TaskRecord) : TaskField → Int64
  | .modelId => t.modelId.toUInt64.toInt64
  | .status => t.status.toInt64
  | .execTimeUs => t.execTimeUs.toInt64
  | .queueTimeUs => t.queueTimeUs.toInt64
  | .workerId => t.workerId.toUInt64.toInt64

end TaskRecord

namespace MetadataStore

/-- The entry of a field. -/
def taskEntry (calls : TaskField → PutCall) (t : TaskRecord) (f : TaskField) : MetadataEntry :=
  int64Entry (calls f).now (f.printedKey t.taskId) (t.value f) (some taskTag)

/-- `metadata_store_task_info`. Nobody looks at what the five calls return. -/
def storeTaskInfo (store : MetadataStore) (calls : TaskField → PutCall) (files : Files)
    (t : TaskRecord) : Option (Files × Except MetaError Unit) := do
  let files ← TaskField.all.foldlM (fun files f =>
    (store.putInt64 (calls f) files (f.printedKey t.taskId) (t.value f) (some taskTag)).map
      Prod.fst) files
  return (files, .ok ())

end MetadataStore

/-! ### Keys and values -/

namespace TaskField

theorem letter_injective {f g : TaskField} (h : f.letter = g.letter) : f = g := by
  revert h
  cases f <;> cases g <;> decide

theorem length_others_le (f : TaskField) : f.others.length ≤ 12 := by
  cases f <;> decide

theorem length_front (taskId : UInt64) :
    (front taskId).length = (decimalDigits taskId.toNat).length + 6 := by
  simp [front, taskTag]

/-- Twenty digits are enough for any id. -/
theorem length_front_le (taskId : UInt64) : (front taskId).length ≤ 26 := by
  have hdigits : (decimalDigits taskId.toNat).length ≤ 20 :=
    length_decimalDigits_le (by decide) (taskId.toNat_lt.trans (by decide))
  rw [length_front]
  omega

theorem length_key_lt (f : TaskField) (taskId : UInt64) : (f.key taskId).length < 40 := by
  have hfront := length_front_le taskId
  have hothers := f.length_others_le
  rw [key, List.length_append, List.length_cons]
  omega

theorem printedKey_eq (f : TaskField) (taskId : UInt64) : f.printedKey taskId = f.key taskId := by
  have hlen := f.length_key_lt taskId
  exact List.take_of_length_le (by rw [keySize]; omega)

theorem zero_not_mem_key (f : TaskField) (taskId : UInt64) : 0 ∉ f.key taskId := by
  have htag : 0 ∉ taskTag := by decide
  have hdot : 0 ≠ dot := by decide
  have hfield : 0 ∉ f.letter :: f.others := by
    cases f <;> decide
  have hdigits : 0 ∉ decimalDigits taskId.toNat := fun h =>
    absurd (toNat_mem_decimalDigits h).1 (by decide)
  rw [key, front]
  simp only [List.mem_append, List.mem_cons, List.not_mem_nil, or_false, not_or] at hfield ⊢
  exact ⟨⟨htag, hdot, hdigits, hdot⟩, hfield⟩

end TaskField

/-- **The conversions** keep the numbers, as long as the two times are below `2 ^ 63`. -/
theorem TaskRecord.toInt_value {t : TaskRecord} (hexec : t.execTimeUs.toNat < 2 ^ 63)
    (hqueue : t.queueTimeUs.toNat < 2 ^ 63) (f : TaskField) : (t.value f).toInt = t.passed f := by
  have hword {x : UInt64} (h : x.toNat < 2 ^ 63) : x.toInt64.toInt = x.toNat :=
    BitVec.toInt_eq_toNat_of_lt (show 2 * x.toNat < 2 ^ 64 by omega)
  have hhalf (x : UInt32) : x.toUInt64.toInt64.toInt = x.toNat := by
    have hlt := x.toNat_lt
    rw [hword (by rw [UInt32.toNat_toUInt64]; omega), UInt32.toNat_toUInt64]
  cases f with
  | modelId => exact hhalf t.modelId
  | status => exact Int32.toInt_toInt64 t.status
  | execTimeUs => exact hword hexec
  | queueTimeUs => exact hword hqueue
  | workerId => exact hhalf t.workerId

/-! ### The calls -/

namespace MetadataStore

variable {store : MetadataStore} {calls : TaskField → PutCall} {files : Files} {t : TaskRecord}
  {f g : TaskField} {path : List UInt8} {allocated : Bool}

/-- What a call leaves in its file, if it opens it. -/
def leftBy (store : MetadataStore) (calls : TaskField → PutCall) (t : TaskRecord) (f : TaskField) :
    Option (List UInt8) :=
  if store.readOnly then none else (writeEntryToFile (taskEntry calls t f) (calls f).fault).1

/-- The entry of a field is written to the end, and reaches the file. -/
def Completes (calls : TaskField → PutCall) (t : TaskRecord) (f : TaskField) : Prop :=
  (writeEntryToFile (taskEntry calls t f) (calls f).fault).2 = .ok () ∧ Flushed (calls f).fault

/-- **What a call leaves**: the file as it was, the whole entry, or something corrupt. -/
theorem leftBy_cases (store : MetadataStore) (calls : TaskField → PutCall) (t : TaskRecord)
    (f : TaskField) :
    (¬ store.Opens (calls f) ∧ store.leftBy calls t f = none) ∨
      (store.Opens (calls f) ∧ Completes calls t f ∧
        store.leftBy calls t f = some (taskEntry calls t f).items.flatten) ∨
      (store.Opens (calls f) ∧ ¬ Completes calls t f ∧ ∃ bytes,
        store.leftBy calls t f = some bytes ∧
          readEntryFromFile true (some bytes) = .error .corrupt) := by
  rw [leftBy, Completes, Opens]
  rcases hro : store.readOnly with - | -
  · have hw := written_writeEntryToFile (taskEntry calls t f) (calls f).fault
    generalize hr : writeEntryToFile (taskEntry calls t f) (calls f).fault = r at hw
    cases hw with
    | notOpened hfault => exact .inl ⟨fun h => h.2 hfault, rfl⟩
    | complete hflushed =>
      exact .inr (.inl ⟨⟨rfl, opened_of_some (congrArg Prod.fst hr)⟩, ⟨rfl, hflushed⟩, rfl⟩)
    | lost hlost hread =>
      exact .inr (.inr ⟨⟨rfl, opened_of_some (congrArg Prod.fst hr)⟩, fun h => hlost h.2, _, rfl,
        hread⟩)
    | broken hfault hread =>
      refine .inr (.inr ⟨⟨rfl, hfault⟩, fun h => ?_, _, rfl, hread⟩)
      cases h.1
  · exact .inl ⟨fun h => Bool.false_ne_true h.1.symm, rfl⟩

theorem isSome_leftBy_iff : (store.leftBy calls t f).isSome ↔ store.Opens (calls f) := by
  rcases store.leftBy_cases calls t f with ⟨hopen, h⟩ | ⟨hopen, -, h⟩ | ⟨hopen, -, bytes, h, -⟩
  · rw [h]
    exact iff_of_false Bool.false_ne_true hopen
  · rw [h]
    exact iff_of_true rfl hopen
  · rw [h]
    exact iff_of_true rfl hopen

theorem exists_path (store : MetadataStore) (taskId : UInt64) :
    ∃ path : TaskField → List UInt8, ∀ f, store.buildFilePath (f.key taskId) = some (path f) := by
  have hfile (f : TaskField) : ∃ path, store.buildFilePath (f.key taskId) = some path :=
    store.exists_buildFilePath ((f.length_key_lt taskId).trans (by decide))
  exact Classical.axiomOfChoice hfile

theorem putInt64_task (files : Files) (hpath : store.buildFilePath (f.key t.taskId) = some path) :
    (store.putInt64 (calls f) files (f.printedKey t.taskId) (t.value f) (some taskTag)).map
      Prod.fst = some (place files path (store.leftBy calls t f)) := by
  have hlen : (f.key t.taskId).length < metaMaxKeyLen :=
    (f.length_key_lt t.taskId).trans (by decide)
  have hne : f.key t.taskId ≠ [] := by
    rw [TaskField.key]
    exact List.append_ne_nil_of_right_ne_nil _ (List.cons_ne_nil _ _)
  have hkey : (taskEntry calls t f).keyString = f.key t.taskId := by
    show cString (fill metaMaxKeyLen (strncpy (metaMaxKeyLen - 1) (f.printedKey t.taskId))).toList =
      f.key t.taskId
    rw [f.printedKey_eq]
    exact cString_fill_strncpy (f.zero_not_mem_key _) hlen
  have hvalid : (taskEntry calls t f).ValidKey :=
    MetadataEntry.validKey_of_keyString hkey hne hlen
  show (store.put (calls f).fault files (taskEntry calls t f)).map Prod.fst = _
  rw [put, leftBy]
  rcases store.readOnly with - | -
  · rw [if_neg Bool.false_ne_true, if_neg Bool.false_ne_true, if_neg hvalid, hkey, hpath]
    rcases writeEntryToFile (taskEntry calls t f) (calls f).fault with ⟨- | bytes, r⟩
    · rfl
    · rfl
  · rfl

/-- **The five calls** are a fold of updates, and whatever happens, the result is `META_OK`. -/
theorem storeTaskInfo_eq (files : Files) {path : TaskField → List UInt8}
    (hpath : ∀ f, store.buildFilePath (f.key t.taskId) = some (path f)) :
    store.storeTaskInfo calls files t = some (TaskField.all.foldl
      (fun files f => place files (path f) (store.leftBy calls t f)) files, .ok ()) := by
  have hcalls : (fun files f => (store.putInt64 (calls f) files (f.printedKey t.taskId) (t.value f)
      (some taskTag)).map Prod.fst) =
        fun files f => pure (place files (path f) (store.leftBy calls t f)) :=
    funext fun files => funext fun f => putInt64_task files (hpath f)
  rw [storeTaskInfo, hcalls, List.foldlM_pure]
  rfl

/-! ### What is read back -/

/-- The number that was passed for a field is read under the key of the field. -/
def RecordHolds (store : MetadataStore) (allocated : Bool) (files : Files) (t : TaskRecord)
    (f : TaskField) : Prop :=
  ∃ v, store.getInt64 allocated files (f.key t.taskId) = some (.ok v) ∧ v.toInt = t.passed f

/-- The last of the five calls to open the file of a field. -/
def lastOpened (store : MetadataStore) (calls : TaskField → PutCall) (taskId : UInt64)
    (f : TaskField) : Option TaskField :=
  (TaskField.all.filter fun g =>
    store.buildFilePath (g.key taskId) = store.buildFilePath (f.key taskId) ∧
      store.Opens (calls g)).getLast?

/-- The record of a field is there after the call: the last call to open its file completed, with
the same number, or there was no such call and the record was there before. -/
def Settled (store : MetadataStore) (calls : TaskField → PutCall) (allocated : Bool)
    (files : Files) (t : TaskRecord) (f : TaskField) : Prop :=
  (∃ g, store.lastOpened calls t.taskId f = some g ∧ Completes calls t g ∧
      t.passed g = t.passed f) ∨
    (store.lastOpened calls t.taskId f = none ∧ store.RecordHolds allocated files t f)

theorem lastOpened_eq {path : TaskField → List UInt8}
    (hpath : ∀ f, store.buildFilePath (f.key t.taskId) = some (path f)) (f : TaskField) :
    store.lastOpened calls t.taskId f = (TaskField.all.filter fun g =>
      path g = path f ∧ (store.leftBy calls t g).isSome).getLast? := by
  simp only [lastOpened, hpath, Option.some_inj, isSome_leftBy_iff]

theorem settled_of_some (h : store.lastOpened calls t.taskId f = some g) :
    store.Settled calls allocated files t f ↔ Completes calls t g ∧ t.passed g = t.passed f := by
  simp [Settled, h]

theorem settled_of_none (h : store.lastOpened calls t.taskId f = none) :
    store.Settled calls allocated files t f ↔ store.RecordHolds allocated files t f := by
  simp [Settled, h]

/-! ### Files of their own -/

/-- The letter in which the keys differ fits into the buffer for the path. -/
def ShortPath (store : MetadataStore) (taskId : UInt64) : Prop :=
  store.path.length + (decimalDigits taskId.toNat).length ≤ 4087

theorem taskPath_injective {taskId : UInt64} (h : store.ShortPath taskId)
    (heq : store.buildFilePath (f.key taskId) = store.buildFilePath (g.key taskId)) : f = g := by
  have hfront := TaskField.length_front_le taskId
  obtain ⟨head, hlen, hhead⟩ := store.exists_buildFilePath_append
    (show (TaskField.front taskId).length + 1 < metaMaxKeyLen by rw [metaMaxKeyLen]; omega)
  have hfield (f : TaskField) : ∃ rest, store.buildFilePath (f.key taskId) =
      some ((head ++ f.letter :: rest).take (pathSize - 1)) := by
    refine hhead f.letter f.others ?_ ?_ ((f.length_key_lt taskId).trans (by decide))
    · cases f <;> decide
    · cases f <;> decide
  obtain ⟨rest, hf⟩ := hfield f
  obtain ⟨rest', hg⟩ := hfield g
  rw [hf, hg] at heq
  have hfits : head.length < pathSize - 1 := by
    rw [ShortPath] at h
    rw [hlen, TaskField.length_front, pathSize]
    omega
  exact TaskField.letter_injective (eq_of_take_append hfits (Option.some.inj heq))

/-- With files of their own, no field has another field's file. -/
theorem lastOpened_of_short {taskId : UInt64} (h : store.ShortPath taskId) (f : TaskField) :
    store.lastOpened calls taskId f = if store.Opens (calls f) then some f else none := by
  have hsame (g : TaskField) : (store.buildFilePath (g.key taskId) =
      store.buildFilePath (f.key taskId) ∧ store.Opens (calls g)) ↔
        g = f ∧ store.Opens (calls f) := by
    constructor
    · rintro ⟨heq, hopen⟩
      obtain rfl := taskPath_injective h heq
      exact ⟨rfl, hopen⟩
    · rintro ⟨rfl, hopen⟩
      exact ⟨rfl, hopen⟩
  have hfilter : (TaskField.all.filter fun g => store.buildFilePath (g.key taskId) =
      store.buildFilePath (f.key taskId) ∧ store.Opens (calls g)) =
        TaskField.all.filter fun g => g = f ∧ store.Opens (calls f) :=
    List.filter_congr fun g _ => decide_eq_decide.2 (hsame g)
  rw [lastOpened, hfilter]
  by_cases hopen : store.Opens (calls f)
  · simp only [hopen, and_true]
    cases f <;> rfl
  · simp only [hopen, and_false, decide_false, List.filter_false]
    rfl

/-- **Short paths.** A record is settled exactly if its own call completed, or could not open the
file of a record that was there before. -/
theorem settled_iff_of_short (h : store.ShortPath t.taskId) (f : TaskField) :
    store.Settled calls allocated files t f ↔
      (store.Opens (calls f) ∧ Completes calls t f) ∨
        (¬ store.Opens (calls f) ∧ store.RecordHolds allocated files t f) := by
  have hlast : store.lastOpened calls t.taskId f = _ := lastOpened_of_short h f
  by_cases hopen : store.Opens (calls f)
  · rw [if_pos hopen] at hlast
    simp [settled_of_some hlast, hopen]
  · rw [if_neg hopen] at hlast
    simp [settled_of_none hlast, hopen]

theorem getInt64_eq (hpath : store.buildFilePath (f.key t.taskId) = some path) :
    store.getInt64 allocated files (f.key t.taskId) =
      some ((readEntryFromFile allocated (files path)).bind MetadataEntry.int64) := by
  rw [getInt64, get, hpath]
  rfl

theorem recordHolds_of_complete (hexec : t.execTimeUs.toNat < 2 ^ 63)
    (hqueue : t.queueTimeUs.toNat < 2 ^ 63)
    (hpath : store.buildFilePath (f.key t.taskId) = some path)
    (hfile : files path = some (taskEntry calls t g).items.flatten) :
    store.RecordHolds allocated files t f ↔ t.passed g = t.passed f := by
  have hread : readEntryFromFile allocated (some (taskEntry calls t g).items.flatten) =
      .ok (taskEntry calls t g) := readEntry_of_storable trivial trivial
  have hget : store.getInt64 allocated files (f.key t.taskId) = some (.ok (t.value g)) := by
    rw [getInt64_eq hpath, hfile, hread]
    rfl
  rw [RecordHolds, hget, ← TaskRecord.toInt_value hexec hqueue g]
  refine ⟨fun ⟨v, hv, heq⟩ => ?_, fun h => ⟨_, rfl, h⟩⟩
  rw [Except.ok.inj (Option.some.inj hv), heq]

theorem not_recordHolds_of_corrupt {bytes : List UInt8}
    (hpath : store.buildFilePath (f.key t.taskId) = some path) (hfile : files path = some bytes)
    (hread : readEntryFromFile true (some bytes) = .error .corrupt) :
    ¬ store.RecordHolds allocated files t f := by
  rintro ⟨v, hget, -⟩
  rw [getInt64_eq hpath, hfile] at hget
  rcases hentry : readEntryFromFile allocated (some bytes) with err | e
  · rw [hentry] at hget
    cases Option.some.inj hget
  rw [readEntryFromFile_of_ok hentry] at hread
  cases hread

/-- **Task records.** Whatever the five calls do, `metadata_store_task_info` returns `META_OK`, and
then the five records are read back exactly if each of them is settled. -/
theorem task_info_complete_iff (store : MetadataStore) (calls : TaskField → PutCall)
    (allocated : Bool) (files : Files) {t : TaskRecord} (hexec : t.execTimeUs.toNat < 2 ^ 63)
    (hqueue : t.queueTimeUs.toNat < 2 ^ 63) :
    ∃ files', store.storeTaskInfo calls files t = some (files', .ok ()) ∧
      ((∀ f, store.RecordHolds allocated files' t f) ↔
        ∀ f, store.Settled calls allocated files t f) := by
  obtain ⟨path, hpath⟩ := store.exists_path t.taskId
  refine ⟨_, storeTaskInfo_eq files hpath, forall_congr' fun f => ?_⟩
  have hlast : store.lastOpened calls t.taskId f = _ := lastOpened_eq hpath f
  rcases foldl_place path (store.leftBy calls t) files TaskField.all (path f) with
    ⟨hnone, hfile⟩ | ⟨g, hsome, hfile⟩
  · -- nobody has opened the file
    rw [settled_of_none (hlast.trans hnone), RecordHolds, RecordHolds, getInt64_eq (hpath f),
      getInt64_eq (hpath f), hfile]
  · rw [settled_of_some (hlast.trans hsome)]
    rcases store.leftBy_cases calls t g with ⟨-, h⟩ | ⟨-, hdone, h⟩ | ⟨-, hfail, bytes, h, hread⟩
    · have hopened := of_decide_eq_true (List.mem_filter.1 (List.mem_of_getLast? hsome)).2
      rw [h] at hopened
      cases hopened.2
    · rw [recordHolds_of_complete hexec hqueue (hpath f) (hfile.trans h), and_iff_right hdone]
    · exact iff_of_false (not_recordHolds_of_corrupt (hpath f) (hfile.trans h) hread)
        fun hboth => hfail hboth.1

/-- Calls whose file operations succeed. -/
def faultlessTask : TaskField → PutCall := fun _ => ⟨none, 0⟩

/-- A task of which everything is zero. -/
def zeroTask : TaskRecord := ⟨0, 0, 0, 0, 0, 0⟩

theorem shortPath_zeroTask : metaStore.ShortPath zeroTask.taskId :=
  show 10 + 1 ≤ 4087 by omega

/-- Without faults, the records of a task are all there. -/
theorem task_info_complete_iff_faultless :
    ∃ files', metaStore.storeTaskInfo faultlessTask (fun _ => none) zeroTask =
        some (files', .ok ()) ∧
      metaStore.RecordHolds true files' zeroTask .modelId ∧
      metaStore.RecordHolds true files' zeroTask .status ∧
      metaStore.RecordHolds true files' zeroTask .execTimeUs ∧
      metaStore.RecordHolds true files' zeroTask .queueTimeUs ∧
      metaStore.RecordHolds true files' zeroTask .workerId := by
  obtain ⟨files', hstore, hiff⟩ := task_info_complete_iff metaStore faultlessTask true
    (fun _ => none) (t := zeroTask) (by decide) (by decide)
  have hopens (f : TaskField) : metaStore.Opens (faultlessTask f) :=
    ⟨rfl, (Option.some_ne_none _).symm⟩
  have hdone (f : TaskField) : Completes faultlessTask zeroTask f := by
    rw [Completes, faultlessTask, writeEntryToFile_none]
    exact ⟨rfl, trivial⟩
  have hall := hiff.2 fun f =>
    (settled_iff_of_short shortPath_zeroTask f).2 (.inl ⟨hopens f, hdone f⟩)
  exact ⟨files', hstore, hall _, hall _, hall _, hall _, hall _⟩

/-- Calls whose file operations succeed, but for that of the status, which cannot open its file. -/
def statusClosed : TaskField → PutCall := fun f => ⟨if f = .status then some .fopen else none, 0⟩

/-- In an empty directory the status is not found after the call, which has returned `META_OK`. -/
theorem status_lost : ∃ files',
    metaStore.storeTaskInfo statusClosed (fun _ => none) zeroTask = some (files', .ok ()) ∧
      metaStore.getInt64 true files' (TaskField.status.key 0) = some (.error .notFound) := by
  obtain ⟨path, hpath⟩ := metaStore.exists_path zeroTask.taskId
  refine ⟨_, storeTaskInfo_eq _ hpath, ?_⟩
  have hlast : metaStore.lastOpened statusClosed zeroTask.taskId .status = none :=
    lastOpened_of_short shortPath_zeroTask .status
  rw [lastOpened_eq hpath] at hlast
  rcases foldl_place path (metaStore.leftBy statusClosed zeroTask) (fun _ => none) TaskField.all
    (path .status) with ⟨-, hfile⟩ | ⟨g, hsome, -⟩
  · rw [show (0 : UInt64) = zeroTask.taskId from rfl, getInt64_eq (hpath .status), hfile]
    rfl
  · rw [hlast] at hsome
    cases hsome

end MetadataStore

end DistributedComputing
