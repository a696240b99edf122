import DistributedComputing.Storage.MetadataMap

/-!
# Experiment records

`metadata_store_experiment` stores the description, the model and, if there is one, the
configuration of an experiment under three keys that differ behind the id only. The key is printed
into a buffer of 256 bytes, the path into one of 4096, and what does not fit is cut off without an
error. Where the cut takes the first letter that differs, the three strings go to one file, and the
last one stays (`exists_storeExperiment`).

`metadata_store_get_string` is called with the whole key. It finds the file of the shortened one,
since `sanitise_key` shortens it in the same place, but for the key whose bytes 254 and 255 are both
dots: there it writes behind its buffer (`buildFilePath_key`). `record_readable_iff` puts this
together.

Null arguments are left out, but for the configuration and the tag, which may be null.
-/

namespace DistributedComputing

open Bytes

/-! ### Strings in the store -/

/-- The entry that `metadata_store_put_string` fills in. What it does not set is zero. -/
def stringEntry (now : Int64) (key value : List UInt8) (tag : Option (List UInt8)) :
    MetadataEntry where
  key := fill metaMaxKeyLen (strncpy (metaMaxKeyLen - 1) key)
  tagCount := if tag.isSome then 1 else 0
  created := now
  modified := now
  tags := .ofFn fun i =>
    fill metaMaxTagLen (if i.val = 0 then strncpy (metaMaxTagLen - 1) (tag.getD []) else [])
  value := .string (fill metaMaxValueLen (strncpy (metaMaxValueLen - 1) value))

/-- What the operating system contributes to a call: how the file operations fail, if they do, and
the time. -/
structure PutCall where
  fault : Option WriteFault
  now : Int64

/-- The end of `metadata_store_get_string`: the copy into the caller's buffer. It is `none` where
the copy leaves one of the two buffers. -/
def MetadataEntry.copyString (e : MetadataEntry) (valueSize : ℕ) :
    Option (Except MetaError (List UInt8)) :=
  match e.value with
  | .string s =>
    if valueSize = 0 ∨ (0 ∉ s.toList ∧ metaMaxValueLen < valueSize - 1) then none
    else some (.ok (strncpy (valueSize - 1) s.toList))
  | _ => some (.error .invalidArg)

namespace MetadataStore

/-- `metadata_store_put_string`. -/
def putString (store : MetadataStore) (call : PutCall) (files : Files) (key value : List UInt8)
    (tag : Option (List UInt8)) : Option (Files × Except MetaError Unit) :=
  store.put call.fault files (stringEntry call.now key value tag)

/-- `metadata_store_get_string`. -/
def getString (store : MetadataStore) (allocated : Bool) (files : Files) (key : List UInt8)
    (valueSize : ℕ) : Option (Except MetaError (List UInt8)) :=
  (store.get allocated files key).bind fun r =>
    match r with
    | .error err => some (.error err)
    | .ok e => e.copyString valueSize

/-- The file holds a string. -/
def Holds (files : Files) (path value : List UInt8) : Prop :=
  ∃ now key tag, files path = some (stringEntry now key value tag).items.flatten

variable {store : MetadataStore} {files : Files} {key value path : List UInt8}

theorem holds_update (files : Files) (path : List UInt8) (now : Int64) (key value : List UInt8)
    (tag : Option (List UInt8)) :
    Holds (Function.update files path (some (stringEntry now key value tag).items.flatten)) path
      value :=
  ⟨now, key, tag, Function.update_self ..⟩

theorem Holds.update_of_ne (h : Holds files path value) {path' : List UInt8} (hne : path ≠ path')
    (bytes : Option (List UInt8)) : Holds (Function.update files path' bytes) path value := by
  obtain ⟨now, key, tag, hfile⟩ := h
  exact ⟨now, key, tag, (Function.update_of_ne hne ..).trans hfile⟩

/-- A string under a key that fits goes to the file of the key. -/
theorem putString_eq (hw : store.readOnly = false) {call : PutCall} (hcall : call.fault = none)
    (hne : key ≠ []) (h0 : 0 ∉ key) (hlen : key.length < metaMaxKeyLen)
    (hpath : store.buildFilePath key = some path) (tag : Option (List UInt8)) :
    store.putString call files key value tag = some (Function.update files path
      (some (stringEntry call.now key value tag).items.flatten), .ok ()) := by
  have hkey : (stringEntry call.now key value tag).keyString = key :=
    cString_fill_strncpy h0 hlen
  have hvalid : (stringEntry call.now key value tag).ValidKey :=
    MetadataEntry.validKey_of_keyString hkey hne hlen
  rw [putString, hcall]
  exact put_of_valid hw hvalid (by rw [hkey, hpath])

theorem getString_of_holds {valueSize : ℕ} (hsize : value.length < valueSize) (h0 : 0 ∉ value)
    (hlen : value.length < metaMaxValueLen) (hpath : store.buildFilePath key = some path)
    (hfile : Holds files path value) :
    store.getString true files key valueSize = some (.ok value) := by
  obtain ⟨now, key', tag, hfile⟩ := hfile
  have hbuffer : cString (fill metaMaxValueLen (strncpy (metaMaxValueLen - 1) value)).toList =
      value := cString_fill_strncpy h0 hlen
  have hzero : 0 ∈ (fill metaMaxValueLen (strncpy (metaMaxValueLen - 1) value)).toList := by
    by_contra hno
    rw [cString_eq_self hno] at hbuffer
    have hfull := congrArg List.length hbuffer
    rw [Vector.length_toList] at hfull
    omega
  have hin : ¬ (valueSize = 0 ∨ (0 ∉ (fill metaMaxValueLen
      (strncpy (metaMaxValueLen - 1) value)).toList ∧ metaMaxValueLen < valueSize - 1)) := by
    rintro (rfl | ⟨hno, -⟩)
    · cases hsize
    · exact hno hzero
  have hstored : readEntryFromFile true (files path) = .ok (stringEntry now key' value tag) :=
    hfile ▸ readEntry_of_storable trivial trivial
  have hread : store.get true files key = some (.ok (stringEntry now key' value tag)) := by
    rw [get, hpath, Option.map_some, hstored]
  rw [getString, hread]
  show (stringEntry now key' value tag).copyString valueSize = some (.ok value)
  refine (if_neg hin).trans ?_
  rw [strncpy, hbuffer, List.take_of_length_le (by omega)]

end MetadataStore

/-! ### Experiments -/

/-- What is stored of an experiment. -/
inductive ExperimentField
  | description
  | model
  | config
  deriving DecidableEq, Repr

/-- The tag `experiment`. -/
def experimentTag : List UInt8 := [0x65, 0x78, 0x70, 0x65, 0x72, 0x69, 0x6D, 0x65, 0x6E, 0x74]

namespace ExperimentField

/-- The first letter. -/
def letter : ExperimentField → UInt8
  | description => 0x64
  | model => 0x6D
  | config => 0x63

/-- The other letters of `description`, `model` and `config`. -/
def others : ExperimentField → List UInt8
  | description => [0x65, 0x73, 0x63, 0x72, 0x69, 0x70, 0x74, 0x69, 0x6F, 0x6E]
  | model => [0x6F, 0x64, 0x65, 0x6C]
  | config => [0x6F, 0x6E, 0x66, 0x69, 0x67]

/-- The key `experiment.<id>.<field>`. -/
def key (f : ExperimentField) (id : List UInt8) : List UInt8 :=
  experimentTag ++ dot :: (id ++ dot :: f.letter :: f.others)

/-- The size of the buffer for the key. -/
def keySize : ℕ := 256

/-- The key as `snprintf` leaves it in the buffer. -/
def printedKey (f : ExperimentField) (id : List UInt8) : List UInt8 := (f.key id).take (keySize - 1)

end ExperimentField

/-- The arguments of `metadata_store_experiment`. -/
structure Experiment where
  id : List UInt8
  description : List UInt8
  model : List UInt8
  config : Option (List UInt8)
  deriving DecidableEq, Repr

namespace Experiment

/-- The string that was given for a field. -/
def value (x : Experiment) : ExperimentField → Option (List UInt8)
  | .description => some x.description
  | .model => some x.model
  | .config => x.config

/-- The string that is stored last. -/
def last (x : Experiment) : List UInt8 := x.config.getD x.model

/-- The last string is one of those that were given. -/
theorem exists_value_eq_last (x : Experiment) : ∃ f, x.value f = some x.last := by
  rcases hconfig : x.config with - | c
  · exact ⟨.model, by rw [last, hconfig]; rfl⟩
  · exact ⟨.config, by rw [last, hconfig]; exact hconfig⟩

/-- The strings end where they should, the id is no path, and every value fits. -/
structure WellFormed (x : Experiment) : Prop where
  no_zero : 0 ∉ x.id
  plain : Plain x.id
  value_no_zero : ∀ f v, x.value f = some v → 0 ∉ v
  value_length : ∀ f v, x.value f = some v → v.length < metaMaxValueLen

/-- A buffer of the size has room for every string that was given, and a zero. -/
def Fits (x : Experiment) (valueSize : ℕ) : Prop := ∀ f v, x.value f = some v → v.length < valueSize

end Experiment

namespace MetadataStore

/-- `metadata_store_experiment`. Nobody looks at what the three calls return. -/
def storeExperiment (store : MetadataStore) (calls : ExperimentField → PutCall) (files : Files)
    (x : Experiment) : Option (Files × Except MetaError Unit) := do
  let put (files : Files) (f : ExperimentField) (v : List UInt8) :=
    store.putString (calls f) files (f.printedKey x.id) v (some experimentTag)
  let r ← put files .description x.description
  let r ← put r.1 .model x.model
  match x.config with
  | none => pure (r.1, .ok ())
  | some c =>
    let r ← put r.1 .config c
    pure (r.1, .ok ())

/-- Everything that was given is read back under its key. -/
def ReadsBack (store : MetadataStore) (files : Files) (valueSize : ℕ) (x : Experiment) : Prop :=
  ∀ f v, x.value f = some v → store.getString true files (f.key x.id) valueSize = some (.ok v)

end MetadataStore

/-! ### The keys -/

namespace ExperimentField

/-- The key up to the letter in which the fields differ. -/
def front (id : List UInt8) : List UInt8 := experimentTag ++ dot :: (id ++ [dot])

theorem key_eq (f : ExperimentField) (id : List UInt8) :
    f.key id = front id ++ f.letter :: f.others := by
  simp [key, front]

theorem length_front (id : List UInt8) : (front id).length = id.length + 12 := by
  simp [front, experimentTag]

theorem letter_injective {f g : ExperimentField} (h : f.letter = g.letter) : f = g := by
  revert h
  cases f <;> cases g <;> decide

theorem dot_not_mem (f : ExperimentField) : dot ∉ f.letter :: f.others := by
  cases f <;> decide

theorem letter_other (f : ExperimentField) : ¬ (f.letter = slash ∨ f.letter = backslash) := by
  cases f <;> decide

theorem zero_not_mem_key {id : List UInt8} (h : 0 ∉ id) (f : ExperimentField) : 0 ∉ f.key id := by
  have hfield : 0 ∉ f.letter :: f.others := by
    cases f <;> decide
  have htag : 0 ∉ experimentTag := by decide
  have hdot : 0 ≠ dot := by decide
  simp only [key, List.mem_append, List.mem_cons, not_or] at hfield ⊢
  exact ⟨htag, hdot, h, hdot, hfield⟩

theorem length_printedKey_lt (f : ExperimentField) (id : List UInt8) :
    (f.printedKey id).length < metaMaxKeyLen :=
  Nat.lt_of_le_of_lt (List.length_take_le _ _) (by decide)

/-- The printed key is a key of the store. -/
theorem printedKey_fits {id : List UInt8} (h : 0 ∉ id) (f : ExperimentField) :
    f.printedKey id ≠ [] ∧ 0 ∉ f.printedKey id ∧ (f.printedKey id).length < metaMaxKeyLen := by
  refine ⟨?_, fun h0 => zero_not_mem_key h f (List.mem_of_mem_take h0), f.length_printedKey_lt id⟩
  rw [printedKey, key, experimentTag]
  exact List.cons_ne_nil _ _

theorem printedKey_of_long {id : List UInt8} (h : 242 < id.length) (f : ExperimentField) :
    f.printedKey id = (front id).take (keySize - 1) := by
  have hle : keySize - 1 ≤ (front id).length := by
    rw [length_front, keySize]
    omega
  rw [printedKey, key_eq, List.take_append_of_le_length hle]

/-- Otherwise, it is still there. -/
theorem printedKey_of_short {id : List UInt8} (h : id.length ≤ 242) (f : ExperimentField) :
    f.printedKey id = front id ++ f.letter :: f.others.take (242 - id.length) := by
  have hroom : keySize - 1 = (front id).length + (242 - id.length + 1) := by
    rw [length_front, keySize]
    omega
  rw [printedKey, key_eq, hroom, List.take_length_add_append, List.take_succ_cons]

/-- The bytes of the key behind its tag. -/
theorem getElem?_key (f : ExperimentField) (id : List UInt8) (i : ℕ) :
    (f.key id)[i + 11]? = (id ++ dot :: f.letter :: f.others)[i]? := by
  rw [key, experimentTag]
  rfl

end ExperimentField

/-- The id ends in a dot at byte 254 of the key, and the next byte of the key is the dot behind it.
-/
def Straddles (id : List UInt8) : Prop := id.length = 244 ∧ id.getLast? = some dot

theorem Plain.not_dots_at {key : List UInt8} (h : Plain key) {i : ℕ} (hi : key[i]? = some dot) :
    key[i + 1]? ≠ some dot := by
  intro hi'
  obtain ⟨hlt, hget⟩ := List.getElem?_eq_some_iff.1 hi
  obtain ⟨hlt', hget'⟩ := List.getElem?_eq_some_iff.1 hi'
  refine h.no_dots ⟨key.take i, key.drop (i + 2), ?_⟩
  have hdrop : key.drop i = dot :: dot :: key.drop (i + 2) := by
    rw [List.drop_eq_getElem_cons hlt, List.drop_eq_getElem_cons hlt', hget, hget']
  rw [List.append_assoc]
  exact (congrArg (key.take i ++ ·) hdrop.symm).trans (List.take_append_drop i key)

namespace ExperimentField

variable {id : List UInt8}

/-- The key is too long for `sanitise_key` in one case only. -/
theorem sanitiseKey_key_eq_none_iff (hid : Plain id) (f : ExperimentField) :
    sanitiseKey (metaMaxKeyLen - 1) (f.key id) = none ↔ Straddles id := by
  constructor
  · intro h
    obtain ⟨i, hroom, hi, hi'⟩ := dots_of_sanitiseKey_eq_none h
    obtain rfl : i = 243 + 11 := by
      rw [metaMaxKeyLen] at hroom
      omega
    rw [getElem?_key] at hi
    rw [show 243 + 11 + 1 = 244 + 11 from rfl, getElem?_key] at hi'
    rcases Nat.lt_trichotomy id.length 244 with hlt | heq | hgt
    · -- both bytes would be behind the id
      obtain ⟨n, hn⟩ : ∃ n, 244 - id.length = n + 1 := ⟨243 - id.length, by omega⟩
      rw [List.getElem?_append_right hlt.le, hn, List.getElem?_cons_succ] at hi'
      exact absurd (List.mem_of_getElem? hi') f.dot_not_mem
    · refine ⟨heq, ?_⟩
      rw [List.getElem?_append_left (by omega)] at hi
      rw [List.getLast?_eq_getElem?, heq]
      exact hi
    · rw [List.getElem?_append_left (by omega)] at hi hi'
      exact absurd hi' (hid.not_dots_at hi)
  · rintro ⟨hlen, hlast⟩
    obtain ⟨body, rfl⟩ := List.getLast?_eq_some_iff.1 hlast
    have hbody : body.length = 243 := by
      rw [List.length_append, List.length_singleton] at hlen
      omega
    have hkey : f.key (body ++ [dot]) =
        (experimentTag ++ dot :: body) ++ dot :: dot :: f.letter :: f.others := by
      simp [key]
    have hfront : (experimentTag ++ dot :: body).length = 254 := by
      rw [List.length_append, List.length_cons, hbody]
      rfl
    have hcut : (experimentTag ++ dot :: body).getLast? ≠ some dot := by
      intro h
      rw [List.getLast?_eq_getElem?, hfront] at h
      have hbyte : body[242]? = some dot := by
        rw [← h, experimentTag]
        rfl
      refine hid.not_dots_at (i := 242) ?_ ?_
      · rw [List.getElem?_append_left (by omega), hbyte]
      · rw [List.getElem?_append_right (by omega), hbody]
        rfl
    have hback : sanitiseKey 1 (dot :: dot :: f.letter :: f.others) = none := rfl
    rw [hkey, show metaMaxKeyLen - 1 = 254 + 1 from rfl,
      sanitiseKey_append hfront 1 fun h => hcut h.1, hback]
    exact Option.bind_fun_none _

end ExperimentField

/-! ### The files -/

namespace MetadataStore

open ExperimentField

variable {store : MetadataStore} {files : Files} {id : List UInt8}

/-- `get` looks for the file that `put` has written, or writes behind its buffer. -/
theorem buildFilePath_key (hid : Plain id) (f : ExperimentField) :
    (Straddles id → store.buildFilePath (f.key id) = none) ∧
      (¬ Straddles id →
        store.buildFilePath (f.key id) = store.buildFilePath (f.printedKey id)) := by
  refine ⟨fun h => ?_, fun h => ?_⟩
  · rw [buildFilePath, (sanitiseKey_key_eq_none_iff hid f).2 h, Option.map_none]
  · have hsome := mt (sanitiseKey_key_eq_none_iff hid f).1 h
    obtain ⟨name, hname⟩ := Option.ne_none_iff_exists'.1 hsome
    rw [buildFilePath, buildFilePath, hname]
    exact congrArg (Option.map _) (sanitiseKey_take hname).symm

/-- The fields have files of their own as long as the letter fits into both buffers. -/
def LettersFit (store : MetadataStore) (id : List UInt8) : Prop :=
  id.length ≤ 242 ∧ store.path.length + id.length ≤ 4081

instance : Decidable (store.LettersFit id) := inferInstanceAs (Decidable (_ ∧ _))

/-- The paths have the letter behind a part that all fields share. -/
theorem exists_path_of_short (store : MetadataStore) (h : id.length ≤ 242) :
    ∃ head, head.length = store.path.length + id.length + 13 ∧ ∀ f : ExperimentField, ∃ rest,
      store.buildFilePath (f.printedKey id) =
        some ((head ++ f.letter :: rest).take (pathSize - 1)) := by
  have hfront : (front id).length + 1 < metaMaxKeyLen := by
    rw [length_front, metaMaxKeyLen]
    omega
  obtain ⟨head, hlen, hpath⟩ := store.exists_buildFilePath_append hfront
  refine ⟨head, ?_, fun f => ?_⟩
  · rw [hlen, length_front]
    omega
  · have hprinted := printedKey_of_short h f
    rw [hprinted]
    refine hpath f.letter _ f.letter_other (fun hdot => f.dot_not_mem ?_) ?_
    · exact hdot ▸ List.mem_cons_self
    · rw [← hprinted]
      exact f.length_printedKey_lt id

theorem path_injective (h : store.LettersFit id) {f g : ExperimentField}
    (heq : store.buildFilePath (f.printedKey id) = store.buildFilePath (g.printedKey id)) :
    f = g := by
  obtain ⟨head, hlen, hpath⟩ := store.exists_path_of_short h.1
  obtain ⟨rest, hf⟩ := hpath f
  obtain ⟨rest', hg⟩ := hpath g
  rw [hf, hg] at heq
  have hfits : head.length < pathSize - 1 := by
    have := h.2
    rw [hlen, pathSize]
    omega
  exact letter_injective (eq_of_take_append hfits (Option.some.inj heq))

theorem path_eq (h : ¬ store.LettersFit id) (f g : ExperimentField) :
    store.buildFilePath (f.printedKey id) = store.buildFilePath (g.printedKey id) := by
  rcases Nat.lt_or_ge 242 id.length with hlong | hshort
  · rw [printedKey_of_long hlong, printedKey_of_long hlong]
  · obtain ⟨front, hlen, hpath⟩ := store.exists_path_of_short hshort
    obtain ⟨rest, hf⟩ := hpath f
    obtain ⟨rest', hg⟩ := hpath g
    have hle : pathSize - 1 ≤ front.length := by
      have hpath : ¬ store.path.length + id.length ≤ 4081 := fun hle => h ⟨hshort, hle⟩
      rw [hlen, pathSize]
      omega
    rw [hf, hg, List.take_append_of_le_length hle, List.take_append_of_le_length hle]

/-- **What the calls leave.** Without a fault, every string is in its file if the files are
different, and the last one in all of them if they are the same. -/
theorem exists_storeExperiment (hw : store.readOnly = false) {x : Experiment} (h0 : 0 ∉ x.id)
    {calls : ExperimentField → PutCall} (hcalls : ∀ f, (calls f).fault = none) (files : Files)
    {path : ExperimentField → List UInt8}
    (hpath : ∀ f, store.buildFilePath (f.printedKey x.id) = some (path f)) :
    ∃ files', store.storeExperiment calls files x = some (files', .ok ()) ∧
      (Function.Injective path → ∀ f v, x.value f = some v → Holds files' (path f) v) ∧
      ((∀ f g, path f = path g) → ∀ f, Holds files' (path f) x.last) := by
  have hput (files : Files) (f : ExperimentField) (v : List UInt8) :
      store.putString (calls f) files (f.printedKey x.id) v (some experimentTag) =
        some (Function.update files (path f) (some (stringEntry (calls f).now (f.printedKey x.id) v
          (some experimentTag)).items.flatten), .ok ()) :=
    have hfits := printedKey_fits h0 f
    putString_eq hw (hcalls f) hfits.1 hfits.2.1 hfits.2.2 (hpath f) _
  rcases hconfig : x.config with - | c
  · refine ⟨_, by simp only [storeExperiment, hput, hconfig]; rfl, fun hinj f v hv => ?_,
      fun heq f => ?_⟩
    · have hne : path .description ≠ path .model := fun h => ExperimentField.noConfusion (hinj h)
      cases f with
      | description =>
        cases hv
        exact (holds_update ..).update_of_ne hne _
      | model =>
        cases hv
        exact holds_update ..
      | config => cases hconfig.symm.trans hv
    · rw [heq f .model, Experiment.last, hconfig]
      exact holds_update ..
  · refine ⟨_, by simp only [storeExperiment, hput, hconfig]; rfl, fun hinj f v hv => ?_,
      fun heq f => ?_⟩
    · have hne {f g : ExperimentField} (h : f ≠ g) : path f ≠ path g := hinj.ne h
      cases f with
      | description =>
        cases hv
        exact ((holds_update ..).update_of_ne (hne (by decide)) _).update_of_ne (hne (by decide)) _
      | model =>
        cases hv
        exact (holds_update ..).update_of_ne (hne (by decide)) _
      | config =>
        cases hconfig.symm.trans hv
        exact holds_update ..
    · rw [heq f .config, Experiment.last, hconfig]
      exact holds_update ..

variable {x : Experiment} {calls : ExperimentField → PutCall} {valueSize : ℕ}

theorem getString_key (hx : x.WellFormed) (hsize : x.Fits valueSize)
    (hcut : ¬ Straddles x.id) {f g : ExperimentField} {v path : List UInt8}
    (hpath : store.buildFilePath (f.printedKey x.id) = some path) (hv : x.value g = some v)
    (hfile : Holds files path v) :
    store.getString true files (f.key x.id) valueSize = some (.ok v) :=
  getString_of_holds (hsize g v hv) (hx.value_no_zero g v hv) (hx.value_length g v hv)
    (((buildFilePath_key hx.plain f).2 hcut).trans hpath) hfile

theorem getString_key_of_straddles (hx : x.WellFormed) (hcut : Straddles x.id)
    (f : ExperimentField) : store.getString true files (f.key x.id) valueSize = none := by
  rw [getString, get, (buildFilePath_key hx.plain f).1 hcut]
  rfl

theorem readsBack_of_lettersFit (hw : store.readOnly = false) (hx : x.WellFormed)
    (hcalls : ∀ f, (calls f).fault = none) (files : Files) (hsize : x.Fits valueSize)
    (hfit : store.LettersFit x.id) :
    ∃ files', store.storeExperiment calls files x = some (files', .ok ()) ∧
      store.ReadsBack files' valueSize x := by
  choose path hpath using fun f : ExperimentField =>
    store.exists_buildFilePath (printedKey_fits hx.no_zero f).2.2
  obtain ⟨files', hstore, hown, -⟩ := exists_storeExperiment hw hx.no_zero hcalls files hpath
  have hcut : ¬ Straddles x.id := fun h => absurd (h.1 ▸ hfit.1) (by decide)
  have hinj : Function.Injective path := fun f g heq =>
    path_injective hfit (by rw [hpath, hpath, heq])
  exact ⟨files', hstore, fun f v hv => getString_key hx hsize hcut (hpath f) hv (hown hinj f v hv)⟩

/-- Where all fields share a file, only the last string is read, under any of the keys. -/
theorem readsBack_iff_of_not_lettersFit (hw : store.readOnly = false) (hx : x.WellFormed)
    (hcalls : ∀ f, (calls f).fault = none) (files : Files) (hsize : x.Fits valueSize)
    (hfit : ¬ store.LettersFit x.id) :
    ∃ files', store.storeExperiment calls files x = some (files', .ok ()) ∧
      (store.ReadsBack files' valueSize x ↔
        (∀ f v, x.value f = some v → v = x.last) ∧ ¬ Straddles x.id) := by
  choose path hpath using fun f : ExperimentField =>
    store.exists_buildFilePath (printedKey_fits hx.no_zero f).2.2
  obtain ⟨files', hstore, -, hlast⟩ := exists_storeExperiment hw hx.no_zero hcalls files hpath
  have hsame (f g : ExperimentField) : path f = path g :=
    Option.some.inj (((hpath f).symm.trans (path_eq hfit f g)).trans (hpath g))
  obtain ⟨g, hg⟩ := x.exists_value_eq_last
  have hread (hcut : ¬ Straddles x.id) (f : ExperimentField) :
      store.getString true files' (f.key x.id) valueSize = some (.ok x.last) :=
    getString_key hx hsize hcut (hpath f) hg (hlast hsame f)
  refine ⟨files', hstore, fun h => ?_, ?_⟩
  · have hcut : ¬ Straddles x.id := fun hcut => by
      have hget := h g _ hg
      rw [getString_key_of_straddles hx hcut] at hget
      cases hget
    refine ⟨fun f v hv => ?_, hcut⟩
    have hget := (h f v hv).symm.trans (hread hcut f)
    exact Except.ok.inj (Option.some.inj hget)
  · rintro ⟨hall, hcut⟩ f v hv
    rw [hall f v hv]
    exact hread hcut f

/-- **Experiment records.** On a store that takes writes, everything that was given is read back
exactly if the first letter of the field's name fits into both buffers, or if the same string was
given for all fields and the key is not cut between two dots. -/
theorem record_readable_iff (hw : store.readOnly = false) (hx : x.WellFormed)
    (hcalls : ∀ f, (calls f).fault = none) (files : Files) (hsize : x.Fits valueSize) :
    ∃ files', store.storeExperiment calls files x = some (files', .ok ()) ∧
      (store.ReadsBack files' valueSize x ↔
        store.LettersFit x.id ∨
          ((∀ f v, x.value f = some v → v = x.last) ∧ ¬ Straddles x.id)) := by
  by_cases hfit : store.LettersFit x.id
  · obtain ⟨files', hstore, hread⟩ := readsBack_of_lettersFit hw hx hcalls files hsize hfit
    exact ⟨files', hstore, iff_of_true hread (.inl hfit)⟩
  · obtain ⟨files', hstore, hiff⟩ := readsBack_iff_of_not_lettersFit hw hx hcalls files hsize hfit
    exact ⟨files', hstore, hiff.trans (or_iff_right hfit).symm⟩

/-- Calls whose file operations succeed. -/
def faultless : ExperimentField → PutCall := fun _ => ⟨none, 0⟩

/-- An experiment with the id `aa…a`, the description `b` and the model `c`. -/
def letterExperiment (n : ℕ) : Experiment := ⟨List.replicate n 0x61, [0x62], [0x63], none⟩

theorem value_letterExperiment {n : ℕ} {f : ExperimentField} {v : List UInt8}
    (h : (letterExperiment n).value f = some v) : v = [0x62] ∨ v = [0x63] := by
  cases f with
  | description => exact .inl (Option.some.inj h).symm
  | model => exact .inr (Option.some.inj h).symm
  | config => cases h

theorem wellFormed_letterExperiment (n : ℕ) : (letterExperiment n).WellFormed where
  no_zero := fun h => absurd (List.eq_of_mem_replicate h) (by decide)
  plain :=
    { no_slash := fun h => absurd (List.eq_of_mem_replicate h) (by decide)
      no_backslash := fun h => absurd (List.eq_of_mem_replicate h) (by decide)
      no_dots := fun h =>
        absurd (List.eq_of_mem_replicate (h.subset List.mem_cons_self)) (by decide) }
  value_no_zero := fun f v h => by rcases value_letterExperiment h with rfl | rfl <;> decide
  value_length := fun f v h => by rcases value_letterExperiment h with rfl | rfl <;> decide

theorem fits_letterExperiment (n : ℕ) : (letterExperiment n).Fits 2 := fun f v h => by
  rcases value_letterExperiment h with rfl | rfl <;> decide

theorem record_readable_iff_letter :
    ∃ files', metaStore.storeExperiment faultless (fun _ => none) (letterExperiment 1) =
        some (files', .ok ()) ∧ metaStore.ReadsBack files' 2 (letterExperiment 1) := by
  have hw : metaStore.readOnly = false := rfl
  have hcalls (f : ExperimentField) : (faultless f).fault = none := rfl
  obtain ⟨files', hstore, hiff⟩ := record_readable_iff hw (wellFormed_letterExperiment 1) hcalls
    (fun _ => none) (fits_letterExperiment 1)
  exact ⟨files', hstore, hiff.2 (.inl (by decide))⟩

/-- Where the letter does not fit, the model is read for the description. -/
theorem description_lost (hw : store.readOnly = false) {n : ℕ}
    (h : ¬ (n ≤ 242 ∧ store.path.length + n ≤ 4081)) :
    ∃ files', store.storeExperiment faultless (fun _ => none) (letterExperiment n) =
      some (files', .ok ()) ∧ ¬ store.ReadsBack files' 2 (letterExperiment n) := by
  have hcalls (f : ExperimentField) : (faultless f).fault = none := rfl
  have hlen : (letterExperiment n).id.length = n := List.length_replicate
  have hfit : ¬ store.LettersFit (letterExperiment n).id := by
    rw [LettersFit, hlen]
    exact h
  obtain ⟨files', hstore, hiff⟩ := readsBack_iff_of_not_lettersFit hw
    (wellFormed_letterExperiment n) hcalls (fun _ => none) (fits_letterExperiment n) hfit
  refine ⟨files', hstore, fun hread => ?_⟩
  have hsame : ([0x62] : List UInt8) = [0x63] := (hiff.1 hread).1 .description _ rfl
  exact absurd hsame (by decide)

/-- A store whose directory has a path of 4000 bytes. -/
def deepStore : MetadataStore := ⟨List.replicate 4000 0x61, false⟩

/-- The description is lost with an id of 243 letters. In the deep directory 82 letters are enough,
and the name of the file has no more than 94. -/
theorem description_lost_for_long_names :
    (∃ files', metaStore.storeExperiment faultless (fun _ => none) (letterExperiment 243) =
        some (files', .ok ()) ∧ ¬ metaStore.ReadsBack files' 2 (letterExperiment 243)) ∧
      ∃ files', deepStore.storeExperiment faultless (fun _ => none) (letterExperiment 82) =
        some (files', .ok ()) ∧ ¬ deepStore.ReadsBack files' 2 (letterExperiment 82) := by
  have hdeep : deepStore.path.length = 4000 := List.length_replicate
  exact ⟨description_lost rfl (by omega), description_lost rfl (by omega)⟩

end MetadataStore

end DistributedComputing
