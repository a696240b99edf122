import DistributedComputing.Storage.MetadataFile

/-!
# The metadata store

The store keeps one file per key in a directory. The name of the file comes from `sanitise_key`,
which replaces slashes and backslashes by one underscore and two dots by two, and the path from
`snprintf` into a buffer of 4096 bytes. Neither is injective: different keys can have the same file.

`put`, `get` and `delete` work on the files of the directory, a map from paths to contents. They are
`none` where `sanitise_key` writes its terminating zero behind the buffer, which happens for no key
of at most 255 bytes (`exists_sanitiseKey`). Plain keys, in a directory with a path that leaves room
for them, have files of their own (`buildFilePath_of_plain`).

Null arguments are left out.
-/

namespace DistributedComputing

open Bytes

/-! ### File names -/

/-- The byte `/`. -/
def slash : UInt8 := 0x2F

/-- The byte `\`. -/
def backslash : UInt8 := 0x5C

/-- The byte `.`. -/
def dot : UInt8 := 0x2E

/-- The byte `_`. -/
def underscore : UInt8 := 0x5F

/-- The suffix `.meta`. -/
def metaSuffix : List UInt8 := [0x2E, 0x6D, 0x65, 0x74, 0x61]

/-- `sanitise_key`, with the room that is left in the buffer before the terminating zero. With room
for one byte only, two dots fill the buffer, and the zero is written behind it. -/
def sanitiseKey : ℕ → List UInt8 → Option (List UInt8)
  | 0, _ => some []
  | _ + 1, [] => some []
  | room + 1, c :: rest =>
    if c = slash ∨ c = backslash then (sanitiseKey room rest).map (underscore :: ·)
    else if c = dot ∧ rest.head? = some dot then
      match room with
      | 0 => none
      | room + 1 => (sanitiseKey room rest.tail).map (underscore :: underscore :: ·)
    else (sanitiseKey room rest).map (c :: ·)

theorem sanitiseKey_of_slash {room : ℕ} {c : UInt8} {rest : List UInt8}
    (h : c = slash ∨ c = backslash) :
    sanitiseKey (room + 1) (c :: rest) = (sanitiseKey room rest).map (underscore :: ·) := by
  rw [sanitiseKey.eq_def]
  exact if_pos h

theorem sanitiseKey_of_dots {room : ℕ} {c : UInt8} {rest : List UInt8}
    (hslash : ¬ (c = slash ∨ c = backslash)) (h : c = dot ∧ rest.head? = some dot) :
    sanitiseKey (room + 2) (c :: rest) =
      (sanitiseKey room rest.tail).map (underscore :: underscore :: ·) := by
  rw [sanitiseKey.eq_def]
  exact (if_neg hslash).trans (if_pos h)

theorem sanitiseKey_of_other {room : ℕ} {c : UInt8} {rest : List UInt8}
    (hslash : ¬ (c = slash ∨ c = backslash)) (h : ¬ (c = dot ∧ rest.head? = some dot)) :
    sanitiseKey (room + 1) (c :: rest) = (sanitiseKey room rest).map (c :: ·) := by
  rw [sanitiseKey.eq_def]
  exact (if_neg hslash).trans (if_neg h)

/-- **No overflow.** A key that fits is sanitised within the buffer, to a name of the same length.
-/
theorem exists_sanitiseKey {room : ℕ} {key : List UInt8} (h : key.length ≤ room) :
    ∃ name, sanitiseKey room key = some name ∧ name.length = key.length := by
  fun_induction sanitiseKey room key with
  | case1 key => exact ⟨[], rfl, (Nat.le_zero.1 h).symm⟩
  | case2 room => exact ⟨[], rfl, rfl⟩
  | case3 room c rest hslash ih =>
    obtain ⟨name, hname, hlen⟩ := ih (Nat.le_of_succ_le_succ h)
    exact ⟨_, by rw [hname]; rfl, congrArg (· + 1) hlen⟩
  | case4 c rest _ hdots =>
    -- two dots need room for two bytes
    obtain ⟨rest, rfl⟩ := List.head?_eq_some_iff.1 hdots.2
    exact absurd (Nat.le_of_succ_le_succ h) (Nat.not_succ_le_zero _)
  | case5 c rest _ hdots room ih =>
    obtain ⟨rest, rfl⟩ := List.head?_eq_some_iff.1 hdots.2
    obtain ⟨name, hname, hlen⟩ := ih (Nat.le_of_succ_le_succ (Nat.le_of_succ_le_succ h))
    exact ⟨_, by rw [hname]; rfl, congrArg (· + 2) hlen⟩
  | case6 room c rest _ _ ih =>
    obtain ⟨name, hname, hlen⟩ := ih (Nat.le_of_succ_le_succ h)
    exact ⟨_, by rw [hname]; rfl, congrArg (· + 1) hlen⟩

/-- The keys that `sanitise_key` does not change. -/
structure Plain (key : List UInt8) : Prop where
  no_slash : slash ∉ key
  no_backslash : backslash ∉ key
  no_dots : ¬ [dot, dot] <:+: key

theorem Plain.tail {c : UInt8} {key : List UInt8} (h : Plain (c :: key)) : Plain key where
  no_slash := List.not_mem_of_not_mem_cons h.no_slash
  no_backslash := List.not_mem_of_not_mem_cons h.no_backslash
  no_dots := fun hin => h.no_dots (hin.trans (List.suffix_cons c key).isInfix)

theorem Plain.not_dots {c : UInt8} {key : List UInt8} (h : Plain (c :: key)) :
    ¬ (c = dot ∧ key.head? = some dot) := by
  rintro ⟨rfl, hhead⟩
  obtain ⟨rest, rfl⟩ := List.head?_eq_some_iff.1 hhead
  exact h.no_dots ⟨[], rest, rfl⟩

theorem Plain.sanitiseKey_eq {room : ℕ} {key : List UInt8} (h : Plain key)
    (hroom : key.length ≤ room) : sanitiseKey room key = some key := by
  fun_induction sanitiseKey room key with
  | case1 key => rw [List.eq_nil_of_length_eq_zero (Nat.le_zero.1 hroom)]
  | case2 room => rfl
  | case3 room c rest hslash =>
    rcases hslash with rfl | rfl
    · exact absurd (List.mem_cons_self ..) h.no_slash
    · exact absurd (List.mem_cons_self ..) h.no_backslash
  | case4 c rest _ hdots => exact absurd hdots h.not_dots
  | case5 c rest _ hdots => exact absurd hdots h.not_dots
  | case6 room c rest _ _ ih => rw [ih h.tail (Nat.le_of_succ_le_succ hroom), Option.map_some]

/-! ### Keys in parts -/

/-- Only what fits is looked at, if nothing is written behind the buffer. -/
theorem sanitiseKey_take {room : ℕ} {key name : List UInt8} (h : sanitiseKey room key = some name) :
    sanitiseKey room (key.take room) = some name := by
  fun_induction sanitiseKey room key generalizing name with
  | case1 key => exact h
  | case2 room => exact h
  | case3 room c rest hslash ih =>
    obtain ⟨name, hname, rfl⟩ := Option.map_eq_some_iff.1 h
    rw [List.take_succ_cons, sanitiseKey_of_slash hslash, ih hname, Option.map_some]
  | case4 c rest _ hdots => cases h
  | case5 c rest hslash hdots room ih =>
    obtain ⟨name, hname, rfl⟩ := Option.map_eq_some_iff.1 h
    obtain ⟨rest, rfl⟩ := List.head?_eq_some_iff.1 hdots.2
    rw [List.take_succ_cons, List.take_succ_cons, sanitiseKey_of_dots hslash ⟨hdots.1, rfl⟩]
    exact congrArg (Option.map _) (ih hname)
  | case6 room c rest hslash hdots ih =>
    obtain ⟨name, hname, rfl⟩ := Option.map_eq_some_iff.1 h
    have hcut : ¬ (c = dot ∧ (rest.take room).head? = some dot) := by
      rintro ⟨hc, hhead⟩
      rw [List.head?_take] at hhead
      split at hhead
      · cases hhead
      · exact hdots ⟨hc, hhead⟩
    rw [List.take_succ_cons, sanitiseKey_of_other hslash hcut, ih hname, Option.map_some]

theorem dots_of_sanitiseKey_eq_none {room : ℕ} {key : List UInt8}
    (h : sanitiseKey room key = none) :
    ∃ i, room = i + 1 ∧ key[i]? = some dot ∧ key[i + 1]? = some dot := by
  fun_induction sanitiseKey room key with
  | case1 key => cases h
  | case2 room => cases h
  | case3 room c rest hslash ih =>
    obtain ⟨i, rfl, hi, hi'⟩ := ih (Option.map_eq_none_iff.1 h)
    exact ⟨i + 1, rfl, hi, hi'⟩
  | case4 c rest _ hdots =>
    exact ⟨0, rfl, congrArg some hdots.1, List.head?_eq_getElem?.symm.trans hdots.2⟩
  | case5 c rest _ hdots room ih =>
    obtain ⟨i, rfl, hi, hi'⟩ := ih (Option.map_eq_none_iff.1 h)
    obtain ⟨rest, rfl⟩ := List.head?_eq_some_iff.1 hdots.2
    exact ⟨i + 2, rfl, hi, hi'⟩
  | case6 room c rest _ _ ih =>
    obtain ⟨i, rfl, hi, hi'⟩ := ih (Option.map_eq_none_iff.1 h)
    exact ⟨i + 1, rfl, hi, hi'⟩

theorem map_append_bind (front : List UInt8) (name back : Option (List UInt8)) :
    (name.bind fun n => back.map (n ++ ·)).map (front ++ ·) =
      (name.map (front ++ ·)).bind fun n => back.map (n ++ ·) := by
  rw [Option.map_bind, Option.bind_map]
  simp only [Function.comp_def, Option.map_map, List.append_assoc]

theorem getLast?_cons_of_eq_some {c d : UInt8} {l : List UInt8} (h : l.getLast? = some d) :
    (c :: l).getLast? = some d := by
  rw [List.getLast?_cons, h, Option.getD_some]

theorem sanitiseKey_append {front back : List UInt8} {n : ℕ} (hn : front.length = n) (room : ℕ)
    (hcut : ¬ (front.getLast? = some dot ∧ back.head? = some dot)) :
    sanitiseKey (n + room) (front ++ back) =
      (sanitiseKey n front).bind fun name => (sanitiseKey room back).map (name ++ ·) := by
  fun_induction sanitiseKey n front with
  | case1 key =>
    rw [List.eq_nil_of_length_eq_zero hn, Nat.zero_add]
    exact Option.map_id'.symm
  | case2 n => cases hn
  | case3 n c rest hslash ih =>
    have hrest : ¬ (rest.getLast? = some dot ∧ back.head? = some dot) := fun h =>
      hcut ⟨getLast?_cons_of_eq_some h.1, h.2⟩
    rw [Nat.succ_add, List.cons_append, sanitiseKey_of_slash hslash, ih (Nat.succ.inj hn) hrest]
    exact map_append_bind [underscore] _ _
  | case4 c rest _ hdots =>
    rw [List.eq_nil_of_length_eq_zero (Nat.succ.inj hn)] at hdots
    cases hdots.2
  | case5 c rest hslash hdots n ih =>
    obtain ⟨rest, rfl⟩ := List.head?_eq_some_iff.1 hdots.2
    have hrest : ¬ (rest.getLast? = some dot ∧ back.head? = some dot) := fun h =>
      hcut ⟨getLast?_cons_of_eq_some (getLast?_cons_of_eq_some h.1), h.2⟩
    rw [Nat.succ_add, Nat.succ_add, List.cons_append, List.cons_append,
      sanitiseKey_of_dots hslash ⟨hdots.1, rfl⟩]
    refine (congrArg (Option.map _) (ih (Nat.succ.inj (Nat.succ.inj hn)) hrest)).trans ?_
    exact map_append_bind [underscore, underscore] _ _
  | case6 n c rest hslash hdots ih =>
    have hrest : ¬ (rest.getLast? = some dot ∧ back.head? = some dot) := fun h =>
      hcut ⟨getLast?_cons_of_eq_some h.1, h.2⟩
    -- the next byte is the first of the back, if the front ends here
    have hnext : ¬ (c = dot ∧ (rest ++ back).head? = some dot) := by
      rcases rest with - | ⟨d, rest⟩
      · exact fun h => hcut ⟨congrArg some h.1, h.2⟩
      · exact hdots
    rw [Nat.succ_add, List.cons_append, sanitiseKey_of_other hslash hnext,
      ih (Nat.succ.inj hn) hrest]
    exact map_append_bind [c] _ _

/-! ### The store -/

/-- `struct metadata_store`. -/
structure MetadataStore where
  path : List UInt8
  readOnly : Bool
  deriving DecidableEq, Repr

/-- The files of the directory, by path. -/
abbrev Files := List UInt8 → Option (List UInt8)

namespace MetadataStore

/-- The size of the buffers for paths. -/
def pathSize : ℕ := 4096

/-- `metadata_store_open`, for a directory that exists or could be created. -/
def openAt (path : List UInt8) : MetadataStore := ⟨(cString path).take (pathSize - 1), false⟩

/-- `meta_store` of the coordinator, in `./metadata`. -/
def metaStore : MetadataStore := openAt [0x2E, 0x2F, 0x6D, 0x65, 0x74, 0x61, 0x64, 0x61, 0x74, 0x61]

/-- `build_file_path`. -/
def buildFilePath (store : MetadataStore) (key : List UInt8) : Option (List UInt8) :=
  (sanitiseKey (metaMaxKeyLen - 1) key).map fun name =>
    (store.path ++ (slash :: (name ++ metaSuffix))).take (pathSize - 1)

/-- `metadata_store_put`: the files afterwards, and the result. -/
def put (store : MetadataStore) (fault : Option WriteFault) (files : Files) (e : MetadataEntry) :
    Option (Files × Except MetaError Unit) :=
  if store.readOnly then some (files, .error .invalidArg)
  else if e.keyString.length = 0 ∨ metaMaxKeyLen ≤ e.keyString.length then
    some (files, .error .invalidArg)
  else (store.buildFilePath e.keyString).map fun path =>
    let r := writeEntryToFile e fault
    match r.1 with
    | none => (files, r.2)
    | some bytes => (Function.update files path (some bytes), r.2)

/-- `metadata_store_get`. -/
def get (store : MetadataStore) (allocated : Bool) (files : Files) (key : List UInt8) :
    Option (Except MetaError MetadataEntry) :=
  (store.buildFilePath key).map fun path => readEntryFromFile allocated (files path)

/-- `metadata_store_delete`: the files afterwards, and the result. A file may refuse to be unlinked.
-/
def delete (store : MetadataStore) (unlinked : Bool) (files : Files) (key : List UInt8) :
    Option (Files × Except MetaError Unit) :=
  if store.readOnly then some (files, .error .invalidArg)
  else (store.buildFilePath key).map fun path =>
    match files path with
    | none => (files, .error .notFound)
    | some _ =>
      if unlinked then (Function.update files path none, .ok ()) else (files, .error .io)

variable {store : MetadataStore}

/-- Every key that fits has a path. -/
theorem exists_buildFilePath (store : MetadataStore) {key : List UInt8}
    (h : key.length < metaMaxKeyLen) : ∃ path, store.buildFilePath key = some path := by
  obtain ⟨name, hname, -⟩ := exists_sanitiseKey (Nat.le_sub_one_of_lt h)
  exact ⟨_, by rw [buildFilePath, hname]; rfl⟩

/-- **Keys that differ in one letter.** The paths of keys that begin alike, and go on with a letter
that is copied as it is, have that letter in the same place, if it is not cut off. -/
theorem exists_buildFilePath_append (store : MetadataStore) {front : List UInt8}
    (hfront : front.length + 1 < metaMaxKeyLen) :
    ∃ head, head.length = store.path.length + 1 + front.length ∧
      ∀ letter others, ¬ (letter = slash ∨ letter = backslash) → letter ≠ dot →
        (front ++ letter :: others).length < metaMaxKeyLen →
        ∃ rest, store.buildFilePath (front ++ letter :: others) =
          some ((head ++ letter :: rest).take (pathSize - 1)) := by
  obtain ⟨name, hname, hlen⟩ := exists_sanitiseKey (Nat.le_refl front.length)
  obtain ⟨room, hroom⟩ : ∃ room, metaMaxKeyLen - 1 = front.length + (room + 1) :=
    ⟨metaMaxKeyLen - 2 - front.length, by omega⟩
  refine ⟨store.path ++ slash :: name, ?_, fun letter others hslash hdot hfits => ?_⟩
  · rw [List.length_append, List.length_cons, hlen]
    omega
  have hothers : others.length ≤ room := by
    rw [List.length_append, List.length_cons] at hfits
    omega
  obtain ⟨rest, hrest, -⟩ := exists_sanitiseKey hothers
  have hback : sanitiseKey (room + 1) (letter :: others) = some (letter :: rest) := by
    rw [sanitiseKey_of_other hslash fun h => hdot h.1, hrest, Option.map_some]
  have hcut : ¬ (front.getLast? = some dot ∧ (letter :: others).head? = some dot) := fun h =>
    hdot (Option.some.inj h.2)
  refine ⟨rest ++ metaSuffix, ?_⟩
  rw [buildFilePath, hroom, sanitiseKey_append rfl _ hcut, hname, hback]
  simp only [Option.bind_some, Option.map_some, List.append_assoc, List.cons_append]

theorem eq_of_take_append {head rest rest' : List UInt8} {a b : UInt8} {n : ℕ}
    (hfits : head.length < n) (h : (head ++ a :: rest).take n = (head ++ b :: rest').take n) :
    a = b := by
  have hbyte := congrArg (fun l => l[head.length]?) h
  simpa only [List.getElem?_take_of_lt hfits, List.getElem?_append_right (Nat.le_refl _),
    Nat.sub_self, List.getElem?_cons_zero, Option.some.injEq] using hbyte

/-- The path leaves room for the longest file name. -/
def Roomy (store : MetadataStore) : Prop :=
  store.path.length + 1 + (metaMaxKeyLen - 1) + metaSuffix.length ≤ pathSize - 1

/-- **Plain keys** name their file. -/
theorem buildFilePath_of_plain (hroom : store.Roomy) {key : List UInt8} (h : Plain key)
    (hlen : key.length < metaMaxKeyLen) :
    store.buildFilePath key = some (store.path ++ (slash :: (key ++ metaSuffix))) := by
  have hle : key.length ≤ metaMaxKeyLen - 1 := Nat.le_sub_one_of_lt hlen
  rw [buildFilePath, h.sanitiseKey_eq hle, Option.map_some, List.take_of_length_le]
  rw [Roomy] at hroom
  simp only [List.length_append, List.length_cons]
  omega

/-- **Plain keys** have files of their own. -/
theorem buildFilePath_injective (hroom : store.Roomy) {key key' : List UInt8} (h : Plain key)
    (h' : Plain key') (hlen : key.length < metaMaxKeyLen) (hlen' : key'.length < metaMaxKeyLen)
    (heq : store.buildFilePath key = store.buildFilePath key') : key = key' := by
  rw [buildFilePath_of_plain hroom h hlen, buildFilePath_of_plain hroom h' hlen'] at heq
  have hpath := List.append_cancel_left (Option.some.inj heq)
  exact List.append_cancel_right (List.cons.inj hpath).2

end MetadataStore

end DistributedComputing
