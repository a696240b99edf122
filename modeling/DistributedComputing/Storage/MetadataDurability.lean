import DistributedComputing.Storage.MetadataMap

/-!
# What a write leaves in the store

Two sides of `metadata_store_put`, over any fault of the file system.

**Success.** `write_entry_to_file` looks at the result of every `fwrite`, but not at that of
`fclose`, which writes out what is still buffered. So a `put` that returns `META_OK` has left the
entry in the file exactly if the buffer was written out: `entry_survives`, which rests on the round
trip `readEntry_items`. Otherwise the file is corrupt (`entry_lost_on_fclose`).

**Failure.** `write_entry_to_file` opens the file with `"wb"`, which empties it, before it writes or
checks anything. Every later failure leaves a beginning of the new items, and the reader needs every
byte of them (`needs_readValue`), so what is left is corrupt, whatever the file held before. A type
that is not known is also only found out then. `get_unchanged_iff` follows.
-/

namespace DistributedComputing

open Bytes

/-! ### Files that break off -/

theorem needs_readHeader : readHeader.Needs headerItems.flatten .corrupt :=
  (Reader.yields_read _ metaFileMagic _).bind_needs (Reader.needs_read _ _ _) <|
    (Reader.yields_read _ metaFileVersion _).bind_needs (Reader.needs_read _ _ _) <|
      Reader.needs_nil _ _

theorem needs_readFields (f : MetaFields) (type : UInt32) :
    readFields.Needs (f.items type).flatten .corrupt := by
  refine (Reader.yields_read _ f.key _).bind_needs (Reader.needs_read _ _ _) ?_
  refine (Reader.yields_read _ type _).bind_needs (Reader.needs_read _ _ _) ?_
  refine (Reader.yields_read _ f.tagCount _).bind_needs (Reader.needs_read _ _ _) ?_
  refine (Reader.yields_read _ f.created _).bind_needs (Reader.needs_read _ _ _) ?_
  refine (Reader.yields_read _ f.modified _).bind_needs (Reader.needs_read _ _ _) ?_
  refine (Reader.yields_read _ f.tags _).bind_needs (Reader.needs_read _ _ _) ?_
  exact Reader.needs_nil _ _

theorem needs_item {α : Type} (c : Codec α) (a : α) (g : α → MetaValue) :
    (g <$> c.read MetaError.corrupt).Needs [c.encode a].flatten .corrupt := by
  rw [List.flatten_singleton]
  exact (Reader.needs_read c a _).map g

theorem needs_readBlob {data : List UInt8} (fits : data.length < 2 ^ 64) :
    (readBlob true (.ofNat data.length)).Needs data .corrupt := by
  rcases data with - | ⟨x, data⟩
  · exact Reader.needs_nil _ _
  · have hsize : (x :: data).length = (UInt64.ofNat (x :: data).length).toNat :=
      (UInt64.toNat_ofNat_of_lt' fits).symm
    have hpos : UInt64.ofNat (x :: data).length ≠ 0 := fun h0 => by
      rw [h0] at hsize
      exact absurd hsize (Nat.succ_ne_zero _)
    rw [readBlob, if_neg hpos, if_pos rfl]
    exact (Reader.needs_takeBytes hsize _).map _

/-- **The value** breaks off. Nothing is written for a type that is not known. -/
theorem needs_readValue (v : MetaValue) :
    (readValue true v.type).Needs v.items.flatten .corrupt := by
  cases v with
  | string s => exact needs_item stringCodec s _
  | int64 v => exact needs_item Codec.int64 v _
  | double bits => exact needs_item Codec.uint64 bits _
  | timestamp t => exact needs_item Codec.int64 t _
  | blob data fits =>
    refine (Reader.yields_read Codec.uint64 (.ofNat data.length) _).bind_needs
      (Reader.needs_read _ _ _) ?_
    split
    · exact Reader.needs_nil _ _
    · rw [List.flatten_singleton]
      exact needs_readBlob fits
  | blobWithoutData size pos =>
    exact (Reader.yields_read Codec.uint64 size _).bind_needs (Reader.needs_read _ _ _)
      (Reader.needs_nil _ _)
  | unknown type hnone => exact Reader.needs_nil _ _

/-- **A file that breaks off is corrupt**, wherever it does. -/
theorem readEntry_of_cut (e : MetadataEntry) {cut : List UInt8} (hcut : cut <+: e.items.flatten)
    (hlt : cut.length < e.items.flatten.length) :
    readEntryFromFile true (some cut) = .error .corrupt := by
  rw [e.flatten_items] at hcut hlt
  -- after the value nothing more is read, whether or not the value can be
  have hvalue : (readValue true e.value.type >>= fun value => pure ⟨e.toMetaFields, value⟩ :
      Reader MetaError MetadataEntry).Needs e.value.items.flatten .corrupt :=
    fun cut hcut hlt => (needs_readValue e.value cut hcut hlt).bind _
  have hneeds : (readEntry true).Needs _ MetaError.corrupt :=
    yields_readHeader.bind_needs needs_readHeader <|
      (yields_readFields e.toMetaFields e.value.type).bind_needs (needs_readFields _ _) hvalue
  have hall := hneeds cut hcut hlt
  show (readEntry true cut).bind (fun r => .ok r.1) = .error .corrupt
  rw [show readEntry true cut = _ from hall]
  rfl

/-! ### Torn writes -/

theorem readValue_of_not_allocated {type : UInt32} {bytes rest : List UInt8} {v : MetaValue}
    (h : readValue false type bytes = .ok (v, rest)) :
    readValue true type bytes = .ok (v, rest) := by
  rw [readValue] at h ⊢
  revert h
  rcases MetaType.ofCode type with - | (- | - | - | - | -) <;> intro h
  · exact h
  · exact h
  · exact h
  · exact h
  · obtain ⟨size, mid, hsize, hblob⟩ := Reader.bind_eq_ok h
    refine (Reader.bind_of_ok hsize _).trans ?_
    -- without memory, only an empty blob is read
    rw [readBlob] at hblob ⊢
    split at hblob
    · next h0 => rw [if_pos h0, hblob]
    · cases hblob
  · exact h

theorem readEntryFromFile_of_not_allocated {bytes : List UInt8} {e : MetadataEntry}
    (h : readEntryFromFile false (some bytes) = .ok e) :
    readEntryFromFile true (some bytes) = .ok e := by
  change (readEntry false bytes).bind (fun r => .ok r.1) = .ok e at h
  rcases hread : readEntry false bytes with err | ⟨e', rest⟩
  · rw [hread] at h
    cases h
  rw [hread] at h
  have htrue : readEntry true bytes = .ok (e', rest) := by
    obtain ⟨⟨⟩, mid, hheader, hread⟩ := Reader.bind_eq_ok hread
    obtain ⟨r, mid', hfields, hread⟩ := Reader.bind_eq_ok hread
    obtain ⟨value, mid'', hvalue, hread⟩ := Reader.bind_eq_ok hread
    refine (Reader.bind_of_ok hheader _).trans ((Reader.bind_of_ok hfields _).trans ?_)
    exact (Reader.bind_of_ok (readValue_of_not_allocated hvalue) _).trans hread
  show (readEntry true bytes).bind (fun r => .ok r.1) = .ok e
  rw [htrue]
  exact h

theorem readEntryFromFile_of_ok {allocated : Bool} {bytes : List UInt8} {e : MetadataEntry}
    (h : readEntryFromFile allocated (some bytes) = .ok e) :
    readEntryFromFile true (some bytes) = .ok e := by
  cases allocated with
  | true => exact h
  | false => exact readEntryFromFile_of_not_allocated h

/-- **Torn writes are detected.** Whatever entry was written, of any of the five types: of a file
that breaks off before its end, nothing is read but an error. The file is corrupt, unless there is
no memory to find out. -/
theorem torn_write_detected {e : MetadataEntry} {bytes cut : List UInt8}
    (hwrite : writeEntryToFile e none = (some bytes, .ok ())) (hcut : cut <+: bytes)
    (hne : cut ≠ bytes) :
    readEntryFromFile true (some cut) = .error .corrupt ∧
      ∀ allocated e', readEntryFromFile allocated (some cut) ≠ .ok e' := by
  rw [writeEntryToFile_none] at hwrite
  obtain rfl : e.items.flatten = bytes := Option.some.inj (Prod.mk.inj hwrite).1
  have hlt : cut.length < e.items.flatten.length :=
    Nat.lt_of_le_of_ne hcut.length_le fun hlen => hne (hcut.eq_of_length hlen)
  have hcorrupt := readEntry_of_cut e hcut hlt
  refine ⟨hcorrupt, fun allocated e' hok => ?_⟩
  rw [readEntryFromFile_of_ok hok] at hcorrupt
  cases hcorrupt

/-- A blob of three bytes under the key `a/b`. -/
def blobEntry : MetadataEntry :=
  { MetadataStore.intEntry MetadataStore.slashKey 0 with value := .blob [1, 2, 3] (by decide) }

/-- A file of the blob that has lost the last of its bytes. -/
theorem torn_write_detected_blob :
    readEntryFromFile true (some (headerItems.flatten ++
        ((blobEntry.toMetaFields.items MetaType.blob.code).flatten ++
          (Codec.uint64.encode 3 ++ [1, 2])))) = .error .corrupt := by
  have hall : blobEntry.items.flatten = headerItems.flatten ++
      ((blobEntry.toMetaFields.items MetaType.blob.code).flatten ++
        (Codec.uint64.encode 3 ++ [1, 2])) ++ [3] := by
    rw [blobEntry.flatten_items, List.append_assoc, List.append_assoc]
    rfl
  refine (torn_write_detected (writeEntryToFile_none blobEntry) ?_ ?_).1
  · rw [hall]
    exact List.prefix_append _ _
  · rw [hall]
    exact fun h => absurd (List.self_eq_append_right.1 h) (List.cons_ne_nil _ _)

/-! ### Writes that fail -/

theorem items_ne_nil (e : MetadataEntry) : ∀ item ∈ e.items, item ≠ [] := by
  have hcodec : ∀ {α : Type} (c : Codec α) (a : α), 0 < c.width → c.encode a ≠ [] := by
    intro α c a hpos hnil
    have hlen := c.length_encode a
    rw [hnil] at hlen
    exact absurd hlen hpos.ne
  have hvalue : ∀ item ∈ e.value.items, item ≠ [] := by
    rcases e with ⟨-, v⟩
    cases v with
    | string s => exact List.forall_mem_singleton.2 (hcodec stringCodec s (by decide))
    | int64 v => exact List.forall_mem_singleton.2 (hcodec .int64 v (by decide))
    | double bits => exact List.forall_mem_singleton.2 (hcodec .uint64 bits (by decide))
    | timestamp t => exact List.forall_mem_singleton.2 (hcodec .int64 t (by decide))
    | blob data fits =>
      refine List.forall_mem_cons.2 ⟨hcodec .uint64 _ (by decide), ?_⟩
      split
      · exact List.forall_mem_nil _
      · next hne => exact List.forall_mem_singleton.2 hne
    | blobWithoutData size pos => exact List.forall_mem_singleton.2 (hcodec .uint64 _ (by decide))
    | unknown => exact List.forall_mem_nil _
  simp only [MetadataEntry.items, headerItems, MetaFields.items, List.mem_append, List.mem_cons,
    List.not_mem_nil, or_false]
  rintro item (((rfl | rfl) | (rfl | rfl | rfl | rfl | rfl | rfl)) | hitem)
  case inr => exact hvalue item hitem
  all_goals exact hcodec _ _ (by decide)

/-- **A write that stops** leaves a beginning of the items; one that does not, leaves them all. -/
theorem writeItems_spec {items : List (List UInt8)} (hne : ∀ item ∈ items, item ≠ [])
    (stop : Option (ℕ × ℕ)) :
    (writeItems stop items).1 <+: items.flatten ∧
      ((writeItems stop items).2 = true → (writeItems stop items).1 = items.flatten) ∧
      ((writeItems stop items).2 = false →
        (writeItems stop items).1.length < items.flatten.length) := by
  fun_induction writeItems stop items with
  | case1 stop => exact ⟨List.prefix_rfl, fun _ => rfl, nofun⟩
  | case2 count item items =>
    have hpos : 0 < item.length := List.length_pos_iff.2 (hne item List.mem_cons_self)
    have hitem : item.dropLast.take count <+: item :=
      (List.take_prefix ..).trans (List.dropLast_prefix item)
    refine ⟨hitem.trans (List.prefix_append ..), nofun, fun _ => ?_⟩
    simp only [List.length_take, List.length_dropLast, List.flatten_cons, List.length_append]
    omega
  | case3 i count item items rest ih | case4 item items rest ih =>
    obtain ⟨hpre, hall, hcut⟩ := ih fun item hitem => hne item (List.mem_cons_of_mem _ hitem)
    refine ⟨(List.prefix_append_right_inj item).2 hpre, fun h => ?_, fun h => ?_⟩
    · exact congrArg (item ++ ·) (hall h)
    · rw [List.flatten_cons, List.length_append, List.length_append]
      exact Nat.add_lt_add_left (hcut h) _

/-- Every way in which a write can end: the file is not opened, it holds the entry, or what it holds
is corrupt, which is not always noticed. -/
inductive Written (e : MetadataEntry) (fault : Option WriteFault) :
    Option (List UInt8) × Except MetaError Unit → Prop
  | notOpened (h : fault = some .fopen) : Written e fault (none, .error .io)
  | complete (h : Flushed fault) : Written e fault (some e.items.flatten, .ok ())
  | lost {bytes : List UInt8} (h : ¬ Flushed fault)
      (hread : readEntryFromFile true (some bytes) = .error .corrupt) :
      Written e fault (some bytes, .ok ())
  | broken {bytes : List UInt8} {err : MetaError} (h : fault ≠ some .fopen)
      (hread : readEntryFromFile true (some bytes) = .error .corrupt) :
      Written e fault (some bytes, .error err)

/-- The end of a write once the file is open. -/
theorem written_writeItems (e : MetadataEntry) {fault : Option WriteFault}
    (hopen : fault ≠ some .fopen) (hflushed : Flushed fault) (stop : Option (ℕ × ℕ)) :
    Written e fault (some (writeItems stop e.items).1,
      if (writeItems stop e.items).2 then e.value.written else .error .io) := by
  obtain ⟨hpre, hall, hcut⟩ := writeItems_spec (items_ne_nil e) stop
  split
  · next hdone =>
    rw [hall hdone]
    rcases hw : e.value.written with err | ⟨⟨⟩⟩
    · -- all is written, and then the type is refused
      refine .broken hopen ?_
      rw [readEntry_items, if_neg fun hst => ?_]
      rw [MetaValue.written_of_storable hst] at hw
      exact absurd hw nofun
    · exact .complete hflushed
  · next hstop =>
    exact .broken hopen (readEntry_of_cut e hpre (hcut (Bool.eq_false_iff.2 hstop)))

theorem written_writeEntryToFile (e : MetadataEntry) (fault : Option WriteFault) :
    Written e fault (writeEntryToFile e fault) := by
  match fault with
  | none => exact written_writeItems e (Option.some_ne_none _).symm trivial none
  | some .fopen => exact .notOpened rfl
  | some (.fwrite item count) =>
    have hopen : some (WriteFault.fwrite item count) ≠ some .fopen := by simp
    exact written_writeItems e hopen trivial (some (item, count))
  | some (.fclose count) =>
    have hread : readEntryFromFile true (some (e.items.flatten.dropLast.take count)) =
        .error .corrupt := by
      refine readEntry_of_cut e ((List.take_prefix ..).trans (List.dropLast_prefix _)) ?_
      have hpos : 0 < e.items.flatten.length := by
        rw [e.flatten_items, List.length_append]
        exact Nat.add_pos_left (by decide) _
      rw [List.length_take, List.length_dropLast]
      omega
    rw [writeEntryToFile]
    rcases e.value.written with err | ⟨⟨⟩⟩
    · exact .broken (by simp) hread
    · exact .lost id hread

namespace MetadataStore

variable {store : MetadataStore} {files files' : Files} {e : MetadataEntry}
  {fault : Option WriteFault} {err : MetaError}

/-! ### Success -/

theorem put_ok (hput : store.put fault files e = some (files', .ok ())) :
    ∃ path bytes, store.buildFilePath e.keyString = some path ∧
      files' = Function.update files path (some bytes) ∧
      (Flushed fault ∧ bytes = e.items.flatten ∨
        ¬ Flushed fault ∧ readEntryFromFile true (some bytes) = .error .corrupt) := by
  rw [put] at hput
  split at hput
  · cases hput
  split at hput
  · cases hput
  obtain ⟨path, hpath, hr⟩ := Option.map_eq_some_iff.1 hput
  have hw := written_writeEntryToFile e fault
  generalize writeEntryToFile e fault = r at hw hr
  cases hw with
  | notOpened | broken => cases hr
  | complete hflushed =>
    exact ⟨path, _, hpath, (congrArg Prod.fst hr).symm, .inl ⟨hflushed, rfl⟩⟩
  | lost hlost hread => exact ⟨path, _, hpath, (congrArg Prod.fst hr).symm, .inr ⟨hlost, hread⟩⟩

/-- **When entries survive storage.** The bytes that are written for an entry of a known type, with
data if it is a blob, are read back as the same entry; and so a `get` after a successful `put`
returns it, exactly if what was buffered has reached the file. -/
theorem entry_survives (hst : e.value.Storable) {allocated : Bool}
    (hmem : e.value.Allocated allocated) :
    (∃ bytes, writeEntryToFile e none = (some bytes, .ok ()) ∧
      readEntryFromFile allocated (some bytes) = .ok e) ∧
    ∀ (store : MetadataStore) (fault : Option WriteFault) (files files' : Files),
      store.put fault files e = some (files', .ok ()) →
        (store.get allocated files' e.keyString = some (.ok e) ↔ Flushed fault) := by
  have hread := readEntry_of_storable hst hmem
  refine ⟨⟨e.items.flatten, ?_, hread⟩, fun store fault files files' hput => ?_⟩
  · rw [writeEntryToFile_none, MetaValue.written_of_storable hst]
  · obtain ⟨path, bytes, hpath, rfl, hbytes⟩ := put_ok hput
    rw [get, hpath, Option.map_some, Function.update_self, Option.some_inj]
    rcases hbytes with ⟨hflushed, rfl⟩ | ⟨hlost, hcorrupt⟩
    · exact iff_of_true hread hflushed
    · refine iff_of_false (fun hok => ?_) hlost
      rw [readEntryFromFile_of_ok hok] at hcorrupt
      cases hcorrupt

/-- A `put` under the key `a/b`. -/
theorem put_slashKey {e : MetadataEntry} (hkey : e.keyString = slashKey.bytes)
    (fault : Option WriteFault) : ∃ path, metaStore.buildFilePath slashKey.bytes = some path ∧
      ∀ (files : Files) {bytes}, (writeEntryToFile e fault).1 = some bytes →
        metaStore.put fault files e =
          some (Function.update files path (some bytes), (writeEntryToFile e fault).2) := by
  have hvalid := MetadataEntry.validKey_of_keyString hkey slashKey.ne_nil slashKey.length_lt
  obtain ⟨path, hpath⟩ := metaStore.exists_buildFilePath slashKey.length_lt
  refine ⟨path, hpath, fun files bytes hbytes => ?_⟩
  rw [put, if_neg (show ¬ metaStore.readOnly = true from Bool.false_ne_true), if_neg hvalid, hkey,
    hpath, Option.map_some]
  simp only [hbytes]

/-- An integer under the key `a/b` is stored, and read back without an allocation. -/
theorem entry_survives_int : ∃ files',
    metaStore.put none (fun _ => none) (intEntry slashKey 1) = some (files', .ok ()) ∧
      metaStore.get false files' (intEntry slashKey 1).keyString =
        some (.ok (intEntry slashKey 1)) := by
  obtain ⟨path, -, hput⟩ := put_slashKey (e := intEntry slashKey 1) slashKey.cString_buffer none
  have hstored := hput (fun _ => none) (congrArg Prod.fst (writeEntryToFile_none _))
  exact ⟨_, hstored, ((@entry_survives (intEntry slashKey 1) trivial false trivial).2 metaStore none
    _ _ hstored).2 trivial⟩

/-- The same integer, with `fclose` writing out nothing: the `put` returns `META_OK`, and the file
is corrupt. -/
theorem entry_lost_on_fclose : ∃ files',
    metaStore.put (some (.fclose 0)) (fun _ => none) (intEntry slashKey 1) = some (files', .ok ()) ∧
      metaStore.get true files' slashKey.bytes = some (.error .corrupt) := by
  obtain ⟨path, hpath, hput⟩ :=
    put_slashKey (e := intEntry slashKey 1) slashKey.cString_buffer (some (.fclose 0))
  refine ⟨_, hput _ rfl, ?_⟩
  rw [get, hpath, Option.map_some, Function.update_self]
  rfl

/-! ### Failure -/

/-- The call fails before the file is opened. -/
def Refuses (store : MetadataStore) (fault : Option WriteFault) (e : MetadataEntry) : Prop :=
  store.readOnly = true ∨ ¬ e.ValidKey ∨ fault = some .fopen

/-- Either a failed `put` fails before the file is opened, or the file is corrupt afterwards. -/
theorem put_error (hput : store.put fault files e = some (files', .error err)) :
    (store.Refuses fault e ∧ files' = files) ∨
      (¬ store.Refuses fault e ∧ ∃ path bytes, store.buildFilePath e.keyString = some path ∧
        files' = Function.update files path (some bytes) ∧
        readEntryFromFile true (some bytes) = .error .corrupt) := by
  rw [put] at hput
  split at hput
  · next hro => exact .inl ⟨.inl hro, (congrArg Prod.fst (Option.some.inj hput)).symm⟩
  split at hput
  · next hkey =>
    exact .inl ⟨.inr (.inl (not_not.2 hkey)), (congrArg Prod.fst (Option.some.inj hput)).symm⟩
  next hro hkey =>
  obtain ⟨path, hpath, hr⟩ := Option.map_eq_some_iff.1 hput
  have hw := written_writeEntryToFile e fault
  generalize writeEntryToFile e fault = r at hw hr
  cases hw with
  | notOpened hfault => exact .inl ⟨.inr (.inr hfault), (congrArg Prod.fst hr).symm⟩
  | complete | lost => cases hr
  | @broken bytes _ hopen hread =>
    refine .inr ⟨?_, path, bytes, hpath, (congrArg Prod.fst hr).symm, hread⟩
    rintro (h | h | h)
    · exact hro h
    · exact h hkey
    · exact hopen h

/-- **A failed `put`** leaves every answer of the store as it was exactly if it failed before the
file was opened, or the file of the entry's key was corrupt already. -/
theorem get_unchanged_iff (hput : store.put fault files e = some (files', .error err)) :
    (∀ k, store.get true files' k = store.get true files k) ↔
      store.Refuses fault e ∨ store.get true files e.keyString = some (.error .corrupt) := by
  rcases put_error hput with ⟨hrefuses, rfl⟩ | ⟨hopened, path, bytes, hpath, rfl, hread⟩
  · exact iff_of_true (fun _ => rfl) (.inl hrefuses)
  have hown : store.get true (Function.update files path (some bytes)) e.keyString =
      some (.error .corrupt) := by
    rw [get, hpath, Option.map_some, Function.update_self, hread]
  rw [or_iff_right hopened]
  constructor
  · exact fun h => (h e.keyString).symm.trans hown
  · intro hcorrupt k
    rcases hk : store.buildFilePath k with - | path'
    · rw [get, get, hk]
      rfl
    by_cases heq : path' = path
    · -- a key with the same file: it is corrupt before and after
      rw [get, hpath, Option.map_some, Option.some_inj] at hcorrupt
      rw [get, get, hk, heq, Option.map_some, Option.map_some, Function.update_self, hread,
        hcorrupt]
    · rw [get, get, hk, Option.map_some, Option.map_some, Function.update_of_ne heq]

/-- The key `a/b` with a type that is none of the five. -/
def badEntry : MetadataEntry :=
  { intEntry slashKey 0 with value := .unknown 5 (by decide) }

/-- In an empty store the file is not there before and corrupt after. -/
theorem get_unchanged_iff_empty : ∃ files',
    metaStore.put none (fun _ => none) badEntry = some (files', .error .invalidArg) ∧
      ((∀ k, metaStore.get true files' k = metaStore.get true (fun _ => none) k) ↔
        metaStore.Refuses none badEntry ∨
          metaStore.get true (fun _ => none) badEntry.keyString = some (.error .corrupt)) := by
  obtain ⟨path, -, hput⟩ := put_slashKey (e := badEntry) slashKey.cString_buffer none
  have hrefused := hput (fun _ => none) (congrArg Prod.fst (writeEntryToFile_none _))
  exact ⟨_, hrefused, get_unchanged_iff hrefused⟩

/-- With an integer stored under `a/b`, a `put` of an entry of an unknown type under the same key is
refused, and the integer is gone. -/
theorem entry_lost_on_refused_put : ∃ files files',
    metaStore.put none (fun _ => none) (intEntry slashKey 1) = some (files, .ok ()) ∧
      metaStore.put none files badEntry = some (files', .error .invalidArg) ∧
      metaStore.get true files slashKey.bytes = some (.ok (intEntry slashKey 1)) ∧
      metaStore.get true files' slashKey.bytes = some (.error .corrupt) := by
  obtain ⟨path, hpath, hput⟩ := put_slashKey (e := intEntry slashKey 1) slashKey.cString_buffer none
  obtain ⟨path', hpath', hbad⟩ := put_slashKey (e := badEntry) slashKey.cString_buffer none
  obtain rfl : path' = path := Option.some.inj (hpath'.symm.trans hpath)
  refine ⟨_, _, hput _ (congrArg Prod.fst (writeEntryToFile_none _)),
    hbad _ (congrArg Prod.fst (writeEntryToFile_none _)), ?_, ?_⟩
  · rw [get, hpath, Option.map_some, Function.update_self, readEntry_items, if_pos]
    trivial
  · rw [get, hpath, Option.map_some, Function.update_self, readEntry_items, if_neg]
    exact id

end MetadataStore

end DistributedComputing
