import DistributedComputing.Foundations.Codec

/-!
# Metadata files

A model of `write_entry_to_file` and `read_entry_from_file`. An entry is written as a sequence of
items, one call of `fwrite` each: magic and version, the fixed fields, the tags, and the active
member of the value. `readEntry` reads them back in the same order.

Points of the representation:

* `meta_value_type_t` and the union are one type here, `MetaValue`, whose constructor is the type. A
  type that is none of the five is `unknown`, and so can be told apart on reading and on writing.
  The bytes of inactive members are left out: they are not written, and zero after reading;
* a blob has its bytes, or a size and a null pointer (`blobWithoutData`). Only the size of the
  latter is written;
* what the operating system can refuse is an argument: `WriteFault` on writing, the allocation of a
  blob's buffer on reading.

`readEntry_items` is the round trip: an entry is read back from its own file exactly if it is
`Storable`, and its file is corrupt otherwise.
-/

namespace DistributedComputing

open Bytes

/-- The error codes that are returned: 1, 2, 3 and 5. -/
inductive MetaError
  | invalidArg
  | notFound
  | io
  | corrupt
  deriving DecidableEq, Repr

/-- `META_MAX_KEY_LEN`. -/
def metaMaxKeyLen : ℕ := 256

/-- `META_MAX_VALUE_LEN`. -/
def metaMaxValueLen : ℕ := 4096

/-- `META_MAX_TAG_LEN`. -/
def metaMaxTagLen : ℕ := 64

/-- `META_MAX_TAGS`. -/
def metaMaxTags : ℕ := 32

/-- `META_FILE_MAGIC`. -/
def metaFileMagic : UInt32 := 0x4D455441

/-- `META_FILE_VERSION`. -/
def metaFileVersion : UInt32 := 1

/-! ### Entries -/

/-- `meta_value_type_t`. -/
inductive MetaType
  | string
  | int64
  | double
  | blob
  | timestamp
  deriving DecidableEq, Repr

/-- The number of a type. -/
def MetaType.code : MetaType → UInt32
  | string => 0
  | int64 => 1
  | double => 2
  | blob => 3
  | timestamp => 4

/-- The `switch` over a number that may be none of them. -/
def MetaType.ofCode (n : UInt32) : Option MetaType :=
  if n = 0 then some .string
  else if n = 1 then some .int64
  else if n = 2 then some .double
  else if n = 3 then some .blob
  else if n = 4 then some .timestamp
  else none

/-- The active member of the value. -/
inductive MetaValue
  | string (s : Vector UInt8 metaMaxValueLen)
  | int64 (v : Int64)
  | double (bits : UInt64)
  | timestamp (t : Int64)
  | blob (data : List UInt8) (fits : data.length < 2 ^ 64)
  | blobWithoutData (size : UInt64) (pos : size ≠ 0)
  | unknown (type : UInt32) (none : MetaType.ofCode type = none)

/-- `metadata_entry_t` without the type and the value. -/
structure MetaFields where
  key : Vector UInt8 metaMaxKeyLen
  tagCount : Int32
  created : Int64
  modified : Int64
  tags : Vector (Vector UInt8 metaMaxTagLen) metaMaxTags
  deriving DecidableEq, Repr

/-- `metadata_entry_t`. -/
structure MetadataEntry extends MetaFields where
  value : MetaValue

/-- The string in the key buffer. -/
def MetadataEntry.keyString (e : MetadataEntry) : List UInt8 := cString e.key.toList

/-- The number in the `type` field. -/
def MetaValue.type : MetaValue → UInt32
  | .string _ => MetaType.string.code
  | .int64 _ => MetaType.int64.code
  | .double _ => MetaType.double.code
  | .timestamp _ => MetaType.timestamp.code
  | .blob _ _ | .blobWithoutData _ _ => MetaType.blob.code
  | .unknown type _ => type

/-! ### Writing -/

/-- `sizeof(entry->value.string)` bytes. -/
def stringCodec : Codec (Vector UInt8 metaMaxValueLen) := .vector .uint8 metaMaxValueLen

/-- `sizeof(entry->key)` bytes. -/
def keyCodec : Codec (Vector UInt8 metaMaxKeyLen) := .vector .uint8 metaMaxKeyLen

/-- `sizeof(entry->tags)` bytes. -/
def tagsCodec : Codec (Vector (Vector UInt8 metaMaxTagLen) metaMaxTags) :=
  .vector (.vector .uint8 metaMaxTagLen) metaMaxTags

/-- Magic and version. -/
def headerItems : List (List UInt8) :=
  [Codec.uint32.encode metaFileMagic, Codec.uint32.encode metaFileVersion]

/-- The fixed fields, with the type among them, and the tags. -/
def MetaFields.items (f : MetaFields) (type : UInt32) : List (List UInt8) :=
  [keyCodec.encode f.key, Codec.uint32.encode type, Codec.int32.encode f.tagCount,
    Codec.int64.encode f.created, Codec.int64.encode f.modified, tagsCodec.encode f.tags]

/-- The value. Nothing is written for a type that is not known. -/
def MetaValue.items : MetaValue → List (List UInt8)
  | .string s => [stringCodec.encode s]
  | .int64 v => [Codec.int64.encode v]
  | .double bits => [Codec.uint64.encode bits]
  | .timestamp t => [Codec.int64.encode t]
  | .blob data _ =>
    Codec.uint64.encode (.ofNat data.length) :: if data = [] then [] else [data]
  | .blobWithoutData size _ => [Codec.uint64.encode size]
  | .unknown _ _ => []

/-- What the `switch` over the type returns when everything could be written. -/
def MetaValue.written : MetaValue → Except MetaError Unit
  | .unknown _ _ => .error .invalidArg
  | _ => .ok ()

/-- The calls of `fwrite`, in order. -/
def MetadataEntry.items (e : MetadataEntry) : List (List UInt8) :=
  headerItems ++ e.toMetaFields.items e.value.type ++ e.value.items

/-- How writing can fail: the file is not opened, the `fwrite` of some item stops after some of its
bytes, or `fclose` cannot write out all that is still in the buffer of the stream. -/
inductive WriteFault
  | fopen
  | fwrite (item count : ℕ)
  | fclose (count : ℕ)
  deriving DecidableEq, Repr

/-- What `fwrite` has taken reaches the file. -/
def Flushed : Option WriteFault → Prop
  | some (.fclose _) => False
  | _ => True

/-- The bytes in the file after writing the items, and whether all were written. -/
def writeItems : Option (ℕ × ℕ) → List (List UInt8) → List UInt8 × Bool
  | _, [] => ([], true)
  | some (0, count), item :: _ => (item.dropLast.take count, false)
  | some (i + 1, count), item :: items =>
    let rest := writeItems (some (i, count)) items
    (item ++ rest.1, rest.2)
  | none, item :: items =>
    let rest := writeItems none items
    (item ++ rest.1, rest.2)

/-- `write_entry_to_file`: the new contents of the file, if it was opened, and the result. -/
def writeEntryToFile (e : MetadataEntry) :
    Option WriteFault → Option (List UInt8) × Except MetaError Unit
  | some .fopen => (none, .error .io)
  | some (.fwrite item count) =>
    let r := writeItems (some (item, count)) e.items
    -- the file was truncated on opening, whatever fails afterwards
    (some r.1, if r.2 then e.value.written else .error .io)
  -- nobody looks at what `fclose` returns
  | some (.fclose count) => (some (e.items.flatten.dropLast.take count), e.value.written)
  | none =>
    let r := writeItems none e.items
    (some r.1, if r.2 then e.value.written else .error .io)

theorem writeItems_none (items : List (List UInt8)) :
    writeItems none items = (items.flatten, true) := by
  induction items with
  | nil => rfl
  | cons item items ih => rw [writeItems, ih, List.flatten_cons]

/-- Without a fault, the file holds the items. -/
theorem writeEntryToFile_none (e : MetadataEntry) :
    writeEntryToFile e none = (some e.items.flatten, e.value.written) := by
  rw [writeEntryToFile, writeItems_none]
  rfl

theorem opened_of_some {e : MetadataEntry} {fault : Option WriteFault} {bytes : List UInt8}
    (h : (writeEntryToFile e fault).1 = some bytes) : fault ≠ some .fopen := by
  rintro rfl
  cases h

/-! ### Reading -/

/-- Magic and version. Another version is only warned about. -/
def readHeader : Reader MetaError Unit := do
  let magic ← Codec.uint32.read .corrupt
  let _version ← Codec.uint32.read .corrupt
  ensure (magic = metaFileMagic) .corrupt

/-- The fixed fields and the tags, with the type. -/
def readFields : Reader MetaError (MetaFields × UInt32) := do
  let key ← keyCodec.read .corrupt
  let type ← Codec.uint32.read .corrupt
  let tagCount ← Codec.int32.read .corrupt
  let created ← Codec.int64.read .corrupt
  let modified ← Codec.int64.read .corrupt
  let tags ← tagsCodec.read .corrupt
  return (⟨key, tagCount, created, modified, tags⟩, type)

/-- The data of a blob. No buffer is allocated for an empty one. -/
def readBlob (allocated : Bool) (size : UInt64) : Reader MetaError MetaValue :=
  if size = 0 then return .blob [] (by decide)
  else if allocated then
    (fun data => .blob data.1 (data.2.trans_lt size.toNat_lt)) <$> takeBytes size.toNat .corrupt
  else throw .io

/-- The value, by type. -/
def readValue (allocated : Bool) (type : UInt32) : Reader MetaError MetaValue :=
  match MetaType.ofCode type with
  | some .string => .string <$> stringCodec.read .corrupt
  | some .int64 => .int64 <$> Codec.int64.read .corrupt
  | some .double => .double <$> Codec.uint64.read .corrupt
  | some .timestamp => .timestamp <$> Codec.int64.read .corrupt
  | some .blob => Codec.uint64.read .corrupt >>= readBlob allocated
  | none => throw .corrupt

/-- A whole entry. -/
def readEntry (allocated : Bool) : Reader MetaError MetadataEntry := do
  readHeader
  let r ← readFields
  let value ← readValue allocated r.2
  return ⟨r.1, value⟩

/-- `read_entry_from_file`, on the contents of the file if there is one. -/
def readEntryFromFile (allocated : Bool) : Option (List UInt8) → Except MetaError MetadataEntry
  | none => .error .notFound
  | some bytes => (readEntry allocated).run' bytes

/-! ### The round trip -/

/-- The entries that can be read back: the type is known, and a blob has its data. -/
def MetaValue.Storable : MetaValue → Prop
  | .blobWithoutData _ _ | .unknown _ _ => False
  | _ => True

instance : DecidablePred MetaValue.Storable := fun v => by
  cases v <;> unfold MetaValue.Storable <;> infer_instance

/-- The reader gets the memory it asks for: it asks for some only if there is a blob that is not
empty. -/
def MetaValue.Allocated (allocated : Bool) : MetaValue → Prop
  | .blob data _ => data ≠ [] → allocated = true
  | _ => True

theorem MetaValue.allocated_true (v : MetaValue) : v.Allocated true := by
  cases v with
  | blob => exact fun _ => rfl
  | _ => trivial

theorem MetaValue.written_of_storable {v : MetaValue} (h : v.Storable) : v.written = .ok () := by
  cases v with
  | unknown => exact absurd h id
  | _ => rfl

theorem yields_readHeader : readHeader.Yields headerItems.flatten () := by
  refine Reader.Yields.bind (Reader.yields_read _ metaFileMagic _) ?_
  refine Reader.Yields.bind (Reader.yields_read _ metaFileVersion _) ?_
  exact Reader.yields_ensure rfl _

theorem yields_readFields (f : MetaFields) (type : UInt32) :
    readFields.Yields (f.items type).flatten (f, type) := by
  refine Reader.Yields.bind (Reader.yields_read _ f.key _) ?_
  refine Reader.Yields.bind (Reader.yields_read _ type _) ?_
  refine Reader.Yields.bind (Reader.yields_read _ f.tagCount _) ?_
  refine Reader.Yields.bind (Reader.yields_read _ f.created _) ?_
  refine Reader.Yields.bind (Reader.yields_read _ f.modified _) ?_
  refine Reader.Yields.bind (Reader.yields_read _ f.tags _) ?_
  exact Reader.yields_pure _

theorem yields_readBlob {data : List UInt8} (fits : data.length < 2 ^ 64) (hne : data ≠ []) :
    (readBlob true (.ofNat data.length)).Yields data (.blob data fits) := by
  have hsize : data.length = (UInt64.ofNat data.length).toNat :=
    (UInt64.toNat_ofNat_of_lt' fits).symm
  have hpos : UInt64.ofNat data.length ≠ 0 := fun h0 => by
    rw [h0] at hsize
    exact hne (List.eq_nil_of_length_eq_zero hsize)
  rw [readBlob, if_neg hpos, if_pos rfl]
  exact (Reader.yields_takeBytes hsize _).map _

theorem yields_item {α : Type} (c : Codec α) (a : α) (g : α → MetaValue) :
    (g <$> c.read MetaError.corrupt).Yields [c.encode a].flatten (g a) := by
  rw [List.flatten_singleton]
  exact (Reader.yields_read c a _).map g

/-- **The value** is read back if it is storable. -/
theorem yields_readValue {v : MetaValue} {allocated : Bool} (h : v.Storable)
    (hmem : v.Allocated allocated) : (readValue allocated v.type).Yields v.items.flatten v := by
  cases v with
  | string s => exact yields_item stringCodec s _
  | int64 v => exact yields_item Codec.int64 v _
  | double bits => exact yields_item Codec.uint64 bits _
  | timestamp t => exact yields_item Codec.int64 t _
  | blob data fits =>
    refine (Reader.yields_read Codec.uint64 (.ofNat data.length) _).bind ?_
    split
    · next hnil =>
      subst hnil
      exact Reader.yields_pure _
    · next hne =>
      rw [List.flatten_singleton, hmem hne]
      exact yields_readBlob fits hne
  | blobWithoutData | unknown => exact absurd h id

/-- **What cannot be stored** is found out on reading. -/
theorem rejects_readValue {v : MetaValue} (h : ¬ v.Storable) :
    (readValue true v.type).Rejects v.items.flatten .corrupt := by
  cases v with
  | string | int64 | double | timestamp | blob => exact absurd trivial h
  | blobWithoutData size pos =>
    refine (Reader.yields_read Codec.uint64 size _).bind_rejects ?_
    show (readBlob true size).Rejects [] .corrupt
    rw [readBlob, if_neg pos, if_pos rfl]
    refine (Reader.rejects_takeBytes ?_ _).map _
    exact Nat.pos_of_ne_zero fun h0 => pos (UInt64.toNat_inj.1 h0)
  | unknown type hnone =>
    show (readValue true type).Rejects [] .corrupt
    rw [readValue, hnone]
    rfl

theorem MetadataEntry.flatten_items (e : MetadataEntry) :
    e.items.flatten = headerItems.flatten ++
      ((e.toMetaFields.items e.value.type).flatten ++ e.value.items.flatten) := by
  rw [MetadataEntry.items, List.flatten_append, List.flatten_append, List.append_assoc]

/-- **Reading back** an entry that is storable. -/
theorem readEntry_of_storable {e : MetadataEntry} {allocated : Bool} (h : e.value.Storable)
    (hmem : e.value.Allocated allocated) :
    readEntryFromFile allocated (some e.items.flatten) = .ok e := by
  have hfields := yields_readFields e.toMetaFields e.value.type
  have hall : (readEntry allocated).Yields (headerItems.flatten ++
      ((e.toMetaFields.items e.value.type).flatten ++ (e.value.items.flatten ++ []))) e :=
    yields_readHeader.bind (hfields.bind ((yields_readValue h hmem).bind (Reader.yields_pure _)))
  have hrun := hall []
  rw [List.append_nil, List.append_nil, ← e.flatten_items] at hrun
  rw [readEntryFromFile, StateT.run'_eq, StateT.run, hrun]
  rfl

/-- **The round trip.** An entry is read back from its file exactly if it is storable; otherwise the
file is corrupt. -/
theorem readEntry_items (e : MetadataEntry) :
    readEntryFromFile true (some e.items.flatten) =
      if e.value.Storable then .ok e else .error .corrupt := by
  split
  · next h => exact readEntry_of_storable h e.value.allocated_true
  · next h =>
    have hall : (readEntry true).Rejects (headerItems.flatten ++
        ((e.toMetaFields.items e.value.type).flatten ++ e.value.items.flatten)) .corrupt :=
      yields_readHeader.bind_rejects ((yields_readFields e.toMetaFields e.value.type).bind_rejects
        ((rejects_readValue h).bind _))
    rw [← e.flatten_items, Reader.Rejects] at hall
    rw [readEntryFromFile, StateT.run'_eq, StateT.run, hall]
    rfl

/-! ### What was read -/

theorem MetaType.code_of_ofCode {n : UInt32} {t : MetaType} (h : MetaType.ofCode n = some t) :
    t.code = n := by
  rw [MetaType.ofCode] at h
  split_ifs at h with h0 h1 h2 h3 h4
  all_goals
    cases h
    exact Eq.symm ‹_›

variable {allocated : Bool} {bytes rest : List UInt8}

theorem type_of_readValue {type : UInt32} {v : MetaValue}
    (h : readValue allocated type bytes = .ok (v, rest)) : v.type = type ∧ v.Storable := by
  rw [readValue] at h
  rcases ht : MetaType.ofCode type with - | t
  · rw [ht] at h
    cases h
  rw [ht] at h
  have hcode := MetaType.code_of_ofCode ht
  cases t with
  | string | int64 | double | timestamp =>
    obtain ⟨a, -, rfl⟩ := Reader.map_eq_ok h
    exact ⟨hcode, trivial⟩
  | blob =>
    obtain ⟨size, mid, -, hblob⟩ := Reader.bind_eq_ok h
    rw [readBlob] at hblob
    split_ifs at hblob
    · obtain ⟨rfl, -⟩ := Prod.mk.inj (Except.ok.inj hblob)
      exact ⟨hcode, trivial⟩
    · obtain ⟨a, -, rfl⟩ := Reader.map_eq_ok hblob
      exact ⟨hcode, trivial⟩
    · cases hblob

/-- The size of magic and version. -/
def headerSize : ℕ := 8

theorem rest_of_readHeader (h : readHeader bytes = .ok ((), rest)) :
    rest = bytes.drop headerSize := by
  rw [← List.drop_zero (l := bytes)] at h
  obtain ⟨magic, mid, hmagic, h⟩ := Reader.bind_eq_ok h
  obtain ⟨-, -, rfl⟩ := Reader.read_eq_ok hmagic
  obtain ⟨version, mid, hversion, h⟩ := Reader.bind_eq_ok h
  obtain ⟨-, -, rfl⟩ := Reader.read_eq_ok hversion
  rw [ensure] at h
  split at h
  · exact (Prod.mk.inj (Except.ok.inj h)).2.symm
  · cases h

/-- **An entry that was read** consists of fields that were read behind the header, and a value that
was read behind them. -/
theorem exists_of_readEntryFromFile {e : MetadataEntry}
    (h : readEntryFromFile allocated (some bytes) = .ok e) :
    ∃ type mid rest, readFields (bytes.drop headerSize) = .ok ((e.toMetaFields, type), mid) ∧
      readValue allocated type mid = .ok (e.value, rest) := by
  change (readEntry allocated bytes).bind (fun r => .ok r.1) = .ok e at h
  rcases hread : readEntry allocated bytes with err | ⟨e', rest⟩
  · rw [hread] at h
    cases h
  rw [hread] at h
  obtain rfl := Except.ok.inj h
  obtain ⟨⟨⟩, mid, hheader, hread⟩ := Reader.bind_eq_ok hread
  obtain rfl := rest_of_readHeader hheader
  obtain ⟨⟨fields, type⟩, mid, hfields, hread⟩ := Reader.bind_eq_ok hread
  obtain ⟨value, mid', hvalue, hread⟩ := Reader.bind_eq_ok hread
  obtain ⟨rfl, rfl⟩ := Prod.mk.inj (Except.ok.inj hread)
  exact ⟨type, mid, mid', hfields, hvalue⟩

theorem storable_of_readEntryFromFile {e : MetadataEntry}
    (h : readEntryFromFile allocated (some bytes) = .ok e) : e.value.Storable := by
  obtain ⟨type, mid, rest, -, hvalue⟩ := exists_of_readEntryFromFile h
  exact (type_of_readValue hvalue).2

end DistributedComputing
