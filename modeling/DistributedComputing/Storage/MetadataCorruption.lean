import DistributedComputing.Storage.MetadataQuery

/-!
# What a file can be read as

`read_entry_from_file` checks the magic, the type, and that there are enough bytes. Everything else
it takes as it stands in the file: the number of tags, and the arrays for key, tags and string, with
or without a terminating zero. `ValidFile` says which bytes of a file have to be what for the entry
to be `Valid`, and `entry_valid_iff` that this is exactly it, for every file that is read without an
error. The filters of a query then stay within the entry; with a number of tags from a file that is
not valid they need not (`entry_with_too_many_tags`).
-/

namespace DistributedComputing

open Bytes

/-- The bytes of a file that a valid entry depends on, by their offsets: the key at 8, the type at
264, the number of tags at 268, the tags at 288, and the value at 2336. -/
structure ValidFile (bytes : List UInt8) : Prop where
  tagCount_nonneg : 0 ≤ (Codec.int32.decode (slice bytes 268 4)).toInt
  tagCount_le : (Codec.int32.decode (slice bytes 268 4)).toInt ≤ metaMaxTags
  key : 0 ∈ slice bytes 8 metaMaxKeyLen
  tags : ∀ i < (Codec.int32.decode (slice bytes 268 4)).toInt.toNat,
    0 ∈ slice bytes (288 + i * metaMaxTagLen) metaMaxTagLen
  value : Codec.uint32.decode (slice bytes 264 4) = MetaType.string.code →
    0 ∈ slice bytes 2336 metaMaxValueLen

variable {bytes rest : List UInt8} {allocated : Bool}

/-- The fields, from the offset at which they begin. -/
structure FieldsAt (bytes : List UInt8) (offset : ℕ) (f : MetaFields) (type : UInt32) : Prop where
  key : f.key.toList = slice bytes offset 256
  type : type = Codec.uint32.decode (slice bytes (offset + 256) 4)
  tagCount : f.tagCount = Codec.int32.decode (slice bytes (offset + 256 + 4) 4)
  tags : f.tags.toList.map Vector.toList =
    (List.range metaMaxTags).map fun i =>
      slice bytes (offset + 256 + 4 + 4 + 8 + 8 + i * metaMaxTagLen) metaMaxTagLen

/-- The tags are rows of bytes. -/
theorem toList_decode_tags {l : List UInt8} (h : l.length = tagsCodec.width) :
    (tagsCodec.decode l).toList.map Vector.toList =
      (List.range metaMaxTags).map fun i => slice l (i * metaMaxTagLen) metaMaxTagLen := by
  refine List.ext_getElem (by simp) fun i hi hi' => ?_
  have hlt : i < metaMaxTags := by simpa using hi'
  have hrow : (slice l (i * metaMaxTagLen) metaMaxTagLen).length = metaMaxTagLen := by
    rw [slice, List.length_take, List.length_drop, h]
    show min metaMaxTagLen (metaMaxTags * (metaMaxTagLen * 1) - i * metaMaxTagLen) = metaMaxTagLen
    rw [metaMaxTags] at hlt ⊢
    rw [metaMaxTagLen]
    omega
  rw [List.getElem_map, List.getElem_map, List.getElem_range, Vector.getElem_toList]
  show ((Vector.ofFn fun i : Fin metaMaxTags => (Codec.vector .uint8 metaMaxTagLen).decode
    ((l.drop (i * (metaMaxTagLen * 1))).take (metaMaxTagLen * 1)))[i]).toList = _
  rw [Vector.getElem_ofFn, Nat.mul_one]
  exact Codec.toList_decode_bytes hrow

/-- **The fields were read** from the bytes behind the offset. -/
theorem fieldsAt_of_readFields {offset : ℕ} {f : MetaFields} {type : UInt32}
    (h : readFields (bytes.drop offset) = .ok ((f, type), rest)) :
    FieldsAt bytes offset f type ∧ rest = bytes.drop (offset + 256 + 4 + 4 + 8 + 8 + 2048) := by
  obtain ⟨key, _, hkey, h⟩ := Reader.bind_eq_ok h
  obtain ⟨hkeylen, rfl, rfl⟩ := Reader.read_eq_ok hkey
  obtain ⟨type', _, htype, h⟩ := Reader.bind_eq_ok h
  obtain ⟨-, rfl, rfl⟩ := Reader.read_eq_ok htype
  obtain ⟨tagCount, _, hcount, h⟩ := Reader.bind_eq_ok h
  obtain ⟨-, rfl, rfl⟩ := Reader.read_eq_ok hcount
  obtain ⟨created, _, hcreated, h⟩ := Reader.bind_eq_ok h
  obtain ⟨-, rfl, rfl⟩ := Reader.read_eq_ok hcreated
  obtain ⟨modified, _, hmodified, h⟩ := Reader.bind_eq_ok h
  obtain ⟨-, rfl, rfl⟩ := Reader.read_eq_ok hmodified
  obtain ⟨tags, _, htags, h⟩ := Reader.bind_eq_ok h
  obtain ⟨htagslen, rfl, rfl⟩ := Reader.read_eq_ok htags
  obtain ⟨hpair, rfl⟩ := Prod.mk.inj (Except.ok.inj h)
  obtain ⟨rfl, rfl⟩ := Prod.mk.inj hpair
  refine ⟨⟨Codec.toList_decode_bytes hkeylen, rfl, rfl, ?_⟩, rfl⟩
  refine (toList_decode_tags htagslen).trans (List.map_congr_left fun i hi => ?_)
  refine slice_slice ?_
  have hlt : i < metaMaxTags := List.mem_range.1 hi
  show i * metaMaxTagLen + metaMaxTagLen ≤ metaMaxTags * (metaMaxTagLen * 1)
  rw [metaMaxTags] at hlt ⊢
  rw [metaMaxTagLen]
  omega

theorem value_of_readValue {offset : ℕ} {type : UInt32} {v : MetaValue}
    (h : readValue allocated type (bytes.drop offset) = .ok (v, rest)) :
    (∀ s, v = .string s → 0 ∈ s.toList) ↔
      (type = MetaType.string.code → 0 ∈ slice bytes offset metaMaxValueLen) := by
  obtain ⟨htype, -⟩ := type_of_readValue h
  by_cases hstring : type = MetaType.string.code
  · subst hstring
    obtain ⟨s, hs, rfl⟩ := Reader.map_eq_ok h
    obtain ⟨hlen, rfl, -⟩ := Reader.read_eq_ok hs
    have hbytes : (stringCodec.decode (slice bytes offset stringCodec.width)).toList =
        slice bytes offset stringCodec.width := Codec.toList_decode_bytes hlen
    constructor
    · intro h _
      have h0 := h _ rfl
      rw [hbytes] at h0
      exact h0
    · intro h s' hs'
      obtain rfl := MetaValue.string.inj hs'
      rw [hbytes]
      exact h rfl
  · refine iff_of_true (fun s hs => ?_) fun h => absurd h hstring
    subst hs
    exact absurd htype.symm hstring

/-- **Valid entries come from valid files**, and then the filters of every query stay within the
entry. -/
theorem entry_valid_iff {e : MetadataEntry}
    (h : readEntryFromFile allocated (some bytes) = .ok e) :
    (e.Valid ↔ ValidFile bytes) ∧ (e.Valid → ∀ query, matchesQuery query e ≠ none) := by
  refine ⟨?_, fun hvalid query => ?_⟩
  · obtain ⟨type, mid, rest, hfields, hvalue⟩ := exists_of_readEntryFromFile h
    obtain ⟨⟨hkey, rfl, hcount, htags⟩, rfl⟩ := fieldsAt_of_readFields hfields
    have hstring := value_of_readValue hvalue
    -- the offsets of `ValidFile`
    change e.tagCount = Codec.int32.decode (slice bytes 268 4) at hcount
    have hrows : (∀ t ∈ e.usedTags, 0 ∈ t) ↔ ∀ i < min e.tagCount.toInt.toNat metaMaxTags,
        0 ∈ slice bytes (288 + i * metaMaxTagLen) metaMaxTagLen := by
      rw [MetadataEntry.usedTags, htags, ← List.map_take, List.take_range, List.forall_mem_map]
      simp only [List.mem_range]
      rfl
    constructor
    · intro hv
      have hrows := hrows.1 hv.tags
      rw [Nat.min_eq_left (Int.toNat_le.2 hv.tagCount_le)] at hrows
      exact ⟨hcount ▸ hv.tagCount_nonneg, hcount ▸ hv.tagCount_le, hkey ▸ hv.key, hcount ▸ hrows,
        hstring.1 hv.value⟩
    · rintro ⟨hnonneg, hle, hkey0, htags0, hvalue0⟩
      rw [← hcount] at hnonneg hle htags0
      refine ⟨hnonneg, hle, hkey.symm ▸ hkey0, hrows.2 fun i hi => ?_, hstring.2 hvalue0⟩
      exact htags0 i (Nat.lt_of_lt_of_le hi (Nat.min_le_left _ _))
  · rw [MetadataStore.matchesQuery_of_valid hvalid]
    exact Option.some_ne_none _

open MetadataStore (intEntry slashKey)

/-- The file of an integer entry, read without an error. -/
theorem entry_valid_iff_integer :
    (intEntry slashKey 1).Valid ↔ ValidFile (intEntry slashKey 1).items.flatten := by
  have hread : readEntryFromFile true (some (intEntry slashKey 1).items.flatten) =
      .ok (intEntry slashKey 1) := readEntry_of_storable trivial trivial
  exact (entry_valid_iff hread).1

/-- An entry with a hundred tags, all of them empty. -/
def manyTags : MetadataEntry := { intEntry slashKey 1 with tagCount := 100 }

/-- A file that is read without an error, as an entry with a hundred tags; a query for a tag reads
behind the array of tags, and behind the entry. -/
theorem entry_with_too_many_tags :
    readEntryFromFile true (some manyTags.items.flatten) = .ok manyTags ∧ ¬ manyTags.Valid ∧
      matchesQuery (some ⟨none, some [0x78], 1, 0, 0⟩) manyTags = none := by
  refine ⟨readEntry_of_storable trivial trivial, fun h => ?_, by decide⟩
  exact absurd h.tagCount_le (by decide)

end DistributedComputing
