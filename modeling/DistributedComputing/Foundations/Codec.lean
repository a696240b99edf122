import DistributedComputing.Foundations.Bytes

/-!
# Items of a binary file

A binary file is a sequence of items of fixed size, written one after the other and read back in the
same order. `Codec α` is an item: an encoding of `α` in a fixed number of bytes, with the proof that
decoding inverts it. `Reader ε α` reads from the front of what is left of a file, and can fail.

Two rules compose whole formats from their items. `Reader.Yields p bytes a` says that `p` reads `a`
from `bytes`, and leaves whatever stands behind; it passes through `bind` (`Yields.bind`).
`Reader.Rejects p bytes e` says that `p` fails on a file of exactly these bytes; it passes through
`bind` after items that are read (`Yields.bind_rejects`). For a file that is not known to be written
by anyone, `Reader.read_eq_ok` says where in it an item that was read stands.
-/

namespace Bytes

variable {α β ε : Type}

/-- An encoding in a fixed number of bytes. -/
structure Codec (α : Type) where
  width : ℕ
  encode : α → List UInt8
  decode : List UInt8 → α
  length_encode : ∀ a, (encode a).length = width
  decode_encode : ∀ a, decode (encode a) = a

namespace Codec

/-- One byte. -/
def uint8 : Codec UInt8 where
  width := 1
  encode b := [b]
  decode l := l.headD 0
  length_encode _ := rfl
  decode_encode _ := rfl

/-- An unsigned number of 32 bits. -/
def uint32 : Codec UInt32 where
  width := 4
  encode v := encodeLE 4 v.toNat
  decode l := .ofNat (decodeLE l)
  length_encode v := length_encodeLE 4 v.toNat
  decode_encode v := by rw [decodeLE_encodeLE_of_lt v.toNat_lt, UInt32.ofNat_toNat]

/-- An unsigned number of 64 bits. -/
def uint64 : Codec UInt64 where
  width := 8
  encode v := encodeLE 8 v.toNat
  decode l := .ofNat (decodeLE l)
  length_encode v := length_encodeLE 8 v.toNat
  decode_encode v := by rw [decodeLE_encodeLE_of_lt v.toNat_lt, UInt64.ofNat_toNat]

/-- The same bytes, for another type. -/
def map (c : Codec α) (f : α → β) (g : β → α) (h : ∀ b, f (g b) = b) : Codec β where
  width := c.width
  encode b := c.encode (g b)
  decode l := f (c.decode l)
  length_encode b := c.length_encode (g b)
  decode_encode b := by rw [c.decode_encode, h]

/-- A signed number of 32 bits. -/
def int32 : Codec Int32 := uint32.map UInt32.toInt32 Int32.toUInt32 Int32.toInt32_toUInt32

/-- A signed number of 64 bits. -/
def int64 : Codec Int64 := uint64.map UInt64.toInt64 Int64.toUInt64 Int64.toInt64_toUInt64

/-! ### Structures -/

/-- One item behind the other. -/
def prod (c : Codec α) (d : Codec β) : Codec (α × β) where
  width := c.width + d.width
  encode p := c.encode p.1 ++ d.encode p.2
  decode l := (c.decode (l.take c.width), d.decode (l.drop c.width))
  length_encode p := by rw [List.length_append, c.length_encode, d.length_encode]
  decode_encode p := by
    rw [List.take_left' (c.length_encode _), List.drop_left' (c.length_encode _), c.decode_encode,
      d.decode_encode]

/-- Bytes between the fields of a structure, which hold nothing. -/
def padding (n : ℕ) : Codec Unit where
  width := n
  encode _ := List.replicate n 0
  decode _ := ()
  length_encode _ := List.length_replicate
  decode_encode _ := rfl

/-! ### Arrays -/

theorem length_flatMap_encode (c : Codec α) (l : List α) :
    (l.flatMap c.encode).length = l.length * c.width := by
  induction l with
  | nil => rw [List.flatMap_nil, List.length_nil, List.length_nil, Nat.zero_mul]
  | cons a l ih =>
    rw [List.flatMap_cons, List.length_append, ih, c.length_encode, List.length_cons, Nat.succ_mul,
      Nat.add_comm]

/-- An item of an array stands at the multiple of the width. -/
theorem take_drop_flatMap_encode (c : Codec α) {l : List α} {i : ℕ} (h : i < l.length) :
    ((l.flatMap c.encode).drop (i * c.width)).take c.width = c.encode l[i] := by
  have hsplit : l.flatMap c.encode =
      (l.take i).flatMap c.encode ++ (c.encode l[i] ++ (l.drop (i + 1)).flatMap c.encode) := by
    conv_lhs => rw [← List.take_append_drop i l, List.drop_eq_getElem_cons h]
    rw [List.flatMap_append, List.flatMap_cons]
  have hlen : ((l.take i).flatMap c.encode).length = i * c.width := by
    rw [length_flatMap_encode, List.length_take, Nat.min_eq_left (Nat.le_of_lt h)]
  rw [hsplit, List.drop_left' hlen, List.take_left' (c.length_encode _)]

/-- An array of items. -/
def vector (c : Codec α) (n : ℕ) : Codec (Vector α n) where
  width := n * c.width
  encode v := v.toList.flatMap c.encode
  decode l := Vector.ofFn fun i : Fin n => c.decode ((l.drop (i * c.width)).take c.width)
  length_encode v := by rw [length_flatMap_encode, Vector.length_toList]
  decode_encode v := by
    ext i hi
    have hi' : i < v.toList.length := by rwa [Vector.length_toList]
    rw [Vector.getElem_ofFn]
    show c.decode (((v.toList.flatMap c.encode).drop (i * c.width)).take c.width) = v[i]
    rw [take_drop_flatMap_encode c hi', c.decode_encode, Vector.getElem_toList]

/-- An array of bytes is the bytes. -/
theorem toList_decode_bytes {n : ℕ} {l : List UInt8} (h : l.length = n) :
    ((vector uint8 n).decode l).toList = l := by
  refine List.ext_getElem (by rw [Vector.length_toList, h]) fun i hi hi' => ?_
  have hlt : i < n := by rwa [Vector.length_toList] at hi
  have hhead : (l.drop (i * 1)).take 1 = [l[i]] := by
    rw [Nat.mul_one, List.drop_eq_getElem_cons hi', List.take_succ_cons, List.take_zero]
  rw [Vector.getElem_toList]
  show (Vector.ofFn fun i : Fin n => uint8.decode ((l.drop (i * 1)).take 1))[i] = l[i]
  rw [Vector.getElem_ofFn, hhead]
  rfl

end Codec

/-! ### Readers -/

/-- The bytes from an offset on. -/
def slice (bytes : List UInt8) (offset width : ℕ) : List UInt8 := (bytes.drop offset).take width

theorem slice_slice {bytes : List UInt8} {offset width i n : ℕ} (h : i + n ≤ width) :
    slice (slice bytes offset width) i n = slice bytes (offset + i) n := by
  rw [slice, slice, slice, List.drop_take, List.take_take, List.drop_drop,
    Nat.min_eq_left (by omega)]

/-- A computation on the bytes that are left of a file. -/
abbrev Reader (ε α : Type) := StateT (List UInt8) (Except ε) α

/-- The next `n` bytes, or an error if there are fewer. -/
def takeBytes (n : ℕ) (e : ε) : Reader ε { l : List UInt8 // l.length = n } := fun bytes =>
  if h : n ≤ bytes.length then
    .ok (⟨bytes.take n, List.length_take_of_le h⟩, bytes.drop n)
  else .error e

/-- `fread` of one item, with the error that is returned if it cannot be read. -/
def Codec.read (c : Codec α) (e : ε) : Reader ε α := (fun l => c.decode l.1) <$> takeBytes c.width e

/-- An error unless the condition holds. -/
def ensure (p : Prop) [Decidable p] (e : ε) : Reader ε Unit := if p then pure () else throw e

namespace Reader

/-- The reader takes exactly these bytes from the front, and returns the value. -/
def Yields (p : Reader ε α) (bytes : List UInt8) (a : α) : Prop :=
  ∀ rest, p (bytes ++ rest) = .ok (a, rest)

/-- The reader fails on a file of these bytes. -/
def Rejects (p : Reader ε α) (bytes : List UInt8) (e : ε) : Prop := p bytes = .error e

/-- The reader fails on every file that breaks off before the end of these bytes. -/
def Needs (p : Reader ε α) (bytes : List UInt8) (e : ε) : Prop :=
  ∀ cut, cut <+: bytes → cut.length < bytes.length → p.Rejects cut e

variable {p : Reader ε α} {f : α → Reader ε β} {bytes bytes' : List UInt8} {a : α} {b : β} {e : ε}

theorem yields_pure (a : α) : (pure a : Reader ε α).Yields [] a := fun _ => rfl

/-- **Reading in sequence.** -/
theorem Yields.bind (h : p.Yields bytes a) (h' : (f a).Yields bytes' b) :
    (p >>= f).Yields (bytes ++ bytes') b := fun rest => by
  show (p (bytes ++ bytes' ++ rest)).bind (fun r => f r.1 r.2) = .ok (b, rest)
  rw [List.append_assoc, h (bytes' ++ rest)]
  exact h' rest

theorem Yields.map (h : p.Yields bytes a) (g : α → β) :
    (g <$> p).Yields bytes (g a) := fun rest => by
  show (p (bytes ++ rest)).bind (fun r => .ok (g r.1, r.2)) = .ok (g a, rest)
  rw [h rest]
  rfl

/-- **Failing after what was read.** -/
theorem Yields.bind_rejects (h : p.Yields bytes a) (h' : (f a).Rejects bytes' e) :
    (p >>= f).Rejects (bytes ++ bytes') e := by
  show (p (bytes ++ bytes')).bind (fun r => f r.1 r.2) = .error e
  rw [h bytes']
  exact h'

theorem Rejects.bind (h : p.Rejects bytes e) (f : α → Reader ε β) : (p >>= f).Rejects bytes e := by
  show (p bytes).bind (fun r => f r.1 r.2) = .error e
  rw [show p bytes = .error e from h]
  rfl

theorem Rejects.map (h : p.Rejects bytes e) (g : α → β) : (g <$> p).Rejects bytes e := by
  show (p bytes).bind (fun r => .ok (g r.1, r.2)) = .error e
  rw [show p bytes = .error e from h]
  rfl

theorem needs_nil (p : Reader ε α) (e : ε) : p.Needs [] e :=
  fun cut _ hlt => absurd hlt (Nat.not_lt_zero cut.length)

/-- **Breaking off in a sequence**: within what is read first, or after it. -/
theorem Yields.bind_needs (h : p.Yields bytes a) (hn : p.Needs bytes e)
    (hn' : (f a).Needs bytes' e) : (p >>= f).Needs (bytes ++ bytes') e := by
  intro cut hcut hlt
  rcases Nat.lt_or_ge cut.length bytes.length with hshort | hlong
  · have hfirst : cut <+: bytes :=
      List.prefix_of_prefix_length_le hcut (List.prefix_append ..) hshort.le
    exact (hn cut hfirst hshort).bind f
  · obtain ⟨rest, rfl⟩ : bytes <+: cut :=
      List.prefix_of_prefix_length_le (List.prefix_append ..) hcut hlong
    rw [List.length_append, List.length_append] at hlt
    exact h.bind_rejects
      (hn' rest ((List.prefix_append_right_inj bytes).1 hcut) (Nat.lt_of_add_lt_add_left hlt))

theorem Needs.map (h : p.Needs bytes e) (g : α → β) : (g <$> p).Needs bytes e :=
  fun cut hcut hlt => (h cut hcut hlt).map g

theorem yields_takeBytes {l : List UInt8} {n : ℕ} (h : l.length = n) (e : ε) :
    (takeBytes n e).Yields l ⟨l, h⟩ := fun rest => by
  subst h
  have hle : l.length ≤ (l ++ rest).length := by
    rw [List.length_append]
    exact Nat.le_add_right _ _
  rw [takeBytes, dif_pos hle]
  simp only [List.take_left, List.drop_left]

theorem rejects_takeBytes {n : ℕ} (h : bytes.length < n) (e : ε) :
    (takeBytes n e).Rejects bytes e :=
  dif_neg (Nat.not_le.2 h)

theorem needs_takeBytes {n : ℕ} (h : bytes.length = n) (e : ε) :
    (takeBytes n e).Needs bytes e :=
  fun _ _ hlt => rejects_takeBytes (h ▸ hlt) e

/-- **One item.** -/
theorem yields_read (c : Codec α) (a : α) (e : ε) :
    (c.read e).Yields (c.encode a) a := fun rest => by
  have hle : c.width ≤ (c.encode a ++ rest).length := by
    rw [List.length_append, c.length_encode]
    exact Nat.le_add_right _ _
  show (takeBytes c.width e (c.encode a ++ rest)).bind (fun r => .ok (c.decode r.1.1, r.2)) = _
  rw [takeBytes, dif_pos hle]
  show Except.ok (c.decode ((c.encode a ++ rest).take c.width),
    (c.encode a ++ rest).drop c.width) = _
  rw [List.take_left' (c.length_encode a), List.drop_left' (c.length_encode a), c.decode_encode]

theorem needs_read (c : Codec α) (a : α) (e : ε) : (c.read e).Needs (c.encode a) e :=
  (needs_takeBytes (c.length_encode a) e).map _

/-! ### What was read -/

theorem bind_eq_ok {rest : List UInt8} (h : (p >>= f) bytes = .ok (b, rest)) :
    ∃ a mid, p bytes = .ok (a, mid) ∧ f a mid = .ok (b, rest) := by
  change (p bytes).bind (fun r => f r.1 r.2) = .ok (b, rest) at h
  rcases hp : p bytes with e | ⟨a, mid⟩
  · rw [hp] at h
    cases h
  · rw [hp] at h
    exact ⟨a, mid, rfl, h⟩

theorem bind_of_ok {mid : List UInt8} (h : p bytes = .ok (a, mid)) (f : α → Reader ε β) :
    (p >>= f) bytes = f a mid := by
  show (p bytes).bind (fun r => f r.1 r.2) = f a mid
  rw [h]
  rfl

theorem map_eq_ok {g : α → β} {rest : List UInt8} (h : (g <$> p) bytes = .ok (b, rest)) :
    ∃ a, p bytes = .ok (a, rest) ∧ g a = b := by
  change (p bytes).bind (fun r => .ok (g r.1, r.2)) = .ok (b, rest) at h
  rcases hp : p bytes with e | ⟨a, mid⟩
  · rw [hp] at h
    cases h
  · rw [hp] at h
    obtain ⟨rfl, rfl⟩ := Prod.mk.inj (Except.ok.inj h)
    exact ⟨a, rfl, rfl⟩

/-- **One item, from an offset on**: it is decoded from the bytes that stand there. -/
theorem read_eq_ok {c : Codec α} {offset : ℕ} {rest : List UInt8}
    (h : c.read e (bytes.drop offset) = .ok (a, rest)) :
    (slice bytes offset c.width).length = c.width ∧ a = c.decode (slice bytes offset c.width) ∧
      rest = bytes.drop (offset + c.width) := by
  obtain ⟨l, hl, rfl⟩ := map_eq_ok h
  rw [takeBytes] at hl
  split at hl
  · next hle =>
    obtain ⟨rfl, rfl⟩ := Prod.mk.inj (Except.ok.inj hl)
    exact ⟨List.length_take_of_le hle, rfl, List.drop_drop⟩
  · cases hl

theorem yields_ensure {q : Prop} [Decidable q] (h : q) (e : ε) : (ensure q e).Yields [] () :=
  fun rest => by
    rw [ensure, if_pos h]
    rfl

end Reader

end Bytes
