import Mathlib.Data.Nat.Digits.Lemmas
import Mathlib.Data.List.TakeWhile

/-!
# Numbers and strings as bytes

Unsigned numbers of a fixed width in little-endian order, the layout in which structures are copied
to a socket or a file on the machines this is about. `encodeLE n v` writes the low `n` bytes of `v`,
and `decodeLE` reads bytes back. `cString` is the string in a buffer: everything before the first
zero byte; `strncpy` is what a bounded copy leaves of it, and `fill` the buffer that it leaves.
`decimalDigits` is a number as it is printed.
-/

namespace Bytes

/-- The low `n` bytes of `v`, least significant first. -/
def encodeLE : ℕ → ℕ → List UInt8
  | 0, _ => []
  | n + 1, v => UInt8.ofNat v :: encodeLE n (v / 256)

/-- The number written in the bytes, least significant first. -/
def decodeLE : List UInt8 → ℕ
  | [] => 0
  | b :: l => b.toNat + 256 * decodeLE l

@[simp] theorem length_encodeLE (n v : ℕ) : (encodeLE n v).length = n := by
  induction n generalizing v with
  | zero => rfl
  | succ n ih => rw [encodeLE, List.length_cons, ih]

theorem decodeLE_encodeLE (n v : ℕ) : decodeLE (encodeLE n v) = v % 256 ^ n := by
  induction n generalizing v with
  | zero => exact (Nat.mod_one v).symm
  | succ n ih =>
    rw [encodeLE, decodeLE, ih, Nat.pow_succ', Nat.mod_mul]
    rfl

/-- Nothing is lost of a number that fits. -/
theorem decodeLE_encodeLE_of_lt {n v : ℕ} (h : v < 256 ^ n) : decodeLE (encodeLE n v) = v := by
  rw [decodeLE_encodeLE, Nat.mod_eq_of_lt h]

/-! ### Strings -/

/-- What `strlen`, `strcmp` and `strncpy` see of a buffer. -/
def cString (bytes : List UInt8) : List UInt8 := bytes.takeWhile (· ≠ 0)

theorem cString_eq_self {bytes : List UInt8} (h : 0 ∉ bytes) : cString bytes = bytes := by
  rw [cString, List.takeWhile_eq_self_iff]
  intro b hb
  exact decide_eq_true fun h0 => h (h0 ▸ hb)

theorem zero_not_mem_cString (bytes : List UInt8) : 0 ∉ cString bytes := fun h => by
  simpa using List.mem_takeWhile_imp h

theorem cString_cons {a : UInt8} (h : a ≠ 0) (l : List UInt8) :
    cString (a :: l) = a :: cString l :=
  List.takeWhile_cons_of_pos (decide_eq_true h)

theorem cString_zero_cons (l : List UInt8) : cString (0 :: l) = [] :=
  List.takeWhile_cons_of_neg (by decide)

/-- Nothing behind a zero byte counts. -/
theorem cString_append_zero (bytes rest : List UInt8) :
    cString (bytes ++ 0 :: rest) = cString bytes := by
  rw [cString, cString, List.takeWhile_append]
  split
  · next hlen =>
    rw [(List.takeWhile_prefix _).eq_of_length hlen, List.takeWhile_cons_of_neg, List.append_nil]
    simp
  · rfl

/-- `strncpy` of at most `n` bytes into a buffer of zeros: the string that is then in it. -/
def strncpy (n : ℕ) (bytes : List UInt8) : List UInt8 := (cString bytes).take n

/-- A string that fits is copied. -/
theorem strncpy_eq_self {n : ℕ} {bytes : List UInt8} (h : 0 ∉ bytes) (hlen : bytes.length ≤ n) :
    strncpy n bytes = bytes := by
  rw [strncpy, cString_eq_self h, List.take_of_length_le hlen]

/-- A buffer of zeros with the bytes at its start, as far as they fit. -/
def fill (n : ℕ) (bytes : List UInt8) : Vector UInt8 n :=
  ⟨((bytes ++ List.replicate n 0).take n).toArray, by simp⟩

/-- A string that leaves room for a zero is in the buffer. -/
theorem cString_fill {n : ℕ} {bytes : List UInt8} (h : 0 ∉ bytes) (hlen : bytes.length < n) :
    cString (fill n bytes).toList = bytes := by
  obtain ⟨m, rfl⟩ := Nat.exists_eq_add_of_lt hlen
  show cString ((bytes ++ List.replicate (bytes.length + m + 1) 0).take _) = bytes
  have hroom : bytes.length + m + 1 - bytes.length = m + 1 := by omega
  rw [List.take_append, List.take_of_length_le (by omega), List.take_replicate, hroom,
    Nat.min_eq_left (by omega), List.replicate_succ, cString_append_zero, cString_eq_self h]

theorem cString_fill_strncpy {n : ℕ} {bytes : List UInt8} (h0 : 0 ∉ bytes)
    (hlen : bytes.length < n) : cString (fill n (strncpy (n - 1) bytes)).toList = bytes := by
  rw [strncpy_eq_self h0 (Nat.le_sub_one_of_lt hlen), cString_fill h0 hlen]

/-! ### Numbers in text -/

/-- The decimal digits of a number, as `%lu` prints them. -/
def decimalDigits (n : ℕ) : List UInt8 :=
  if n = 0 then [0x30] else ((Nat.digits 10 n).map fun d => UInt8.ofNat (0x30 + d)).reverse

/-- A digit is one of `0` to `9`. -/
theorem toNat_mem_decimalDigits {n : ℕ} {c : UInt8} (h : c ∈ decimalDigits n) :
    0x30 ≤ c.toNat ∧ c.toNat ≤ 0x39 := by
  rw [decimalDigits] at h
  split at h
  · obtain rfl := List.mem_singleton.1 h
    decide
  · obtain ⟨d, hd, rfl⟩ := List.mem_map.1 (List.mem_reverse.1 h)
    have hlt : d < 10 := Nat.digits_lt_base (by decide) hd
    have hval : (UInt8.ofNat (0x30 + d)).toNat = 0x30 + d :=
      UInt8.toNat_ofNat_of_lt' (Nat.lt_of_lt_of_le (Nat.add_lt_add_left hlt _) (by decide))
    omega

theorem length_decimalDigits_le {n k : ℕ} (hk : 0 < k) (h : n < 10 ^ k) :
    (decimalDigits n).length ≤ k := by
  rw [decimalDigits]
  split
  · exact hk
  · rw [List.length_reverse, List.length_map]
    exact (Nat.digits_length_le_iff (by decide) n).2 h

end Bytes
