import Mathlib.Data.List.GetD
import DistributedComputing.Foundations.Bytes

/-!
# Programs that read a buffer through offsets

A decoder in C reads a buffer at offsets it computes, and nothing stops it at the end of the buffer.
`Reading α` is such a program: it ends with a value, or reads some bytes at an offset and goes on
with what it has read. Running it on a memory gives the value together with the **accesses** it
made, the offset and the width of each.

`InBounds len mem p` says that all accesses of `p` on `mem` are below `len`. It is composed along
the program (`inBounds_bind`). What is read in bounds is read from the buffer, whatever lies behind
(`bytesAt_memoryOf`).
-/

namespace Bytes

variable {α β : Type}

/-- A program that reads memory at offsets. -/
inductive Reading (α : Type) : Type
  | done (a : α)
  | read (offset width : ℕ) (k : List UInt8 → Reading α)

/-- The bytes at an offset. -/
def bytesAt (mem : ℕ → UInt8) (offset width : ℕ) : List UInt8 :=
  (List.range width).map fun i => mem (offset + i)

namespace Reading

/-- One program after the other. -/
def bind : Reading α → (α → Reading β) → Reading β
  | .done a, f => f a
  | .read offset width k, f => .read offset width fun l => (k l).bind f

instance : Monad Reading where
  pure := .done
  bind := bind

/-- The bytes at an offset. -/
def bytes (offset width : ℕ) : Reading (List UInt8) := .read offset width .done

/-- The value a program ends with, and the accesses it makes. -/
def run (mem : ℕ → UInt8) : Reading α → α × List (ℕ × ℕ)
  | .done a => (a, [])
  | .read offset width k =>
    let r := (k (bytesAt mem offset width)).run mem
    (r.1, (offset, width) :: r.2)

variable {mem : ℕ → UInt8} {len : ℕ} {p : Reading α} {f : α → Reading β}

@[simp] theorem run_pure (mem : ℕ → UInt8) (a : α) : (pure a : Reading α).run mem = (a, []) := rfl

@[simp] theorem run_bytes (mem : ℕ → UInt8) (offset width : ℕ) :
    (bytes offset width).run mem = (bytesAt mem offset width, [(offset, width)]) := rfl

/-- **Running in sequence.** -/
@[simp] theorem run_bind (mem : ℕ → UInt8) (p : Reading α) (f : α → Reading β) :
    (p >>= f).run mem =
      (((f (p.run mem).1).run mem).1, (p.run mem).2 ++ ((f (p.run mem).1).run mem).2) := by
  show (p.bind f).run mem = _
  induction p with
  | done a => rfl
  | read offset width k ih =>
    rw [bind, run, ih]
    rfl

/-- All accesses of the program are below `len`. -/
def InBounds (len : ℕ) (mem : ℕ → UInt8) (p : Reading α) : Prop :=
  ∀ a ∈ (p.run mem).2, a.1 + a.2 ≤ len

theorem inBounds_pure (a : α) : InBounds len mem (pure a) := List.forall_mem_nil _

theorem inBounds_bytes {offset width : ℕ} :
    InBounds len mem (bytes offset width) ↔ offset + width ≤ len := by
  rw [InBounds, run_bytes, List.forall_mem_singleton]

theorem inBounds_bind :
    InBounds len mem (p >>= f) ↔ InBounds len mem p ∧ InBounds len mem (f (p.run mem).1) := by
  rw [InBounds, run_bind, List.forall_mem_append]
  rfl

theorem inBounds_map {g : α → β} : InBounds len mem (g <$> p) ↔ InBounds len mem p := by
  show InBounds len mem (p >>= fun a => pure (g a)) ↔ _
  rw [inBounds_bind]
  exact and_iff_left (inBounds_pure _)

end Reading

/-- The memory at a buffer: the bytes of the buffer, and behind it whatever is there. -/
def memoryOf (buffer : List UInt8) (behind : ℕ → UInt8) (i : ℕ) : UInt8 :=
  buffer.getD i (behind i)

/-- In bounds, the bytes read are those of the buffer. -/
theorem bytesAt_memoryOf {buffer : List UInt8} {offset width : ℕ}
    (h : offset + width ≤ buffer.length) (behind : ℕ → UInt8) :
    bytesAt (memoryOf buffer behind) offset width = (buffer.drop offset).take width := by
  refine List.ext_getElem ?_ fun i hi hi' => ?_
  · rw [bytesAt, List.length_map, List.length_range, List.length_take, List.length_drop]
    omega
  · have hlt : i < width := by simpa [bytesAt] using hi
    rw [List.getElem_take, List.getElem_drop]
    simp only [bytesAt, List.getElem_map, List.getElem_range, memoryOf]
    rw [List.getD_eq_getElem]

end Bytes
