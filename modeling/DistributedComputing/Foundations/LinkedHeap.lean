import Mathlib.Data.List.Nodup
import Mathlib.Data.List.Perm.Subperm
import Mathlib.Data.List.Range

/-!
# Singly linked lists in a heap

What a C program with `malloc`, `free` and `next` pointers does to a list, stated once. A `Heap`
maps addresses to cells; address `0` is `NULL`, reading an address that holds no cell is a fault
(`none`), and allocation hands out an address never used before.

The representation predicate is `Seg h p l q`: following `next` from `p` visits exactly the nodes
`l`, an address with its contents each, and then arrives at `q`. A `Chain` is a segment that ends in
`NULL`, with distinct allocated addresses; distinctness is what makes writing through one pointer
leave the other nodes alone.

## The operations and their rules

* Traversal: `walk`, the loop with a trailing pointer (`walk_eq`), `collect`, which reads the
  contents (`collect_eq`), and `freeAll` (`freeAll_eq`). They run on fuel; a chain of a heap is
  never longer than the number of addresses handed out (`Chain.length_lt`), so `h.brk` is always
  enough.
* Insertion: `Chain.push` at the head and `Chain.insertAfter` behind a node.
* Removal: `Chain.pop` at the head and `Chain.removeAfter` behind a node.
-/

namespace LinkedHeap

/-- An address. `0` is `NULL`. -/
abbrev Addr := ℕ

/-- One allocated node: its contents and its `next` pointer. -/
structure Cell (α : Type*) where
  val : α
  next : Addr

/-- The allocated cells, and the first address that was never handed out. -/
structure Heap (α : Type*) where
  cells : Addr → Option (Cell α)
  brk : Addr
  brk_pos : 0 < brk

variable {α : Type*}

namespace Heap

/-- No cells. -/
def empty : Heap α := ⟨fun _ => none, 1, Nat.one_pos⟩

/-- Reading through a pointer; `none` is a fault. -/
def read (h : Heap α) (a : Addr) : Option (Cell α) := h.cells a

/-- Overwriting the cell at an address. -/
def write (h : Heap α) (a : Addr) (c : Cell α) : Heap α :=
  { h with cells := Function.update h.cells a (some c) }

/-- `malloc`, succeeding: the new cell is at address `h.brk`. -/
def alloc (h : Heap α) (c : Cell α) : Heap α where
  cells := Function.update h.cells h.brk (some c)
  brk := h.brk + 1
  brk_pos := Nat.succ_pos _

/-- `free`. -/
def free (h : Heap α) (a : Addr) : Heap α :=
  { h with cells := Function.update h.cells a none }

/-- `p->next = n`, a fault if `p` holds no cell. -/
def setNext (h : Heap α) (p n : Addr) : Option (Heap α) :=
  (h.read p).map fun c => h.write p { c with next := n }

@[simp] theorem read_write_self (h : Heap α) (a : Addr) (c : Cell α) :
    (h.write a c).read a = some c :=
  Function.update_self ..

theorem read_write_of_ne (h : Heap α) {a b : Addr} (hab : b ≠ a) (c : Cell α) :
    (h.write a c).read b = h.read b :=
  Function.update_of_ne hab ..

@[simp] theorem read_alloc_self (h : Heap α) (c : Cell α) : (h.alloc c).read h.brk = some c :=
  Function.update_self ..

theorem read_alloc_of_ne (h : Heap α) {b : Addr} (hb : b ≠ h.brk) (c : Cell α) :
    (h.alloc c).read b = h.read b :=
  Function.update_of_ne hb ..

theorem read_free_of_ne (h : Heap α) {a b : Addr} (hab : b ≠ a) : (h.free a).read b = h.read b :=
  Function.update_of_ne hab ..

theorem setNext_of_read {h : Heap α} {p : Addr} {v : α} {m : Addr} (hp : h.read p = some ⟨v, m⟩)
    (n : Addr) : h.setNext p n = some (h.write p ⟨v, n⟩) := by
  rw [setNext, hp]
  rfl

/-- Setting the link of a fresh cell is the same as allocating it with that link. -/
theorem setNext_alloc (h : Heap α) (v : α) (m n : Addr) :
    (h.alloc ⟨v, m⟩).setNext h.brk n = some (h.alloc ⟨v, n⟩) := by
  rw [setNext_of_read (h.read_alloc_self _)]
  simp [write, alloc, Function.update_idem]

end Heap

/-! ### Segments -/

/-- Following `next` from `p` visits exactly the nodes `l` and arrives at `q`. -/
def Seg (h : Heap α) : Addr → List (Addr × α) → Addr → Prop
  | p, [], q => p = q
  | p, (a, v) :: l, q => p = a ∧ a ≠ 0 ∧ ∃ n, h.read a = some ⟨v, n⟩ ∧ Seg h n l q

/-- The address of the first node, `NULL` if there is none. -/
def headAddr : List (Addr × α) → Addr
  | [] => 0
  | (a, _) :: _ => a

/-- The address of the last node, `p` if there is none. -/
def lastAddr (p : Addr) : List (Addr × α) → Addr
  | [] => p
  | (a, _) :: l => lastAddr a l

variable {h h' : Heap α} {p q : Addr} {l l₁ l₂ : List (Addr × α)}

@[simp] theorem lastAddr_concat (p a : Addr) (v : α) (l : List (Addr × α)) :
    lastAddr p (l ++ [(a, v)]) = a := by
  induction l generalizing p with
  | nil => rfl
  | cons x l ih => exact ih x.1

theorem Seg.head_eq (hs : Seg h p l 0) : p = headAddr l := by
  cases l with
  | nil => exact hs
  | cons x l => exact hs.1

theorem seg_append : Seg h p (l₁ ++ l₂) q ↔ ∃ m, Seg h p l₁ m ∧ Seg h m l₂ q := by
  induction l₁ generalizing p with
  | nil => simp [Seg]
  | cons x l₁ ih =>
    obtain ⟨a, v⟩ := x
    simp only [List.cons_append, Seg, ih]
    constructor
    · rintro ⟨hp, ha, n, hr, m, h1, h2⟩
      exact ⟨m, ⟨hp, ha, n, hr, h1⟩, h2⟩
    · rintro ⟨m, ⟨hp, ha, n, hr, h1⟩, h2⟩
      exact ⟨hp, ha, n, hr, m, h1, h2⟩

/-- **The frame rule.** A segment only depends on the cells of its own nodes. -/
theorem Seg.frame (hs : Seg h p l q) (hread : ∀ a ∈ l.map Prod.fst, h'.read a = h.read a) :
    Seg h' p l q := by
  induction l generalizing p with
  | nil => exact hs
  | cons x l ih =>
    obtain ⟨a, v⟩ := x
    obtain ⟨hp, ha, n, hr, hrest⟩ := hs
    refine ⟨hp, ha, n, ?_, ih hrest fun b hb => hread b (List.mem_cons_of_mem a hb)⟩
    rw [hread a List.mem_cons_self, hr]

/-! ### Chains -/

/-- The nodes `l`, at distinct allocated addresses, linked from `p` to `NULL`. -/
structure Chain (h : Heap α) (p : Addr) (l : List (Addr × α)) : Prop where
  seg : Seg h p l 0
  nodup : (l.map Prod.fst).Nodup
  below : ∀ a ∈ l.map Prod.fst, a < h.brk

theorem chain_nil (h : Heap α) : Chain h 0 [] :=
  ⟨rfl, List.nodup_nil, List.forall_mem_nil _⟩

theorem Chain.head_eq (hc : Chain h p l) : p = headAddr l := hc.seg.head_eq

/-- The head pointer is `NULL` exactly when there are no nodes. -/
theorem Chain.head_eq_zero_iff (hc : Chain h p l) : p = 0 ↔ l = [] := by
  cases l with
  | nil => exact iff_of_true hc.seg rfl
  | cons x l => exact iff_of_false (fun hp => hc.seg.2.1 (hc.seg.1 ▸ hp)) nofun

theorem Seg.ne_zero (hs : Seg h p l q) {a : Addr} (ha : a ∈ l.map Prod.fst) : a ≠ 0 := by
  induction l generalizing p with
  | nil => exact absurd ha List.not_mem_nil
  | cons x l ih =>
    obtain ⟨-, hx, n, -, hrest⟩ := hs
    rcases List.mem_cons.1 ha with rfl | ha
    · exact hx
    · exact ih hrest ha

theorem Chain.headAddr_eq_zero_iff (hc : Chain h p (l₁ ++ l₂)) : headAddr l₂ = 0 ↔ l₂ = [] := by
  cases l₂ with
  | nil => exact iff_of_true rfl rfl
  | cons x l₂ => exact iff_of_false (hc.seg.ne_zero (by simp [headAddr])) nofun

theorem Chain.length_lt (hc : Chain h p l) : l.length < h.brk := by
  -- With `0`, which no node has, there are `l.length + 1` distinct addresses below `h.brk`.
  have hnd : (0 :: l.map Prod.fst).Nodup :=
    List.nodup_cons.2 ⟨fun h0 => hc.seg.ne_zero h0 rfl, hc.nodup⟩
  have hsub : (0 :: l.map Prod.fst) ⊆ List.range h.brk := by
    intro a ha
    rcases List.mem_cons.1 ha with rfl | ha
    · exact List.mem_range.2 h.brk_pos
    · exact List.mem_range.2 (hc.below a ha)
  have hlen := (List.subperm_of_subset hnd hsub).length_le
  rwa [List.length_cons, List.length_map, List.length_range] at hlen

theorem Chain.brk_not_mem (hc : Chain h p l) : h.brk ∉ l.map Prod.fst := fun hmem =>
  Nat.lt_irrefl _ (hc.below _ hmem)

/-- The cell of a node of a chain holds the node's contents and links to the next node. -/
theorem Chain.read_middle {b : Addr} {w : α} (hc : Chain h p (l₁ ++ (b, w) :: l₂)) :
    h.read b = some ⟨w, headAddr l₂⟩ := by
  obtain ⟨m, -, -, -, n, hr, hrest⟩ := seg_append.1 hc.seg
  rw [hr, hrest.head_eq]

theorem Chain.alloc (hc : Chain h p l) (c : Cell α) : Chain (h.alloc c) p l where
  seg := hc.seg.frame fun a ha => h.read_alloc_of_ne (Nat.ne_of_lt (hc.below a ha)) c
  nodup := hc.nodup
  below := fun a ha => Nat.lt_succ_of_lt (hc.below a ha)

/-! ### Insertion and removal -/

/-- **Insertion at the head.** -/
theorem Chain.push (hc : Chain h p l) (v : α) :
    Chain (h.alloc ⟨v, p⟩) h.brk ((h.brk, v) :: l) where
  seg := ⟨rfl, Nat.ne_of_gt h.brk_pos, p, h.read_alloc_self _, (hc.alloc _).seg⟩
  nodup := List.nodup_cons.2 ⟨hc.brk_not_mem, hc.nodup⟩
  below := by
    intro a ha
    rcases List.mem_cons.1 ha with rfl | ha
    · exact Nat.lt_succ_self _
    · exact Nat.lt_succ_of_lt (hc.below a ha)

/-- **Insertion behind a node.** The new cell gets the old link of the node, the node links to it.
-/
theorem Chain.insertAfter {b : Addr} {w : α} (hc : Chain h p (l₁ ++ (b, w) :: l₂)) (v : α) :
    Chain ((h.alloc ⟨v, headAddr l₂⟩).write b ⟨w, h.brk⟩) p
      (l₁ ++ (b, w) :: (h.brk, v) :: l₂) := by
  have hbrk := hc.brk_not_mem
  have hnd := hc.nodup
  simp only [List.map_append, List.map_cons, List.nodup_append, List.nodup_cons, List.mem_append,
    List.mem_cons, not_or] at hnd hbrk
  -- The addresses are distinct, so the write is seen by one node and the new cell by none.
  obtain ⟨hnd1, ⟨hb2, hnd2⟩, hdisj⟩ := hnd
  obtain ⟨hbrk1, hbrkb, hbrk2⟩ := hbrk
  have hb1 : b ∉ l₁.map Prod.fst := fun hmem => hdisj b hmem b (.inl rfl) rfl
  obtain ⟨m, hs1, rfl, hb0, n, hr, hs2⟩ := seg_append.1 hc.seg
  have hother : ∀ a, a ≠ m → a ≠ h.brk →
      ((h.alloc ⟨v, headAddr l₂⟩).write m ⟨w, h.brk⟩).read a = h.read a := fun a ham hab => by
    rw [Heap.read_write_of_ne _ ham, Heap.read_alloc_of_ne _ hab]
  refine ⟨seg_append.2 ⟨m, ?_, rfl, hb0, h.brk, Heap.read_write_self .., rfl,
    Nat.ne_of_gt h.brk_pos, n, ?_, ?_⟩, ?_, ?_⟩
  · refine hs1.frame fun a ha => hother a ?_ ?_
    · rintro rfl; exact hb1 ha
    · rintro rfl; exact hbrk1 ha
  · rw [Heap.read_write_of_ne _ hbrkb, Heap.read_alloc_self, ← hs2.head_eq]
  · refine hs2.frame fun a ha => hother a ?_ ?_
    · rintro rfl; exact hb2 ha
    · rintro rfl; exact hbrk2 ha
  · simp only [List.map_append, List.map_cons, List.nodup_append, List.nodup_cons, List.mem_cons,
      not_or]
    refine ⟨hnd1, ⟨⟨Ne.symm hbrkb, hb2⟩, hbrk2, hnd2⟩, fun x hx y hy hxy => ?_⟩
    subst hxy
    rcases hy with rfl | rfl | hy
    · exact hb1 hx
    · exact hbrk1 hx
    · exact hdisj x hx x (.inr hy) rfl
  · intro a ha
    have hbelow : ∀ a ∈ (l₁ ++ (m, w) :: l₂).map Prod.fst, a < h.brk + 1 := fun a ha =>
      Nat.lt_succ_of_lt (hc.below a ha)
    simp only [List.map_append, List.map_cons, List.mem_append, List.mem_cons] at ha hbelow
    rcases ha with ha | rfl | rfl | ha
    · exact hbelow a (.inl ha)
    · exact hbelow a (.inr (.inl rfl))
    · exact Nat.lt_succ_self _
    · exact hbelow a (.inr (.inr ha))

/-- **Removal at the head.** -/
theorem Chain.pop {a : Addr} {v : α} (hc : Chain h p ((a, v) :: l)) :
    Chain (h.free a) (headAddr l) l := by
  obtain ⟨-, -, n, -, hrest⟩ := hc.seg
  obtain ⟨ha, hnd⟩ := List.nodup_cons.1 hc.nodup
  refine ⟨?_, hnd, fun b hb => hc.below b (List.mem_cons_of_mem a hb)⟩
  rw [← hrest.head_eq]
  refine hrest.frame fun b hb => h.read_free_of_ne ?_
  rintro rfl
  exact ha hb

/-- **Removal behind a node.** The node takes over the link of the removed cell. -/
theorem Chain.removeAfter {a b : Addr} {v w : α}
    (hc : Chain h p (l₁ ++ (b, w) :: (a, v) :: l₂)) :
    Chain ((h.write b ⟨w, headAddr l₂⟩).free a) p (l₁ ++ (b, w) :: l₂) := by
  have hnd := hc.nodup
  simp only [List.map_append, List.map_cons, List.nodup_append, List.nodup_cons, List.mem_cons,
    not_or] at hnd
  -- Neither the node written nor the cell freed is among the others.
  obtain ⟨hnd1, ⟨⟨hba, hb2⟩, ha2, hnd2⟩, hdisj⟩ := hnd
  have hb1 : b ∉ l₁.map Prod.fst := fun hmem => hdisj b hmem b (.inl rfl) rfl
  have ha1 : a ∉ l₁.map Prod.fst := fun hmem => hdisj a hmem a (.inr (.inl rfl)) rfl
  obtain ⟨m, hs1, rfl, hb0, n, -, rfl, -, k, -, hs2⟩ := seg_append.1 hc.seg
  have hother : ∀ x, x ≠ m → x ≠ n →
      ((h.write m ⟨w, headAddr l₂⟩).free n).read x = h.read x := fun x hxm hxn => by
    rw [Heap.read_free_of_ne _ hxn, Heap.read_write_of_ne _ hxm]
  refine ⟨seg_append.2 ⟨m, ?_, rfl, hb0, headAddr l₂, ?_, ?_⟩, ?_, fun x hx => hc.below x ?_⟩
  · refine hs1.frame fun x hx => hother x ?_ ?_
    · rintro rfl; exact hb1 hx
    · rintro rfl; exact ha1 hx
  · rw [Heap.read_free_of_ne _ hba, Heap.read_write_self]
  · rw [← hs2.head_eq]
    refine hs2.frame fun x hx => hs2.head_eq ▸ hother x ?_ ?_
    · rintro rfl; exact hb2 hx
    · rintro rfl; exact ha2 hx
  · simp only [List.map_append, List.map_cons, List.nodup_append, List.nodup_cons, List.mem_cons]
    refine ⟨hnd1, ⟨hb2, hnd2⟩, fun x hx y hy => hdisj x hx y ?_⟩
    exact hy.imp_right .inr
  · simp only [List.map_append, List.map_cons, List.mem_append, List.mem_cons] at hx ⊢
    exact hx.imp_right fun hx => hx.imp_right .inr

/-- With distinct addresses, a node is the last one exactly when nothing follows it. -/
theorem Chain.eq_lastAddr_iff {a : Addr} {v : α} (hc : Chain h p (l₁ ++ (a, v) :: l₂)) (p' : Addr) :
    a = lastAddr p' (l₁ ++ (a, v) :: l₂) ↔ l₂ = [] := by
  rcases List.eq_nil_or_concat l₂ with rfl | ⟨l₃, ⟨b, w⟩, rfl⟩
  · simp
  · have hlast : lastAddr p' (l₁ ++ (a, v) :: (l₃ ++ [(b, w)])) = b := by
      rw [← List.cons_append, ← List.append_assoc, lastAddr_concat]
    refine iff_of_false (fun hab => ?_) (by simp)
    rw [List.concat_eq_append, hlast] at hab
    have hnd := hc.nodup
    simp only [List.concat_eq_append, List.map_append, List.map_cons, List.nodup_append,
      List.nodup_cons, List.mem_append] at hnd
    exact hnd.2.1.1 (.inr (by simp [hab]))

/-! ### Traversal -/

/-- `while (curr && cond(curr)) { prev = curr; curr = curr->next; }`, from `prev` and `curr`; the
result is the two pointers after the loop. -/
def walk (h : Heap α) (cond : α → Bool) : ℕ → Addr → Addr → Option (Addr × Addr)
  | 0, _, _ => none
  | fuel + 1, prev, curr =>
    if curr = 0 then some (prev, curr)
    else
      match h.read curr with
      | none => none
      | some c => if cond c.val then walk h cond fuel curr c.next else some (prev, curr)

/-- The walk stops behind the longest initial part that meets the condition. -/
theorem walk_eq {cond : α → Bool} {fuel : ℕ} (hs : Seg h p l 0) (hfuel : l.length < fuel)
    (prev : Addr) :
    walk h cond fuel prev p =
      some (lastAddr prev (l.takeWhile fun x => cond x.2),
        headAddr (l.dropWhile fun x => cond x.2)) := by
  -- On the list, not on the fuel: the fuel only has to exceed the number of nodes left.
  induction l generalizing p prev fuel with
  | nil =>
    obtain ⟨fuel, rfl⟩ := Nat.exists_eq_succ_of_ne_zero (Nat.ne_of_gt hfuel)
    obtain rfl : p = 0 := hs
    rfl
  | cons x l ih =>
    obtain ⟨a, v⟩ := x
    obtain ⟨rfl, ha, n, hr, hrest⟩ := hs
    obtain ⟨fuel, rfl⟩ := Nat.exists_eq_succ_of_ne_zero (Nat.ne_of_gt (Nat.zero_lt_of_lt hfuel))
    rw [walk, if_neg ha, hr]
    rcases hv : cond v
    · simp [hv, lastAddr, headAddr]
    · simp only [List.takeWhile_cons, List.dropWhile_cons, hv, if_true, lastAddr]
      exact ih hrest (Nat.lt_of_succ_lt_succ hfuel) p

/-- The contents met while following `next`. -/
def collect (h : Heap α) : ℕ → Addr → List α
  | 0, _ => []
  | fuel + 1, p =>
    if p = 0 then []
    else
      match h.read p with
      | none => []
      | some c => c.val :: collect h fuel c.next

theorem collect_eq {fuel : ℕ} (hs : Seg h p l 0) (hfuel : l.length < fuel) :
    collect h fuel p = l.map Prod.snd := by
  induction l generalizing p fuel with
  | nil =>
    obtain ⟨fuel, rfl⟩ := Nat.exists_eq_succ_of_ne_zero (Nat.ne_of_gt hfuel)
    obtain rfl : p = 0 := hs
    rfl
  | cons x l ih =>
    obtain ⟨a, v⟩ := x
    obtain ⟨rfl, ha, n, hr, hrest⟩ := hs
    obtain ⟨fuel, rfl⟩ := Nat.exists_eq_succ_of_ne_zero (Nat.ne_of_gt (Nat.zero_lt_of_lt hfuel))
    rw [collect, if_neg ha, hr]
    exact congrArg (v :: ·) (ih hrest (Nat.lt_of_succ_lt_succ hfuel))

/-- `while (node) { next = node->next; free(node); node = next; count++; }`. -/
def freeAll : ℕ → Heap α → Addr → ℕ → Option (Heap α × ℕ)
  | 0, _, _, _ => none
  | fuel + 1, h, p, count =>
    if p = 0 then some (h, count)
    else
      match h.read p with
      | none => none
      | some c => freeAll fuel (h.free p) c.next (count + 1)

/-- Freeing a whole chain succeeds and counts its nodes. -/
theorem freeAll_eq {fuel : ℕ} (hc : Chain h p l) (hfuel : l.length < fuel) (count : ℕ) :
    ∃ h', freeAll fuel h p count = some (h', count + l.length) := by
  induction l generalizing h p fuel count with
  | nil =>
    obtain ⟨fuel, rfl⟩ := Nat.exists_eq_succ_of_ne_zero (Nat.ne_of_gt hfuel)
    obtain rfl : p = 0 := hc.seg
    exact ⟨h, rfl⟩
  | cons x l ih =>
    obtain ⟨a, v⟩ := x
    obtain ⟨fuel, rfl⟩ := Nat.exists_eq_succ_of_ne_zero (Nat.ne_of_gt (Nat.zero_lt_of_lt hfuel))
    obtain ⟨rfl, ha, n, hr, hrest⟩ := hc.seg
    -- `next` is read before the cell is freed, so the rest is a chain of the new heap.
    obtain ⟨h', hfree⟩ := ih hc.pop (Nat.lt_of_succ_lt_succ hfuel) (count + 1)
    refine ⟨h', ?_⟩
    rw [freeAll, if_neg ha, hr, hrest.head_eq]
    dsimp only
    rw [hfree, List.length_cons, Nat.add_assoc, Nat.add_comm 1]

end LinkedHeap
