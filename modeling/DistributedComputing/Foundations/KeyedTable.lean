import Mathlib.Data.List.Nodup
import Mathlib.Data.List.Perm.Basic

/-!
# Unsorted tables searched by key

A table is a list of entries with a key each, kept the way a C array of records is kept: searched
from the front (`lookup`), updated in place at the first hit (`update`), and shrunk by overwriting
the entry to be removed with the last one (`swapRemove`). Keys are **not** assumed distinct; where a
statement needs that, `(l.map key).Nodup` is a hypothesis, and `mem_iff_lookup_eq_some` then lets
"every entry of the table" be read through `lookup`.

A table with a unique column is one whose entries are only added by `upsert`, which first removes
(`discard`) what has the same key.

The counting law `countP_update` is what bookkeeping proofs use.
-/

namespace KeyedTable

variable {α κ : Type*} [DecidableEq κ] (key : α → κ)

/-- The first entry with key `i`. -/
def lookup (i : κ) (l : List α) : Option α :=
  l.find? fun a => key a = i

/-- Apply `f` to the first entry with key `i`, and change nothing when there is none. -/
def update (i : κ) (f : α → α) : List α → List α
  | [] => []
  | a :: l => if key a = i then f a :: l else a :: update i f l

/-- Remove the first entry with key `i` by moving the last entry of the table into its place. -/
def swapRemove (i : κ) : List α → List α
  | [] => []
  | a :: l =>
    if key a = i then
      match l.getLast? with
      | none => []
      | some z => z :: l.dropLast
    else a :: swapRemove i l

/-- Remove every entry with key `i`. -/
def discard (i : κ) (l : List α) : List α :=
  l.filter fun a => key a ≠ i

/-- Add an entry in the place of any entry with its key. -/
def upsert (a : α) (l : List α) : List α :=
  discard key (key a) l ++ [a]

variable {key}

/-! ### Searching -/

theorem lookup_eq_none_iff {i : κ} {l : List α} :
    lookup key i l = none ↔ ∀ a ∈ l, key a ≠ i := by
  simp [lookup]

theorem lookup_eq_none_iff_not_mem {i : κ} {l : List α} :
    lookup key i l = none ↔ i ∉ l.map key := by
  simp [lookup_eq_none_iff]

theorem mem_of_lookup {i : κ} {l : List α} {a : α} (h : lookup key i l = some a) : a ∈ l :=
  List.mem_of_find?_eq_some h

theorem key_of_lookup {i : κ} {l : List α} {a : α} (h : lookup key i l = some a) : key a = i := by
  simpa using List.find?_some h

variable (key) in
theorem exists_lookup_of_mem {l : List α} {a : α} (h : a ∈ l) :
    ∃ b, lookup key (key a) l = some b := by
  rcases hl : lookup key (key a) l with - | b
  · exact absurd rfl (lookup_eq_none_iff.1 hl a h)
  · exact ⟨b, rfl⟩

@[simp] theorem lookup_nil {i : κ} : lookup key i [] = none := rfl

theorem lookup_cons {i : κ} {a : α} {l : List α} :
    lookup key i (a :: l) = if key a = i then some a else lookup key i l := by
  rw [lookup, List.find?_cons]
  by_cases h : key a = i <;> simp [h, lookup]

theorem lookup_append {i : κ} {l l' : List α} :
    lookup key i (l ++ l') = (lookup key i l).or (lookup key i l') := by
  rw [lookup, List.find?_append]
  rfl

/-- With distinct keys, an entry is in the table exactly when looking its key up finds it. -/
theorem mem_iff_lookup_eq_some {l : List α} (hnd : (l.map key).Nodup) {a : α} :
    a ∈ l ↔ lookup key (key a) l = some a := by
  constructor
  · intro h
    obtain ⟨b, hb⟩ := exists_lookup_of_mem key h
    rw [hb, List.inj_on_of_nodup_map hnd (mem_of_lookup hb) h (key_of_lookup hb)]
  · exact mem_of_lookup

/-! ### Updating -/

theorem update_cons {i : κ} {f : α → α} {a : α} {l : List α} :
    update key i f (a :: l) = if key a = i then f a :: l else a :: update key i f l := rfl

@[simp] theorem length_update {i : κ} {f : α → α} {l : List α} :
    (update key i f l).length = l.length := by
  induction l with
  | nil => rfl
  | cons a l ih =>
    rw [update_cons]
    split
    · rfl
    · rw [List.length_cons, List.length_cons, ih]

theorem update_of_lookup_eq_none {i : κ} {f : α → α} {l : List α} (h : lookup key i l = none) :
    update key i f l = l := by
  induction l with
  | nil => rfl
  | cons a l ih =>
    have hne := lookup_eq_none_iff.1 h
    rw [update_cons, if_neg (hne a List.mem_cons_self),
      ih (lookup_eq_none_iff.2 fun b hb => hne b (List.mem_cons_of_mem a hb))]

theorem map_key_update {i : κ} {f : α → α} (hf : ∀ a, key a = i → key (f a) = i) {l : List α} :
    (update key i f l).map key = l.map key := by
  induction l with
  | nil => rfl
  | cons a l ih =>
    rw [update_cons]
    split
    · next h => rw [List.map_cons, List.map_cons, hf a h, h]
    · rw [List.map_cons, List.map_cons, ih]

theorem lookup_update_self {i : κ} {f : α → α} (hf : ∀ a, key a = i → key (f a) = i)
    {l : List α} : lookup key i (update key i f l) = (lookup key i l).map f := by
  induction l with
  | nil => rfl
  | cons a l ih =>
    rw [update_cons, lookup_cons]
    split
    · next h => rw [lookup_cons, if_pos (hf a h)]; rfl
    · next h => rw [lookup_cons, if_neg h, ih]

theorem lookup_update_of_ne {i j : κ} (hij : j ≠ i) {f : α → α}
    (hf : ∀ a, key a = i → key (f a) = i) {l : List α} :
    lookup key j (update key i f l) = lookup key j l := by
  induction l with
  | nil => rfl
  | cons a l ih =>
    rw [update_cons, lookup_cons]
    split
    · next h => rw [lookup_cons, hf a h, h, if_neg hij.symm, if_neg hij.symm]
    · rw [lookup_cons, ih]

/-- **The counting law.** Writing the sum on both sides avoids natural subtraction: the entry hit
stops counting as what it was and starts counting as what it has become. -/
theorem countP_update {i : κ} {f : α → α} {q : α → Bool} {l : List α} {a : α}
    (h : lookup key i l = some a) :
    (update key i f l).countP q + (if q a then 1 else 0) =
      l.countP q + (if q (f a) then 1 else 0) := by
  induction l with
  | nil => exact absurd h (by simp)
  | cons b l ih =>
    rw [lookup_cons] at h
    rw [update_cons]
    split
    · next hb =>
      rw [if_pos hb] at h
      obtain rfl := Option.some.inj h
      simp only [List.countP_cons]
      omega
    · next hb =>
      rw [if_neg hb] at h
      have := ih h
      simp only [List.countP_cons]
      omega

/-- An update exchanges what is read off the entry it hits. -/
theorem count_flatMap_update {β : Type*} [DecidableEq β] {i : κ} {f : α → α} {g : α → List β}
    {l : List α} {a : α} (h : lookup key i l = some a) (b : β) :
    ((update key i f l).flatMap g).count b + (g a).count b =
      (l.flatMap g).count b + (g (f a)).count b := by
  induction l with
  | nil => exact absurd h nofun
  | cons c l ih =>
    rw [lookup_cons] at h
    rw [update_cons]
    split at h
    · next hc =>
      obtain rfl := Option.some.inj h
      rw [if_pos hc, List.flatMap_cons, List.flatMap_cons, List.count_append, List.count_append]
      omega
    · next hc =>
      have hrest := ih h
      rw [if_neg hc, List.flatMap_cons, List.flatMap_cons, List.count_append, List.count_append]
      omega

/-- What holds of every entry and of the result at the entry hit holds of every updated entry. -/
theorem forall_mem_update {i : κ} {f : α → α} {R : α → Prop} {l : List α} (hl : ∀ a ∈ l, R a)
    (hf : ∀ a, lookup key i l = some a → R (f a)) : ∀ a ∈ update key i f l, R a := by
  induction l with
  | nil => exact hl
  | cons b l ih =>
    intro a ha
    rw [update_cons] at ha
    split at ha
    · next hb =>
      rcases List.mem_cons.1 ha with rfl | ha
      · exact hf b (by rw [lookup_cons, if_pos hb])
      · exact hl a (List.mem_cons_of_mem b ha)
    · next hb =>
      rcases List.mem_cons.1 ha with rfl | ha
      · exact hl a List.mem_cons_self
      · refine ih (fun c hc => hl c (List.mem_cons_of_mem b hc)) (fun c hc => hf c ?_) a ha
        rw [lookup_cons, if_neg hb, hc]

/-! ### Removing -/

/-- Up to order, swapping with the last entry removes exactly the first entry with the key. -/
theorem swapRemove_perm {i : κ} {l : List α} {a : α} (h : lookup key i l = some a) :
    (a :: swapRemove key i l).Perm l := by
  induction l with
  | nil => exact absurd h (by simp)
  | cons b l ih =>
    rw [lookup_cons] at h
    rw [swapRemove]
    split
    · next hb =>
      rw [if_pos hb] at h
      obtain rfl := Option.some.inj h
      refine List.Perm.cons b ?_
      rcases hz : l.getLast? with - | z
      · rw [List.getLast?_eq_none_iff.1 hz]
      · have hsplit : l.dropLast ++ [z] = l := List.dropLast_append_getLast? z hz
        calc (z :: l.dropLast).Perm (l.dropLast ++ [z]) := List.perm_append_singleton z _ |>.symm
          _ = l := hsplit
    · next hb =>
      rw [if_neg hb] at h
      exact (List.Perm.swap b a _).trans ((ih h).cons b)

/-- With distinct keys, nothing else goes: what remains are the entries with other keys. -/
theorem swapRemove_perm_discard {i : κ} {l : List α} {a : α} (hnd : (l.map key).Nodup)
    (h : lookup key i l = some a) : (swapRemove key i l).Perm (discard key i l) := by
  have hperm : (a :: swapRemove key i l).Perm l := swapRemove_perm h
  have hrest : discard key i (swapRemove key i l) = swapRemove key i l := by
    refine List.filter_eq_self.2 fun b hb => decide_eq_true fun hkey => ?_
    have hnd' := ((hperm.map key).nodup_iff.2 hnd)
    rw [List.map_cons, List.nodup_cons, key_of_lookup h] at hnd'
    exact hnd'.1 (List.mem_map.2 ⟨b, hb, hkey⟩)
  have hhead : discard key i (a :: swapRemove key i l) = swapRemove key i l := by
    rw [discard, List.filter_cons_of_neg (by simpa using key_of_lookup h)]
    exact hrest
  exact hhead ▸ hperm.filter _

/-- The counting law of removal. -/
theorem countP_swapRemove {i : κ} {q : α → Bool} {l : List α} {a : α}
    (h : lookup key i l = some a) :
    (swapRemove key i l).countP q + (if q a then 1 else 0) = l.countP q := by
  rw [← (swapRemove_perm h).countP_eq q, List.countP_cons]

/-! ### Tables with a unique column -/

theorem nodup_discard {i : κ} {l : List α} (h : (l.map key).Nodup) :
    ((discard key i l).map key).Nodup :=
  h.sublist (List.filter_sublist.map key)

theorem nodup_upsert {a : α} {l : List α} (h : (l.map key).Nodup) :
    ((upsert key a l).map key).Nodup := by
  rw [upsert, List.map_append, List.nodup_append']
  refine ⟨nodup_discard h, List.nodup_singleton _, List.disjoint_singleton.2 fun ha => ?_⟩
  obtain ⟨b, hb, hkey⟩ := List.mem_map.1 ha
  exact of_decide_eq_true (List.mem_filter.1 hb).2 hkey

omit [DecidableEq κ] in
/-- Two selections from a table show the same keys only if they are the same. -/
theorem perm_map_filter_iff {p q : α → Bool} {l : List α} (h : (l.map key).Nodup) :
    ((l.filter p).map key).Perm ((l.filter q).map key) ↔ ∀ a ∈ l, p a = q a := by
  have hsub : ∀ {p q : α → Bool}, ((l.filter p).map key).Perm ((l.filter q).map key) →
      ∀ a ∈ l, p a = true → q a = true := by
    intro p q hperm a ha hp
    obtain ⟨b, hb, hkey⟩ :=
      List.mem_map.1 (hperm.subset (List.mem_map_of_mem (List.mem_filter.2 ⟨ha, hp⟩)))
    obtain ⟨hbl, hq⟩ := List.mem_filter.1 hb
    rwa [List.inj_on_of_nodup_map h hbl ha hkey] at hq
  constructor
  · intro hperm a ha
    exact Bool.eq_iff_iff.2 ⟨hsub hperm a ha, hsub hperm.symm a ha⟩
  · intro heq
    rw [List.filter_congr heq]

variable {β : Type*} {k : β → κ} {f : α → β}

theorem map_discard (hf : ∀ a, k (f a) = key a) {i : κ} {l : List α} :
    (discard key i l).map f = discard k i (l.map f) := by
  simp only [discard, List.filter_map, Function.comp_def, hf]

theorem map_upsert (hf : ∀ a, k (f a) = key a) {a : α} {l : List α} :
    (upsert key a l).map f = upsert k (f a) (l.map f) := by
  rw [upsert, upsert, List.map_append, map_discard hf, hf, List.map_singleton]

end KeyedTable
