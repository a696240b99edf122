import DistributedComputing.Storage.MetadataStore

/-!
# What `sanitise_key` writes

Two facts about the file names of the metadata store, for keys of any bytes.

A key that fits the buffer cannot **leave the directory**. Its name has no slash, no backslash and
no two dots in a row (`plain_of_sanitiseKey`): a dot is copied only in front of something that is
not a dot, and what is not a dot is not turned into one. The path is then the path of the store and
one more component.

A key that does not fit can make `sanitise_key` **write behind its buffer**. The loop asks for room
for one byte and writes two for a pair of dots, so a pair that begins at the last byte of the room
puts the terminating zero one too far. Dots are paired from the left of a run, so that happens
exactly if an odd number of dots ends the room and another dot follows (`sanitiseKey_eq_none_iff`).
`put` is given keys that fit; `get` and `delete` are not.

`sanitiseWrites` has the stores into the buffer one by one; `sanitiseKey` is the string they leave,
or `none` if one of them is outside (`sanitiseWrites_of_some`, `sanitiseWrites_le_iff`).
-/

namespace DistributedComputing

open Bytes

/-! ### No way out of the directory -/

theorem Plain.nil : Plain [] where
  no_slash := List.not_mem_nil
  no_backslash := List.not_mem_nil
  no_dots := by
    rw [List.infix_nil]
    exact List.cons_ne_nil _ _

theorem Plain.cons {c : UInt8} {name : List UInt8} (h : Plain name)
    (hslash : ¬ (c = slash ∨ c = backslash)) (hdots : ¬ (c = dot ∧ name.head? = some dot)) :
    Plain (c :: name) where
  no_slash := List.not_mem_cons_of_ne_of_not_mem (fun hc => hslash (.inl hc.symm)) h.no_slash
  no_backslash :=
    List.not_mem_cons_of_ne_of_not_mem (fun hc => hslash (.inr hc.symm)) h.no_backslash
  no_dots := by
    rw [List.infix_cons_iff]
    rintro (⟨rest, hpre⟩ | hin)
    · obtain ⟨rfl, rfl⟩ := List.cons.inj hpre
      exact hdots ⟨rfl, rfl⟩
    · exact h.no_dots hin

theorem Plain.underscore_cons {name : List UInt8} (h : Plain name) : Plain (underscore :: name) :=
  h.cons (by decide) fun hdot => absurd hdot.1 (by decide)

theorem head?_sanitiseKey_ne_dot {room : ℕ} {key name : List UInt8}
    (h : sanitiseKey room key = some name) (hhead : key.head? ≠ some dot) :
    name.head? ≠ some dot := by
  rcases room with - | room
  · obtain rfl : [] = name := Option.some.inj h
    exact Option.some_ne_none _ ∘ Eq.symm
  rcases key with - | ⟨c, rest⟩
  · obtain rfl : [] = name := Option.some.inj h
    exact hhead
  have hdots : ¬ (c = dot ∧ rest.head? = some dot) := fun hdots => hhead (congrArg some hdots.1)
  by_cases hslash : c = slash ∨ c = backslash
  · rw [sanitiseKey_of_slash hslash] at h
    obtain ⟨name, -, rfl⟩ := Option.map_eq_some_iff.1 h
    exact fun hdot => absurd (Option.some.inj hdot) (by decide)
  · rw [sanitiseKey_of_other hslash hdots] at h
    obtain ⟨name, -, rfl⟩ := Option.map_eq_some_iff.1 h
    exact hhead

/-- **Names are plain**, whatever the key and the room. -/
theorem plain_of_sanitiseKey {room : ℕ} {key name : List UInt8}
    (h : sanitiseKey room key = some name) : Plain name := by
  fun_induction sanitiseKey room key generalizing name with
  | case1 key =>
    obtain rfl : [] = name := Option.some.inj h
    exact .nil
  | case2 room =>
    obtain rfl : [] = name := Option.some.inj h
    exact .nil
  | case3 room c rest hslash ih =>
    obtain ⟨name, hname, rfl⟩ := Option.map_eq_some_iff.1 h
    exact (ih hname).underscore_cons
  | case4 c rest _ hdots => cases h
  | case5 c rest _ hdots room ih =>
    obtain ⟨name, hname, rfl⟩ := Option.map_eq_some_iff.1 h
    exact (ih hname).underscore_cons.underscore_cons
  | case6 room c rest hslash hdots ih =>
    obtain ⟨name, hname, rfl⟩ := Option.map_eq_some_iff.1 h
    -- a dot that was copied had no dot behind it
    refine (ih hname).cons hslash fun hdot => ?_
    exact head?_sanitiseKey_ne_dot hname (fun hrest => hdots ⟨hdot.1, hrest⟩) hdot.2

/-- **Keys cannot leave the directory.** A key of at most 255 bytes is turned into a name of the
same length without slashes, backslashes and consecutive dots, which is turned into itself; and a
path that fits its buffer is the path of the store with one more component, which is neither `.` nor
`..`. -/
theorem key_stays_in_directory (store : MetadataStore) {key : List UInt8}
    (hlen : key.length < metaMaxKeyLen) :
    ∃ name, sanitiseKey (metaMaxKeyLen - 1) key = some name ∧ slash ∉ name ∧ backslash ∉ name ∧
      ¬ [dot, dot] <:+: name ∧ name.length = key.length ∧
      sanitiseKey (metaMaxKeyLen - 1) name = some name ∧
      (store.path.length + 1 + name.length + metaSuffix.length < MetadataStore.pathSize →
        ∃ component, store.buildFilePath key = some (store.path ++ slash :: component) ∧
          slash ∉ component ∧ component ≠ [dot] ∧ component ≠ [dot, dot]) := by
  have hroom : key.length ≤ metaMaxKeyLen - 1 := Nat.le_sub_one_of_lt hlen
  obtain ⟨name, hname, hsame⟩ := exists_sanitiseKey hroom
  have hplain := plain_of_sanitiseKey hname
  refine ⟨name, hname, hplain.no_slash, hplain.no_backslash, hplain.no_dots, hsame,
    hplain.sanitiseKey_eq (hsame.trans_le hroom), fun hfits => ⟨name ++ metaSuffix, ?_, ?_, ?_⟩⟩
  · rw [MetadataStore.buildFilePath, hname, Option.map_some, List.take_of_length_le]
    simp only [List.length_append, List.length_cons]
    omega
  · rw [List.mem_append, not_or]
    exact ⟨hplain.no_slash, by decide⟩
  · -- the suffix alone is longer than either
    have hlong : 5 ≤ (name ++ metaSuffix).length := by
      rw [List.length_append]
      exact Nat.le_add_left 5 _
    constructor
    · intro heq
      rw [heq] at hlong
      exact absurd hlong (by decide)
    · intro heq
      rw [heq] at hlong
      exact absurd hlong (by decide)

/-- The key `a/b`, in the coordinator's store. -/
theorem key_stays_in_directory_slash :
    ∃ name, sanitiseKey (metaMaxKeyLen - 1) [0x61, 0x2F, 0x62] = some name ∧ slash ∉ name := by
  obtain ⟨name, hname, hslash, -⟩ :=
    key_stays_in_directory .metaStore (show [0x61, 0x2F, 0x62].length < metaMaxKeyLen by decide)
  exact ⟨name, hname, hslash⟩

/-! ### Stores into the buffer -/

/-- The stores `safe_key[j] = c` of `sanitise_key`, in order. `room` is `safe_size - 1 - j`, so that
the loop goes on while it is positive. -/
def sanitiseWrites : (room j : ℕ) → List UInt8 → List (ℕ × UInt8)
  | 0, j, _ => [(j, 0)]
  | _ + 1, j, [] => [(j, 0)]
  | room + 1, j, c :: rest =>
    if c = slash ∨ c = backslash then (j, underscore) :: sanitiseWrites room (j + 1) rest
    else if c = dot ∧ rest.head? = some dot then
      -- two stores, of which the second may have taken no room
      match room with
      | 0 => [(j, underscore), (j + 1, underscore), (j + 2, 0)]
      | room + 1 =>
        (j, underscore) :: (j + 1, underscore) :: sanitiseWrites room (j + 2) rest.tail
    else (j, c) :: sanitiseWrites room (j + 1) rest

section Writes

variable {room : ℕ} {c : UInt8} {rest : List UInt8}

theorem sanitiseWrites_of_slash (h : c = slash ∨ c = backslash) (j : ℕ) :
    sanitiseWrites (room + 1) j (c :: rest) =
      (j, underscore) :: sanitiseWrites room (j + 1) rest := by
  rw [sanitiseWrites.eq_def]
  exact if_pos h

theorem sanitiseWrites_of_dots (hslash : ¬ (c = slash ∨ c = backslash))
    (h : c = dot ∧ rest.head? = some dot) (j : ℕ) :
    sanitiseWrites (room + 2) j (c :: rest) =
      (j, underscore) :: (j + 1, underscore) :: sanitiseWrites room (j + 2) rest.tail :=
  (if_neg hslash).trans (if_pos h)

theorem sanitiseWrites_of_dots_of_room_one (hslash : ¬ (c = slash ∨ c = backslash))
    (h : c = dot ∧ rest.head? = some dot) (j : ℕ) :
    sanitiseWrites 1 j (c :: rest) = [(j, underscore), (j + 1, underscore), (j + 2, 0)] :=
  (if_neg hslash).trans (if_pos h)

theorem sanitiseWrites_of_other (hslash : ¬ (c = slash ∨ c = backslash))
    (h : ¬ (c = dot ∧ rest.head? = some dot)) (j : ℕ) :
    sanitiseWrites (room + 1) j (c :: rest) = (j, c) :: sanitiseWrites room (j + 1) rest := by
  rw [sanitiseWrites.eq_def]
  exact (if_neg hslash).trans (if_neg h)

end Writes

variable {room : ℕ} {key : List UInt8}

/-- Without a store outside, the buffer holds the name and a zero. -/
theorem sanitiseWrites_of_some {name : List UInt8} (h : sanitiseKey room key = some name) (j : ℕ) :
    sanitiseWrites room j key = ((name ++ [0]).zipIdx j).map Prod.swap := by
  fun_induction sanitiseKey room key generalizing name j with
  | case1 key =>
    obtain rfl : [] = name := Option.some.inj h
    rfl
  | case2 room =>
    obtain rfl : [] = name := Option.some.inj h
    rfl
  | case3 room c rest hslash ih =>
    obtain ⟨name, hname, rfl⟩ := Option.map_eq_some_iff.1 h
    rw [sanitiseWrites_of_slash hslash, ih hname]
    rfl
  | case4 c rest _ hdots => cases h
  | case5 c rest hslash hdots room ih =>
    obtain ⟨name, hname, rfl⟩ := Option.map_eq_some_iff.1 h
    rw [sanitiseWrites_of_dots hslash hdots, ih hname]
    rfl
  | case6 room c rest hslash hdots ih =>
    obtain ⟨name, hname, rfl⟩ := Option.map_eq_some_iff.1 h
    rw [sanitiseWrites_of_other hslash hdots, ih hname]
    rfl

theorem mem_sanitiseWrites_of_none (h : sanitiseKey room key = none) {j k : ℕ}
    (hk : k = j + room + 1) : (k, 0) ∈ sanitiseWrites room j key := by
  fun_induction sanitiseKey room key generalizing j with
  | case1 key => cases h
  | case2 room => cases h
  | case3 room c rest hslash ih =>
    rw [sanitiseWrites_of_slash hslash]
    exact List.mem_cons_of_mem _ (ih (Option.map_eq_none_iff.1 h) (by omega))
  | case4 c rest hslash hdots =>
    rw [hk]
    refine sanitiseWrites_of_dots_of_room_one hslash hdots j ▸ ?_
    exact List.mem_cons_of_mem _ (List.mem_cons_of_mem _ List.mem_cons_self)
  | case5 c rest hslash hdots room ih =>
    rw [sanitiseWrites_of_dots hslash hdots]
    exact List.mem_cons_of_mem _
      (List.mem_cons_of_mem _ (ih (Option.map_eq_none_iff.1 h) (by omega)))
  | case6 room c rest hslash hdots ih =>
    rw [sanitiseWrites_of_other hslash hdots]
    exact List.mem_cons_of_mem _ (ih (Option.map_eq_none_iff.1 h) (by omega))

theorem length_le_of_sanitiseKey {name : List UInt8} (h : sanitiseKey room key = some name) :
    name.length ≤ room := by
  obtain ⟨name', hname', hlen⟩ := exists_sanitiseKey (List.length_take_le room key)
  obtain rfl : name = name' := Option.some.inj ((sanitiseKey_take h).symm.trans hname')
  exact hlen.trans_le (List.length_take_le room key)

/-- **The stores stay inside** exactly if there is a name. -/
theorem sanitiseWrites_le_iff :
    (∀ w ∈ sanitiseWrites room 0 key, w.1 ≤ room) ↔ sanitiseKey room key ≠ none := by
  rcases h : sanitiseKey room key with - | name
  · refine iff_of_false (fun hle => ?_) fun hne => hne rfl
    have hlast := hle _ (mem_sanitiseWrites_of_none h rfl)
    rw [Nat.zero_add] at hlast
    exact Nat.not_succ_le_self room hlast
  · refine iff_of_true (fun w hw => ?_) (Option.some_ne_none name)
    rw [sanitiseWrites_of_some h] at hw
    obtain ⟨⟨c, i⟩, hmem, rfl⟩ := List.mem_map.1 hw
    have hi := List.snd_lt_of_mem_zipIdx hmem
    rw [List.length_append, List.length_singleton] at hi
    have := length_le_of_sanitiseKey h
    show i ≤ room
    omega

/-! ### Runs of dots -/

/-- The number of dots at the end of a string. -/
def dotRun (l : List UInt8) : ℕ := (l.reverse.takeWhile (· = dot)).length

theorem dotRun_of_forall {l : List UInt8} (h : ∀ d ∈ l, d = dot) : dotRun l = l.length := by
  have hall : l.reverse.takeWhile (· = dot) = l.reverse := by
    rw [List.takeWhile_eq_self_iff]
    exact fun d hd => decide_eq_true (h d (List.mem_reverse.1 hd))
  rw [dotRun, hall, List.length_reverse]

/-- A run that does not reach the first byte does not depend on it. -/
theorem dotRun_cons_of_exists {l : List UInt8} (h : ∃ d ∈ l, d ≠ dot) (c : UInt8) :
    dotRun (c :: l) = dotRun l := by
  have hlen : (l.reverse.takeWhile (· = dot)).length ≠ l.reverse.length := by
    intro hlen
    obtain ⟨d, hd, hne⟩ := h
    have hall := (List.takeWhile_prefix _).eq_of_length hlen
    rw [List.takeWhile_eq_self_iff] at hall
    exact hne (of_decide_eq_true (hall d (List.mem_reverse.2 hd)))
  rw [dotRun, dotRun, List.reverse_cons, List.takeWhile_append, if_neg hlen]

theorem dotRun_cons_of_ne {c : UInt8} (hc : c ≠ dot) (l : List UInt8) :
    dotRun (c :: l) = dotRun l := by
  by_cases h : ∃ d ∈ l, d ≠ dot
  · exact dotRun_cons_of_exists h c
  · have hall : ∀ d ∈ l, d = dot := fun d hd => by_contra fun hne => h ⟨d, hd, hne⟩
    have hlen : (l.reverse.takeWhile (· = dot)).length = l.reverse.length := by
      rw [← dotRun, dotRun_of_forall hall, List.length_reverse]
    rw [dotRun, dotRun, List.reverse_cons, List.takeWhile_append, if_pos hlen,
      List.takeWhile_cons_of_neg (by simpa using hc), List.append_nil, hlen]

theorem dotRun_cons_cons_mod_two (l : List UInt8) :
    dotRun (dot :: dot :: l) % 2 = dotRun l % 2 := by
  by_cases h : ∃ d ∈ l, d ≠ dot
  · have h' : ∃ d ∈ dot :: l, d ≠ dot := by
      obtain ⟨d, hd, hne⟩ := h
      exact ⟨d, List.mem_cons_of_mem _ hd, hne⟩
    rw [dotRun_cons_of_exists h', dotRun_cons_of_exists h]
  · have hall : ∀ d ∈ l, d = dot := fun d hd => by_contra fun hne => h ⟨d, hd, hne⟩
    have hall' : ∀ d ∈ dot :: dot :: l, d = dot := by
      simpa using hall
    rw [dotRun_of_forall hall, dotRun_of_forall hall', List.length_cons, List.length_cons]
    exact Nat.add_mod_right _ 2

/-- **When `sanitise_key` overflows**: an odd number of dots ends the room, and a dot follows. -/
theorem sanitiseKey_eq_none_iff :
    sanitiseKey room key = none ↔ dotRun (key.take room) % 2 = 1 ∧ key[room]? = some dot := by
  fun_induction sanitiseKey room key with
  | case1 key =>
    have hnil : dotRun [] % 2 ≠ 1 := by decide
    exact iff_of_false (Option.some_ne_none _) fun h => hnil h.1
  | case2 room => exact iff_of_false (Option.some_ne_none _) fun h => absurd h.2 (by simp)
  | case3 room c rest hslash ih =>
    have hc : c ≠ dot := by
      rcases hslash with rfl | rfl <;> decide
    rw [Option.map_eq_none_iff, ih, List.take_succ_cons, dotRun_cons_of_ne hc,
      List.getElem?_cons_succ]
  | case4 c rest _ hdots =>
    obtain ⟨rfl, hhead⟩ := hdots
    have hone : dotRun [dot] % 2 = 1 := by decide
    refine iff_of_true rfl ⟨hone, ?_⟩
    exact List.head?_eq_getElem?.symm.trans hhead
  | case5 c rest _ hdots room ih =>
    obtain ⟨rfl, hhead⟩ := hdots
    obtain ⟨rest, rfl⟩ := List.head?_eq_some_iff.1 hhead
    rw [Option.map_eq_none_iff, ih, List.take_succ_cons, List.take_succ_cons,
      dotRun_cons_cons_mod_two]
    rfl
  | case6 room c rest _ hdots ih =>
    rw [Option.map_eq_none_iff, ih, List.take_succ_cons, List.getElem?_cons_succ]
    by_cases hc : c = dot
    · -- the next byte is not a dot: it ends the run, or there is nothing behind the room
      have hhead : rest.head? ≠ some dot := fun h => hdots ⟨hc, h⟩
      rcases rest with - | ⟨d, rest⟩
      · exact iff_of_false (fun h => by simp at h) fun h => by simp at h
      have hd : d ≠ dot := fun h => hhead (congrArg some h)
      rcases room with - | room
      · have hnil : dotRun [] % 2 ≠ 1 := by decide
        exact iff_of_false (fun h => hnil h.1) fun h => hhead h.2
      · rw [List.take_succ_cons, dotRun_cons_of_exists ⟨d, List.mem_cons_self, hd⟩]
    · rw [dotRun_cons_of_ne hc]

/-- **The buffer of `sanitise_key`.** All stores are inside it unless an odd number of dots ends at
the last byte for which there is room and another dot follows. -/
theorem sanitise_in_bounds_iff (key : List UInt8) {safeSize : ℕ} (h : 1 ≤ safeSize) :
    (∀ w ∈ sanitiseWrites (safeSize - 1) 0 key, w.1 < safeSize) ↔
      ¬ (dotRun (key.take (safeSize - 1)) % 2 = 1 ∧ key[safeSize - 1]? = some dot) := by
  obtain ⟨room, rfl⟩ := Nat.exists_eq_add_of_le' h
  rw [Nat.add_sub_cancel, ← sanitiseKey_eq_none_iff, ← ne_eq, ← sanitiseWrites_le_iff]
  exact forall₂_congr fun w _ => Nat.lt_succ_iff

/-- A buffer for one byte and a key of one dot. -/
theorem sanitise_in_bounds_iff_dot :
    (sanitiseWrites (2 - 1) 0 [dot]).all (fun w => w.1 < 2) = true ↔
      ¬ (dotRun ([dot].take (2 - 1)) % 2 = 1 ∧ [dot][2 - 1]? = some dot) := by
  rw [List.all_eq_true]
  refine Iff.trans ?_ (sanitise_in_bounds_iff [dot] (show 1 ≤ 2 by decide))
  simp

/-- The key with 254 letters and two dots. -/
def straddlingKey : List UInt8 := List.replicate 254 0x61 ++ [dot, dot]

/-- `metadata_store_get` and `metadata_store_delete` sanitise into 256 bytes, and the zero is stored
in the one behind them. -/
theorem get_stores_behind_buffer :
    (256, 0) ∈ sanitiseWrites (metaMaxKeyLen - 1) 0 straddlingKey ∧
      MetadataStore.metaStore.get true (fun _ => none) straddlingKey = none ∧
      MetadataStore.metaStore.delete true (fun _ => none) straddlingKey = none := by
  have hnone : sanitiseKey (metaMaxKeyLen - 1) straddlingKey = none := by
    have hcut : ¬ ((List.replicate 254 0x61).getLast? = some dot ∧
        [dot, dot].head? = some dot) := fun h =>
      absurd (List.eq_of_mem_replicate (List.mem_of_getLast? h.1)) (by decide)
    have happend := sanitiseKey_append List.length_replicate 1 hcut
    refine happend.trans ?_
    exact Option.bind_fun_none _
  refine ⟨mem_sanitiseWrites_of_none hnone (by decide), ?_, ?_⟩
  · rw [MetadataStore.get, MetadataStore.buildFilePath, hnone]
    rfl
  · rw [MetadataStore.delete, MetadataStore.buildFilePath, hnone]
    rfl

end DistributedComputing
