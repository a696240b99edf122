import DistributedComputing.Storage.MetadataMap

/-!
# Queries of the metadata store

`metadata_store_query` reads the files of the directory, in the order in which it is given them, and
keeps the entries that pass its filters. The filters read the entry with `strncmp` and `strcmp`, and
the tags up to the stored number of tags. An entry that was read from a file can be anything, so the
filters are `none` where they read behind an array. Within a `Valid` entry they do not
(`matchesQuery_of_valid`).

What a query asks for is `Satisfies`; what the loop tests is `Accepts`. They differ in two places.
The type in a query is an enumeration without negative members, an unsigned number, so that the test
`query->type >= 0` says nothing: the documented `-1` for "all types" is compared with the type of
each entry, and selects none. And a bound on the time of creation is used if it is positive, and not
if it is non-zero. `query_exact_iff` says when a query then returns what it asks for.
-/

namespace DistributedComputing

open Bytes

/-! ### Comparing with an array -/

/-- `strncmp(array, s, strlen(s)) == 0`, unless it reads behind the array. -/
def beginsIn : List UInt8 → List UInt8 → Option Bool
  | _, [] => some true
  | [], _ :: _ => none
  | a :: array, c :: s => if a = c then beginsIn array s else some false

/-- `strcmp(array, s) == 0`, unless it reads behind the array. -/
def equalIn : List UInt8 → List UInt8 → Option Bool
  | [], _ => none
  | a :: _, [] => some (a == 0)
  | a :: array, c :: s => if a = c then equalIn array s else some false

/-- The loop over the tags, with the number of tags that are left to compare. -/
def tagFound (tag : List UInt8) : List (List UInt8) → ℕ → Option Bool
  | _, 0 => some false
  | [], _ + 1 => none
  | t :: tags, n + 1 =>
    match equalIn t tag with
    | none => none
    | some true => some true
    | some false => tagFound tag tags n

/-- A byte that the array and the string share is not the end of the array. -/
theorem terminated_tail {a : UInt8} {array s : List UInt8} (h0 : 0 ∈ a :: array)
    (hs : 0 ∉ a :: s) : a ≠ 0 ∧ 0 ∈ array ∧ 0 ∉ s := by
  have hne : a ≠ 0 := fun h => hs (h ▸ List.mem_cons_self)
  exact ⟨hne, List.mem_of_ne_of_mem hne.symm h0, List.not_mem_of_not_mem_cons hs⟩

/-- **Within a terminated array**, a prefix is compared. -/
theorem beginsIn_of_mem {array s : List UInt8} (h0 : 0 ∈ array) (hs : 0 ∉ s) :
    beginsIn array s = some (decide (s <+: cString array)) := by
  induction array generalizing s with
  | nil => exact absurd h0 List.not_mem_nil
  | cons a array ih =>
    rcases s with - | ⟨c, s⟩
    · rw [beginsIn, decide_eq_true List.nil_prefix]
    · rw [beginsIn]
      split
      · next hac =>
        subst hac
        obtain ⟨hne, htail, hs'⟩ := terminated_tail h0 hs
        rw [ih htail hs', cString_cons hne]
        simp
      · next hac =>
        refine congrArg some (decide_eq_false fun hpre => ?_).symm
        rcases eq_or_ne a 0 with rfl | hne
        · rw [cString_zero_cons] at hpre
          exact absurd (List.prefix_nil.1 hpre) (List.cons_ne_nil _ _)
        · rw [cString_cons hne] at hpre
          exact hac (List.cons_prefix_cons.1 hpre).1.symm

/-- **Within a terminated array**, a string is compared. -/
theorem equalIn_of_mem {array s : List UInt8} (h0 : 0 ∈ array) (hs : 0 ∉ s) :
    equalIn array s = some (decide (cString array = s)) := by
  induction array generalizing s with
  | nil => exact absurd h0 List.not_mem_nil
  | cons a array ih =>
    rcases s with - | ⟨c, s⟩
    · rw [equalIn]
      rcases eq_or_ne a 0 with rfl | hne
      · rw [cString_zero_cons]
        rfl
      · rw [cString_cons hne, beq_false_of_ne hne, decide_eq_false (List.cons_ne_nil _ _)]
    · rw [equalIn]
      split
      · next hac =>
        subst hac
        obtain ⟨hne, htail, hs'⟩ := terminated_tail h0 hs
        rw [ih htail hs', cString_cons hne]
        simp
      · next hac =>
        refine congrArg some (decide_eq_false fun heq => ?_).symm
        rcases eq_or_ne a 0 with rfl | hne
        · rw [cString_zero_cons] at heq
          exact absurd heq.symm (List.cons_ne_nil _ _)
        · rw [cString_cons hne] at heq
          exact hac (List.cons.inj heq).1

/-- **Within terminated tags**, a tag is found exactly if it is one of them. -/
theorem tagFound_of_mem {tag : List UInt8} (htag : 0 ∉ tag) {tags : List (List UInt8)} {n : ℕ}
    (hn : n ≤ tags.length) (h0 : ∀ t ∈ tags.take n, 0 ∈ t) :
    tagFound tag tags n = some (decide (tag ∈ (tags.take n).map cString)) := by
  induction n generalizing tags with
  | zero =>
    rw [tagFound, List.take_zero]
    rfl
  | succ n ih =>
    obtain ⟨t, tags, rfl⟩ := List.exists_cons_of_length_pos (Nat.zero_lt_of_lt hn)
    rw [List.take_succ_cons] at h0
    obtain ⟨ht, htags⟩ := List.forall_mem_cons.1 h0
    rw [tagFound, equalIn_of_mem ht htag, List.take_succ_cons, List.map_cons]
    by_cases heq : cString t = tag
    · rw [decide_eq_true heq, decide_eq_true (List.mem_cons.2 (.inl heq.symm))]
    · rw [decide_eq_false heq]
      have hmem : tag ∈ cString t :: (tags.take n).map cString ↔
          tag ∈ (tags.take n).map cString := by
        rw [List.mem_cons, or_iff_right fun h => heq h.symm]
      rw [decide_eq_decide.2 hmem]
      exact ih (Nat.le_of_succ_le_succ hn) htags

/-! ### Filters -/

/-- `metadata_query_t`. -/
structure MetadataQuery where
  keyPrefix : Option (List UInt8)
  tag : Option (List UInt8)
  type : UInt32
  createdAfter : Int64
  createdBefore : Int64
  deriving DecidableEq, Repr

/-- The type `-1`, which is documented to select all types. -/
def allTypes : UInt32 := 0xFFFFFFFF

namespace MetadataEntry

/-- The tags that are in use, as a list. -/
def usedTags (e : MetadataEntry) : List (List UInt8) :=
  (e.tags.toList.map Vector.toList).take e.tagCount.toInt.toNat

/-- The entries all of whose parts can be read as they are meant. -/
structure Valid (e : MetadataEntry) : Prop where
  tagCount_nonneg : 0 ≤ e.tagCount.toInt
  tagCount_le : e.tagCount.toInt ≤ metaMaxTags
  key : 0 ∈ e.key.toList
  tags : ∀ t ∈ e.usedTags, 0 ∈ t
  value : ∀ s, e.value = .string s → 0 ∈ s.toList

end MetadataEntry

namespace MetadataQuery

/-- The key filter. -/
def keyMatches (q : MetadataQuery) (e : MetadataEntry) : Option Bool :=
  match q.keyPrefix with
  | none => some true
  | some p => beginsIn e.key.toList (cString p)

/-- The type filter. Both types are unsigned. -/
def typeMatches (q : MetadataQuery) (e : MetadataEntry) : Bool :=
  !decide (0 ≤ q.type ∧ e.value.type ≠ q.type)

/-- The tag filter. -/
def tagMatches (q : MetadataQuery) (e : MetadataEntry) : Option Bool :=
  match q.tag with
  | none => some true
  | some tag => tagFound (cString tag) (e.tags.toList.map Vector.toList) e.tagCount.toInt.toNat

/-- The two time filters. -/
def timeMatches (q : MetadataQuery) (e : MetadataEntry) : Bool :=
  !decide (0 < q.createdAfter ∧ e.created < q.createdAfter) &&
    !decide (0 < q.createdBefore ∧ q.createdBefore < e.created)

/-- The filters in order. The tags are not read for an entry that did not pass so far. -/
def filters (q : MetadataQuery) (e : MetadataEntry) : Option Bool :=
  (q.keyMatches e).bind fun keyOk =>
    if keyOk && q.typeMatches e then (q.tagMatches e).map (· && q.timeMatches e) else some false

/-- **What a query asks for.** -/
def Satisfies (q : MetadataQuery) (e : MetadataEntry) : Prop :=
  (∀ p ∈ q.keyPrefix, cString p <+: e.keyString) ∧ (q.type = allTypes ∨ e.value.type = q.type) ∧
    (∀ tag ∈ q.tag, cString tag ∈ e.usedTags.map cString) ∧
    (q.createdAfter = 0 ∨ q.createdAfter ≤ e.created) ∧
    (q.createdBefore = 0 ∨ e.created ≤ q.createdBefore)

instance (q : MetadataQuery) (e : MetadataEntry) : Decidable (q.Satisfies e) :=
  inferInstanceAs (Decidable (_ ∧ _ ∧ _ ∧ _ ∧ _))

/-- **What is tested.** -/
def Accepts (q : MetadataQuery) (e : MetadataEntry) : Prop :=
  (∀ p ∈ q.keyPrefix, cString p <+: e.keyString) ∧ e.value.type = q.type ∧
    (∀ tag ∈ q.tag, cString tag ∈ e.usedTags.map cString) ∧
    (q.createdAfter ≤ 0 ∨ q.createdAfter ≤ e.created) ∧
    (q.createdBefore ≤ 0 ∨ e.created ≤ q.createdBefore)

instance (q : MetadataQuery) (e : MetadataEntry) : Decidable (q.Accepts e) :=
  inferInstanceAs (Decidable (_ ∧ _ ∧ _ ∧ _ ∧ _))

variable {q : MetadataQuery} {e : MetadataEntry}

theorem keyMatches_of_valid (h : e.Valid) :
    q.keyMatches e = some (decide (∀ p ∈ q.keyPrefix, cString p <+: e.keyString)) := by
  rw [keyMatches]
  rcases q.keyPrefix with - | p
  · rfl
  · dsimp only
    rw [beginsIn_of_mem h.key (zero_not_mem_cString p)]
    simp [MetadataEntry.keyString]

theorem tagMatches_of_valid (h : e.Valid) :
    q.tagMatches e = some (decide (∀ tag ∈ q.tag, cString tag ∈ e.usedTags.map cString)) := by
  have hlen : e.tagCount.toInt.toNat ≤ (e.tags.toList.map Vector.toList).length := by
    rw [List.length_map, Vector.length_toList]
    exact Int.toNat_le.2 h.tagCount_le
  rw [tagMatches]
  rcases q.tag with - | tag
  · rfl
  · dsimp only
    rw [tagFound_of_mem (zero_not_mem_cString tag) hlen h.tags]
    simp [MetadataEntry.usedTags]

theorem timeMatches_iff :
    q.timeMatches e = true ↔ (q.createdAfter ≤ 0 ∨ q.createdAfter ≤ e.created) ∧
      (q.createdBefore ≤ 0 ∨ e.created ≤ q.createdBefore) := by
  rw [timeMatches, Bool.and_eq_true, Bool.not_eq_true', Bool.not_eq_true', decide_eq_false_iff_not,
    decide_eq_false_iff_not, not_and_or, not_and_or, Int64.not_lt, Int64.not_lt, Int64.not_lt,
    Int64.not_lt]

/-- The test `query->type >= 0` is always true. -/
theorem typeMatches_iff : q.typeMatches e = true ↔ e.value.type = q.type := by
  have h0 : 0 ≤ q.type := UInt32.le_iff_toNat_le.2 (Nat.zero_le _)
  rw [typeMatches, Bool.not_eq_true', decide_eq_false_iff_not, and_iff_right h0, not_not]

/-- **The filters stay within a valid entry**, and test what they test. -/
theorem filters_of_valid (h : e.Valid) : q.filters e = some (decide (q.Accepts e)) := by
  rw [filters, keyMatches_of_valid h, tagMatches_of_valid h, Option.bind_some]
  by_cases hk : ∀ p ∈ q.keyPrefix, cString p <+: e.keyString
  · by_cases ht : e.value.type = q.type
    · rw [decide_eq_true hk, typeMatches_iff.2 ht, Bool.true_and, if_pos rfl, Option.map_some]
      refine congrArg some (Bool.eq_iff_iff.2 ?_)
      rw [Bool.and_eq_true, decide_eq_true_iff, timeMatches_iff, decide_eq_true_iff, Accepts,
        and_iff_right hk, and_iff_right ht]
    · have hfalse : q.typeMatches e = false :=
        Bool.eq_false_iff.2 fun h => ht (typeMatches_iff.1 h)
      rw [hfalse, Bool.and_false, if_neg Bool.false_ne_true, decide_eq_false fun ha => ht ha.2.1]
  · rw [decide_eq_false hk, Bool.false_and, if_neg Bool.false_ne_true,
      decide_eq_false fun ha => hk ha.1]

/-- The bounds that are not tested. -/
def MeetsIgnored (q : MetadataQuery) (e : MetadataEntry) : Prop :=
  (q.createdAfter < 0 → q.createdAfter ≤ e.created) ∧
    (q.createdBefore < 0 → e.created ≤ q.createdBefore)

/-- A bound that is used if it is not zero is one that is used if it is positive, and if it is
negative. -/
theorem bound_iff {t : Int64} {p : Prop} : (t = 0 ∨ p) ↔ (t ≤ 0 ∨ p) ∧ (t < 0 → p) := by
  have hzero : (0 : Int64).toInt = 0 := rfl
  rw [← Int64.toInt_inj, Int64.le_iff_toInt_le, Int64.lt_iff_toInt_lt, hzero]
  constructor
  · rintro (h0 | hp)
    · exact ⟨.inl h0.le, fun hneg => absurd h0 hneg.ne⟩
    · exact ⟨.inr hp, fun _ => hp⟩
  · rintro ⟨hle | hp, hneg⟩
    · rcases hle.lt_or_eq with hlt | heq
      · exact .inr (hneg hlt)
      · exact .inl heq
    · exact .inr hp

/-- A query **handles** an entry as it asks: the entry is not lost to a query for all types, nor let
through by a bound that is not tested. -/
def Handles (q : MetadataQuery) (e : MetadataEntry) : Prop :=
  (q.type = allTypes → ¬ q.Satisfies e) ∧ (q.Accepts e → q.MeetsIgnored e)

theorem type_ne_allTypes {v : MetaValue} (h : v.Storable) : v.type ≠ allTypes := by
  have hcode : ∀ t : MetaType, t.code ≠ allTypes := fun t => by cases t <;> decide
  cases v with
  | blobWithoutData | unknown => exact absurd h id
  | string => exact hcode .string
  | int64 => exact hcode .int64
  | double => exact hcode .double
  | timestamp => exact hcode .timestamp
  | blob => exact hcode .blob

/-- **Tested and asked for.** -/
theorem accepts_iff_satisfies_iff (htype : e.value.type ≠ allTypes) :
    (q.Accepts e ↔ q.Satisfies e) ↔ q.Handles e := by
  rw [Handles, Satisfies, bound_iff, bound_iff]
  constructor
  · intro h
    refine ⟨fun hall hs => htype ((h.2 hs).2.1.trans hall), fun ha => ?_⟩
    obtain ⟨-, -, -, ⟨-, hafter⟩, -, hbefore⟩ := h.1 ha
    exact ⟨hafter, hbefore⟩
  · rintro ⟨hall, hignored⟩
    constructor
    · intro ha
      obtain ⟨hafter, hbefore⟩ := hignored ha
      obtain ⟨hk, ht, htag, ha', hb'⟩ := ha
      exact ⟨hk, .inr ht, htag, ⟨ha', hafter⟩, hb', hbefore⟩
    · intro hs
      have ht : e.value.type = q.type := hs.2.1.resolve_left fun h => hall h hs
      obtain ⟨hk, -, htag, ⟨ha', -⟩, hb', -⟩ := hs
      exact ⟨hk, ht, htag, ha', hb'⟩

end MetadataQuery

/-! ### The directory -/

/-- The names of files that are read: those that end in `.meta` and have more than that. -/
def isMetaName (name : List UInt8) : Bool :=
  decide (name ≠ [dot] ∧ name ≠ [dot, dot]) &&
    decide (6 ≤ name.length ∧ name.drop (name.length - 5) = metaSuffix)

/-- The filters of a query, if there is one. -/
def matchesQuery : Option MetadataQuery → MetadataEntry → Option Bool
  | none, _ => some true
  | some q, e => q.filters e

namespace MetadataStore

/-- The path of a file of the directory. -/
def entryPath (store : MetadataStore) (name : List UInt8) : List UInt8 :=
  (store.path ++ slash :: name).take (pathSize - 1)

/-- The loop of `metadata_store_query` over the names that `readdir` gives, with the results so far.
-/
def queryLoop (store : MetadataStore) (allocated : Bool) (files : Files)
    (query : Option MetadataQuery) (maxResults : ℕ) :
    List (List UInt8) → List MetadataEntry → Option (List MetadataEntry)
  | [], results => some results
  | name :: names, results =>
    if results.length < maxResults then
      if isMetaName name then
        match readEntryFromFile allocated (files (store.entryPath name)) with
        | .error _ => queryLoop store allocated files query maxResults names results
        | .ok e =>
          (matchesQuery query e).bind fun found =>
            queryLoop store allocated files query maxResults names
              (if found then results ++ [e] else results)
      else queryLoop store allocated files query maxResults names results
    else some results

/-- `metadata_store_query`, with the names in the directory if it can be opened. -/
def metadataStoreQuery (store : MetadataStore) (allocated : Bool) (files : Files)
    (dir : Option (List (List UInt8))) (query : Option MetadataQuery) (maxResults : ℕ) :
    Option (Except MetaError (List MetadataEntry)) :=
  match dir with
  | none => some (.error .io)
  | some names => (store.queryLoop allocated files query maxResults names []).map .ok

/-- The entries in the directory. -/
def entries (store : MetadataStore) (allocated : Bool) (files : Files)
    (names : List (List UInt8)) : List MetadataEntry :=
  (names.filter isMetaName).filterMap fun name =>
    (readEntryFromFile allocated (files (store.entryPath name))).toOption

variable {store : MetadataStore} {allocated : Bool} {files : Files} {query : Option MetadataQuery}
  {maxResults : ℕ} {names : List (List UInt8)}

theorem entries_cons (store : MetadataStore) (allocated : Bool) (files : Files)
    (name : List UInt8) (names : List (List UInt8)) :
    store.entries allocated files (name :: names) =
      (if isMetaName name then
          (readEntryFromFile allocated (files (store.entryPath name))).toOption.toList
        else []) ++ store.entries allocated files names := by
  rw [entries, List.filter_cons]
  split
  · rw [List.filterMap_cons]
    rcases readEntryFromFile allocated (files (store.entryPath name)) with err | e <;> rfl
  · rfl

/-- **The loop filters.** If the filters can be read on every entry of the directory, the results
are the first entries that pass, as many as there is room for. -/
theorem queryLoop_eq {accepts : MetadataEntry → Bool}
    (h : ∀ e ∈ store.entries allocated files names, matchesQuery query e = some (accepts e))
    {results : List MetadataEntry} (hroom : results.length ≤ maxResults) :
    store.queryLoop allocated files query maxResults names results =
      some ((results ++ (store.entries allocated files names).filter accepts).take maxResults) := by
  induction names generalizing results with
  | nil =>
    have hnil : store.entries allocated files [] = [] := rfl
    rw [queryLoop, hnil, List.filter_nil, List.append_nil, List.take_of_length_le hroom]
  | cons name names ih =>
    rw [entries_cons] at h ⊢
    rw [queryLoop]
    split
    · next hlt =>
      rcases hmeta : isMetaName name with - | -
      · simp only [hmeta, Bool.false_eq_true, if_false, List.nil_append] at h ⊢
        exact ih h hroom
      · simp only [hmeta, if_true] at h ⊢
        rcases hread : readEntryFromFile allocated (files (store.entryPath name)) with err | e
        · rw [hread] at h
          exact ih h hroom
        · rw [hread] at h
          obtain ⟨he, hrest⟩ := List.forall_mem_cons.1 h
          dsimp only
          rw [he, Option.bind_some]
          have hroom' : (if accepts e then results ++ [e] else results).length ≤ maxResults := by
            split
            · rw [List.length_append]
              exact hlt
            · exact hroom
          rw [ih hrest hroom']
          show _ = some ((results ++ (e :: store.entries allocated files names).filter _).take _)
          rw [List.filter_cons]
          split
          · rw [List.append_assoc, List.singleton_append]
          · rfl
    · next hfull =>
      rw [List.take_append_of_le_length (Nat.not_lt.1 hfull), List.take_of_length_le hroom]

/-! ### What a query returns -/

/-- What a query, or none, asks for. -/
def Asked (query : Option MetadataQuery) (e : MetadataEntry) : Prop := ∀ q ∈ query, q.Satisfies e

instance (query : Option MetadataQuery) (e : MetadataEntry) : Decidable (Asked query e) :=
  inferInstanceAs (Decidable (∀ q ∈ query, q.Satisfies e))

/-- What is tested for a query, or for none. -/
def Tested (query : Option MetadataQuery) (e : MetadataEntry) : Prop := ∀ q ∈ query, q.Accepts e

instance (query : Option MetadataQuery) (e : MetadataEntry) : Decidable (Tested query e) :=
  inferInstanceAs (Decidable (∀ q ∈ query, q.Accepts e))

theorem matchesQuery_of_valid {e : MetadataEntry} (h : e.Valid) (query : Option MetadataQuery) :
    matchesQuery query e = some (decide (Tested query e)) := by
  rcases query with - | q
  · rfl
  · show q.filters e = _
    rw [MetadataQuery.filters_of_valid h]
    simp [Tested]

/-- The query returns exactly the entries that are asked for, each once, if there is room for them,
and as many of them as there is room for otherwise. -/
def QueryExact (store : MetadataStore) (allocated : Bool) (files : Files)
    (names : List (List UInt8)) (query : Option MetadataQuery) : Prop :=
  ∀ maxResults, ∃ results,
    store.metadataStoreQuery allocated files (some names) query maxResults = some (.ok results) ∧
      let matching := (store.entries allocated files names).filter fun e => Asked query e
      (matching.length ≤ maxResults → results.Perm matching) ∧
        (maxResults < matching.length → results.length = maxResults ∧ results.Subperm matching)

theorem metadataStoreQuery_eq (hvalid : ∀ e ∈ store.entries allocated files names, e.Valid)
    (query : Option MetadataQuery) (maxResults : ℕ) :
    store.metadataStoreQuery allocated files (some names) query maxResults =
      some (.ok (((store.entries allocated files names).filter fun e => Tested query e).take
        maxResults)) := by
  have hmatch (e : MetadataEntry) (he : e ∈ store.entries allocated files names) :=
    matchesQuery_of_valid (hvalid e he) query
  rw [metadataStoreQuery, queryLoop_eq hmatch (Nat.zero_le _)]
  rfl

/-- A query is exact if and only if on every entry it tests what it asks for. -/
theorem queryExact_iff_forall (hvalid : ∀ e ∈ store.entries allocated files names, e.Valid) :
    store.QueryExact allocated files names query ↔
      ∀ e ∈ store.entries allocated files names, Tested query e ↔ Asked query e := by
  constructor
  · intro h e he
    -- with room for everything, the results are all that passed
    obtain ⟨results, hres, hall, -⟩ := h (store.entries allocated files names).length
    rw [metadataStoreQuery_eq hvalid, List.take_of_length_le (List.length_filter_le _ _)] at hres
    obtain rfl := Except.ok.inj (Option.some.inj hres)
    have hmem := (hall (List.length_filter_le _ _)).mem_iff (a := e)
    rw [List.mem_filter, List.mem_filter, and_iff_right he, and_iff_right he] at hmem
    exact decide_eq_true_iff.symm.trans (hmem.trans decide_eq_true_iff)
  · intro h maxResults
    have hsame : (store.entries allocated files names).filter (fun e => Tested query e) =
        (store.entries allocated files names).filter fun e => Asked query e :=
      List.filter_congr fun e he => decide_eq_decide.2 (h e he)
    refine ⟨_, metadataStoreQuery_eq hvalid query maxResults, fun hroom => ?_, fun hfull => ?_⟩
    · rw [hsame, List.take_of_length_le hroom]
    · rw [hsame]
      exact ⟨List.length_take_of_le hfull.le, (List.take_sublist ..).subperm⟩

theorem storable_of_mem_entries {e : MetadataEntry}
    (he : e ∈ store.entries allocated files names) : e.value.Storable := by
  obtain ⟨name, -, hname⟩ := List.mem_filterMap.1 he
  rcases hread : readEntryFromFile allocated (files (store.entryPath name)) with err | e'
  · rw [hread] at hname
    cases hname
  · rw [hread] at hname
    obtain rfl := Option.some.inj hname
    rcases hfile : files (store.entryPath name) with - | bytes
    · rw [hfile] at hread
      cases hread
    · rw [hfile] at hread
      exact storable_of_readEntryFromFile hread

/-- **Queries are exact**, over every directory of valid entries in every order, exactly if no entry
is asked for by a query for all types, and every entry that passes the tests meets the bounds that
are not tested. -/
theorem query_exact_iff (hvalid : ∀ e ∈ store.entries allocated files names, e.Valid) :
    store.QueryExact allocated files names query ↔
      ∀ q ∈ query, ∀ e ∈ store.entries allocated files names, q.Handles e := by
  rw [queryExact_iff_forall hvalid]
  rcases query with - | q
  · exact iff_of_true (fun e _ => iff_of_true (fun q hq => absurd hq (Option.not_mem_none q))
      fun q hq => absurd hq (Option.not_mem_none q)) fun q hq => absurd hq (Option.not_mem_none q)
  · have hone : ∀ {P : MetadataQuery → Prop}, (∀ q' ∈ some q, P q') ↔ P q := by
      simp
    rw [hone]
    refine forall₂_congr fun e he => ?_
    rw [Tested, Asked, hone, hone]
    exact MetadataQuery.accepts_iff_satisfies_iff
      (MetadataQuery.type_ne_allTypes (storable_of_mem_entries he))

/-! ### A directory with one file -/

/-- Every file holds an integer under the key `a/b`. -/
def integerFiles : Files := fun _ => some (intEntry slashKey 1).items.flatten

/-- The name `a.meta`. -/
def metaName : List UInt8 := 0x61 :: metaSuffix

theorem entries_integerFiles :
    metaStore.entries true integerFiles [metaName] = [intEntry slashKey 1] := by
  have hread : readEntryFromFile true (integerFiles (metaStore.entryPath metaName)) =
      .ok (intEntry slashKey 1) :=
    readEntry_of_storable trivial trivial
  rw [entries_cons, if_pos (by decide), hread]
  rfl

theorem valid_intEntry : (intEntry slashKey 1).Valid where
  tagCount_nonneg := by decide
  tagCount_le := by decide
  key := by decide
  tags := List.forall_mem_nil _
  value := fun _ h => MetaValue.noConfusion h

theorem valid_integerFiles :
    ∀ e ∈ metaStore.entries true integerFiles [metaName], e.Valid := by
  rw [entries_integerFiles]
  exact List.forall_mem_singleton.2 valid_intEntry

/-- A query for the integers. -/
theorem query_exact_iff_integers :
    metaStore.QueryExact true integerFiles [metaName] (some ⟨none, none, 1, 0, 0⟩) ↔
      (⟨none, none, 1, 0, 0⟩ : MetadataQuery).Handles (intEntry slashKey 1) := by
  refine (query_exact_iff valid_integerFiles).trans ?_
  rw [entries_integerFiles]
  simp

/-- A query for all types returns nothing, though an entry meets it. -/
theorem query_for_all_types_returns_nothing :
    metaStore.metadataStoreQuery true integerFiles (some [metaName])
        (some ⟨none, none, allTypes, 0, 0⟩) 10 = some (.ok []) ∧
      (metaStore.entries true integerFiles [metaName]).filter
        (fun e => Asked (some ⟨none, none, allTypes, 0, 0⟩) e) = [intEntry slashKey 1] := by
  rw [metadataStoreQuery_eq valid_integerFiles, entries_integerFiles]
  refine ⟨?_, ?_⟩
  · rw [List.filter_cons_of_neg (by decide), List.filter_nil, List.take_nil]
  · rw [List.filter_cons_of_pos (by decide), List.filter_nil]

end MetadataStore

end DistributedComputing
