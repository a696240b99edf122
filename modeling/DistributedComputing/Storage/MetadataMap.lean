import DistributedComputing.Foundations.StepRun
import DistributedComputing.Storage.MetadataStore

/-!
# The store as a map

What the store is for: a map from keys to entries, in which `put` sets the entry of a key, `delete`
removes it, and `get` returns it. `Contents` is that map, and `tracked` the store together with it:
the files change as the code changes them, the map as the results of the calls say.

`Agrees store k` says that `get` of the key `k` answers as the map does. For each key, that stays so
over a sequence of calls whose file operations succeed exactly if no call disturbs the file of `k`
(`Undisturbed`, `agrees_along_iff`). A call does so through another key with the same file, or by
writing an entry that cannot be read back. For plain keys the first is impossible
(`agrees_of_run_of_plain`); in general it is not (`agrees_fails_after_put_of_slash`).
-/

namespace DistributedComputing

open Bytes StepRun

/-- A string that can be a key. -/
structure Key where
  bytes : List UInt8
  ne_nil : bytes ≠ []
  length_lt : bytes.length < metaMaxKeyLen
  no_zero : 0 ∉ bytes
  deriving DecidableEq, Repr

/-- A buffer with the key, filled up with zeros. -/
def Key.buffer (k : Key) : Vector UInt8 metaMaxKeyLen :=
  ⟨(k.bytes ++ List.replicate (metaMaxKeyLen - k.bytes.length) 0).toArray, by
    have := k.length_lt
    simp only [List.size_toArray, List.length_append, List.length_replicate]
    omega⟩

theorem Key.cString_buffer (k : Key) : cString k.buffer.toList = k.bytes := by
  obtain ⟨n, hn⟩ := Nat.exists_eq_add_of_lt k.length_lt
  have hpad : metaMaxKeyLen - k.bytes.length = n + 1 := by omega
  show cString (k.bytes ++ List.replicate (metaMaxKeyLen - k.bytes.length) 0) = k.bytes
  rw [hpad, List.replicate_succ, cString_append_zero, cString_eq_self k.no_zero]

/-- The check of `metadata_store_put`. -/
def MetadataEntry.ValidKey (e : MetadataEntry) : Prop :=
  ¬ (e.keyString.length = 0 ∨ metaMaxKeyLen ≤ e.keyString.length)

theorem MetadataEntry.validKey_of_keyString {e : MetadataEntry} {key : List UInt8}
    (h : e.keyString = key) (hne : key ≠ []) (hlen : key.length < metaMaxKeyLen) : e.ValidKey := by
  rw [ValidKey, h, List.length_eq_zero_iff]
  exact not_or.2 ⟨hne, Nat.not_le_of_lt hlen⟩

/-! ### The map -/

/-- The entries by key. -/
abbrev Contents := List UInt8 → Option MetadataEntry

/-- What a map says about a key. -/
def answer : Option MetadataEntry → Except MetaError MetadataEntry
  | some e => .ok e
  | none => .error .notFound

/-- A call, with file operations that succeed. -/
inductive StoreLabel
  | put (e : MetadataEntry)
  | get (k : Key)
  | delete (k : Key)

/-- A successful `put`, or a `delete`. -/
inductive StoreEvent
  | stored (e : MetadataEntry)
  | deleted (k : Key)

/-- The map after an event. -/
def Contents.after (c : Contents) : StoreEvent → Contents
  | .stored e => Function.update c e.keyString (some e)
  | .deleted k => Function.update c k.bytes none

namespace MetadataStore

/-- One call, with what its result says. -/
def step (store : MetadataStore) (files : Files) : StoreLabel → Option (Files × List StoreEvent)
  | .put e =>
    (store.put none files e).map fun r =>
      (r.1, match r.2 with | .ok _ => [.stored e] | .error _ => [])
  | .get k => (store.get true files k.bytes).map fun _ => (files, [])
  | .delete k => (store.delete true files k.bytes).map fun r => (r.1, [.deleted k])

/-- The store with the map. -/
def tracked (store : MetadataStore) : Files × Contents → StoreLabel → Option (Files × Contents) :=
  observed store.step fun c es => es.foldl Contents.after c

/-- No files and no entries. -/
def start : Files × Contents := (fun _ => none, fun _ => none)

/-- `get` answers as the map does. -/
def Agrees (store : MetadataStore) (k : Key) (s : Files × Contents) : Prop :=
  store.get true s.1 k.bytes = some (answer (s.2 k.bytes))

/-- The calls that leave the file of `k` alone, or write or remove it for `k`. -/
def Undisturbed (store : MetadataStore) (k : Key) (s : Files × Contents) : StoreLabel → Prop
  | .put e =>
    e.ValidKey → store.buildFilePath e.keyString = store.buildFilePath k.bytes →
      e.keyString = k.bytes ∧ e.value.Storable
  | .get _ => True
  | .delete k' =>
    store.buildFilePath k'.bytes = store.buildFilePath k.bytes →
      k'.bytes = k.bytes ∨ s.2 k.bytes = none

/-! ### What a call does -/

/-- Every call, with the file it works on. -/
inductive Transition (store : MetadataStore) :
    Files × Contents → StoreLabel → Files × Contents → Prop
  | refused {files : Files} {c : Contents} {e : MetadataEntry} (h : ¬ e.ValidKey) :
      Transition store (files, c) (.put e) (files, c)
  | stored {files : Files} {c : Contents} {e : MetadataEntry} {path : List UInt8} (h : e.ValidKey)
      (hpath : store.buildFilePath e.keyString = some path) (hok : e.value.written = .ok ()) :
      Transition store (files, c) (.put e)
        (Function.update files path (some e.items.flatten), Function.update c e.keyString (some e))
  | failed {files : Files} {c : Contents} {e : MetadataEntry} {path : List UInt8} (h : e.ValidKey)
      (hpath : store.buildFilePath e.keyString = some path) (hun : ¬ e.value.Storable) :
      Transition store (files, c) (.put e) (Function.update files path (some e.items.flatten), c)
  | got {s : Files × Contents} {k : Key} : Transition store s (.get k) s
  | deleted {files : Files} {c : Contents} {k : Key} {path : List UInt8}
      (hpath : store.buildFilePath k.bytes = some path) :
      Transition store (files, c) (.delete k)
        (Function.update files path none, Function.update c k.bytes none)

variable {store : MetadataStore} {files : Files} {c : Contents} {s t : Files × Contents}
  {l : StoreLabel} {k : Key} {path : List UInt8}

theorem put_of_invalid {e : MetadataEntry} (hw : store.readOnly = false) (h : ¬ e.ValidKey) :
    store.put none files e = some (files, .error .invalidArg) := by
  rw [put, hw, if_neg Bool.false_ne_true, if_pos (not_not.1 h)]

theorem put_of_valid {e : MetadataEntry} (hw : store.readOnly = false) (h : e.ValidKey)
    (hpath : store.buildFilePath e.keyString = some path) :
    store.put none files e =
      some (Function.update files path (some e.items.flatten), e.value.written) := by
  rw [put, hw, if_neg Bool.false_ne_true, if_neg h, hpath, writeEntryToFile_none]
  rfl

/-- A file that is not there is removed as well. -/
theorem delete_of_path {key : List UInt8} (hw : store.readOnly = false)
    (hpath : store.buildFilePath key = some path) :
    ∃ res, store.delete true files key = some (Function.update files path none, res) := by
  rw [delete, hw, if_neg Bool.false_ne_true, hpath]
  rcases hfile : files path with - | bytes
  · have hsame : Function.update files path none = files := by
      rw [← hfile, Function.update_eq_self]
    refine ⟨.error .notFound, ?_⟩
    rw [hsame, Option.map_some, hfile]
  · refine ⟨.ok (), ?_⟩
    rw [Option.map_some, hfile]
    rfl

/-- **One call** is one of the transitions, and there always is one. -/
theorem exists_transition (hw : store.readOnly = false) (s : Files × Contents) (l : StoreLabel) :
    ∃ t, store.tracked s l = some t ∧ store.Transition s l t := by
  obtain ⟨files, c⟩ := s
  cases l with
  | put e =>
    rcases Classical.em e.ValidKey with hvalid | hvalid
    · have hlen : e.keyString.length < metaMaxKeyLen := Nat.not_le.1 fun hle => hvalid (.inr hle)
      obtain ⟨path, hpath⟩ := store.exists_buildFilePath hlen
      have hput : store.put none files e = some _ := put_of_valid hw hvalid hpath
      rcases hres : e.value.written with err | ⟨⟩
      · have hun : ¬ e.value.Storable := fun hst =>
          nomatch hres.symm.trans (MetaValue.written_of_storable hst)
        refine ⟨_, ?_, .failed hvalid hpath hun⟩
        rw [tracked, observed, step, hput, hres]
        rfl
      · refine ⟨_, ?_, .stored hvalid hpath hres⟩
        rw [tracked, observed, step, hput, hres]
        rfl
    · refine ⟨_, ?_, .refused hvalid⟩
      rw [tracked, observed, step, put_of_invalid hw hvalid]
      rfl
  | get k =>
    obtain ⟨path, hpath⟩ := store.exists_buildFilePath k.length_lt
    refine ⟨_, ?_, .got⟩
    rw [tracked, observed, step, get, hpath]
    rfl
  | delete k =>
    obtain ⟨path, hpath⟩ := store.exists_buildFilePath k.length_lt
    have hdel : ∃ res, store.delete true files k.bytes = some (_, res) := delete_of_path hw hpath
    obtain ⟨res, hdel⟩ := hdel
    refine ⟨_, ?_, .deleted hpath⟩
    rw [tracked, observed, step, hdel]
    rfl

theorem transition_of_tracked (hw : store.readOnly = false) (hs : store.tracked s l = some t) :
    store.Transition s l t := by
  obtain ⟨t', ht', htr⟩ := exists_transition hw s l
  obtain rfl := Option.some.inj (ht'.symm.trans hs)
  exact htr

/-! ### Agreement -/

/-- The map files entries under their own keys. -/
def Filed (s : Files × Contents) : Prop := ∀ key e, s.2 key = some e → e.keyString = key

theorem Filed.step (h : Filed s) (hw : store.readOnly = false) (hs : store.tracked s l = some t) :
    Filed t := by
  intro key e' hkey
  cases transition_of_tracked hw hs with
  | refused | failed | got => exact h key e' hkey
  | @stored files c e path =>
    rcases eq_or_ne key e.keyString with rfl | hne
    · have hself : Function.update c e.keyString (some e) e.keyString = some e' := hkey
      rw [Function.update_self] at hself
      rw [Option.some.inj hself]
    · exact h key e' ((Function.update_of_ne hne ..).symm.trans hkey)
  | @deleted files c k path =>
    rcases eq_or_ne key k.bytes with rfl | hne
    · exact absurd ((Function.update_self ..).symm.trans hkey) nofun
    · exact h key e' ((Function.update_of_ne hne ..).symm.trans hkey)

theorem agrees_iff (hpath : store.buildFilePath k.bytes = some path) :
    store.Agrees k s ↔ readEntryFromFile true (s.1 path) = answer (s.2 k.bytes) := by
  rw [Agrees, get, hpath, Option.map_some, Option.some_inj]

theorem agrees_update_iff {file : Option (List UInt8)}
    (hpath : store.buildFilePath k.bytes = some path) :
    store.Agrees k (Function.update files path file, c) ↔
      readEntryFromFile true file = answer (c k.bytes) := by
  rw [agrees_iff hpath]
  show readEntryFromFile true (Function.update files path file path) = _ ↔ _
  rw [Function.update_self]

/-- Another file is no concern of the key. -/
theorem Agrees.of_other_file {path' : List UInt8} {file : Option (List UInt8)} {c' : Contents}
    (h : store.Agrees k (files, c)) (hpath : store.buildFilePath k.bytes = some path)
    (hne : path' ≠ path) (hc : c' k.bytes = c k.bytes) :
    store.Agrees k (Function.update files path' file, c') := by
  rw [agrees_iff hpath] at h ⊢
  show readEntryFromFile true (Function.update files path' file path) = answer (c' k.bytes)
  rw [Function.update_of_ne hne.symm, hc]
  exact h

theorem read_eq_answer_iff {e : MetadataEntry} {o : Option MetadataEntry} :
    readEntryFromFile true (some e.items.flatten) = answer o ↔ e.value.Storable ∧ o = some e := by
  rw [readEntry_items]
  split
  · next h =>
    cases o with
    | none => exact iff_of_false nofun fun hand => absurd hand.2 nofun
    | some e' =>
      constructor
      · exact fun heq => ⟨h, congrArg some (Except.ok.inj heq).symm⟩
      · rintro ⟨-, heq⟩
        rw [Option.some.inj heq]
        rfl
  · next h =>
    refine iff_of_false ?_ fun hand => h hand.1
    cases o <;> exact nofun

theorem notFound_eq_answer_iff {o : Option MetadataEntry} :
    Except.error MetaError.notFound = answer o ↔ o = none := by
  cases o with
  | none => exact iff_of_true rfl rfl
  | some e => exact iff_of_false nofun nofun

/-- **One call** keeps the agreement on a key exactly if it does not disturb it. -/
theorem Agrees.step_iff (h : store.Agrees k s) (hw : store.readOnly = false) (hf : Filed s)
    (hs : store.tracked s l = some t) : store.Agrees k t ↔ store.Undisturbed k s l := by
  obtain ⟨path, hpath⟩ := store.exists_buildFilePath k.length_lt
  -- calls on another file keep the agreement, and their key is another one
  have hother : ∀ {key path'}, store.buildFilePath key = some path' → path' ≠ path →
      key ≠ k.bytes ∧ store.buildFilePath key ≠ store.buildFilePath k.bytes := by
    intro key path' hpath' hne
    have hdiff : store.buildFilePath key ≠ store.buildFilePath k.bytes := fun heq =>
      hne (Option.some.inj (hpath'.symm.trans (heq.trans hpath)))
    exact ⟨fun hkey => hdiff (congrArg _ hkey), hdiff⟩
  cases transition_of_tracked hw hs with
  | refused hvalid => exact iff_of_true h fun hv => absurd hv hvalid
  | got => exact iff_of_true h trivial
  | @stored files c e path' hvalid hpath' hok =>
    rcases eq_or_ne path' path with rfl | hne
    · rw [agrees_update_iff hpath, read_eq_answer_iff]
      constructor
      · rintro ⟨hst, hin⟩ - -
        exact ⟨hf.step hw hs k.bytes e hin, hst⟩
      · intro hun
        obtain ⟨hkey, hst⟩ := hun hvalid (hpath'.trans hpath.symm)
        exact ⟨hst, by rw [hkey, Function.update_self]⟩
    · obtain ⟨hkey, hdiff⟩ := hother hpath' hne
      exact iff_of_true (h.of_other_file hpath hne (Function.update_of_ne hkey.symm ..))
        fun _ heq => absurd heq hdiff
  | @failed files c e path' hvalid hpath' hun =>
    rcases eq_or_ne path' path with rfl | hne
    · rw [agrees_update_iff hpath, read_eq_answer_iff]
      exact iff_of_false (fun hand => hun hand.1)
        fun hund => hun (hund hvalid (hpath'.trans hpath.symm)).2
    · obtain ⟨-, hdiff⟩ := hother hpath' hne
      exact iff_of_true (h.of_other_file hpath hne rfl) fun _ heq => absurd heq hdiff
  | @deleted files c k' path' hpath' =>
    rcases eq_or_ne path' path with rfl | hne
    · refine (agrees_update_iff hpath).trans (notFound_eq_answer_iff.trans ?_)
      -- the file is gone; the map agrees if the key was its own or had no entry
      rcases eq_or_ne k.bytes k'.bytes with hkey | hkey
      · exact iff_of_true (by rw [hkey, Function.update_self]) fun _ => .inl hkey.symm
      · rw [Function.update_of_ne hkey]
        constructor
        · exact fun hnone _ => .inr hnone
        · exact fun hun => (hun (hpath'.trans hpath.symm)).resolve_left hkey.symm
    · obtain ⟨hkey, hdiff⟩ := hother hpath' hne
      exact iff_of_true (h.of_other_file hpath hne (Function.update_of_ne hkey.symm ..))
        fun heq => absurd heq hdiff

theorem agrees_start (store : MetadataStore) (k : Key) : store.Agrees k start := by
  obtain ⟨path, hpath⟩ := store.exists_buildFilePath k.length_lt
  rw [agrees_iff hpath]
  rfl

theorem filed_start : Filed start := nofun

theorem along_agrees_iff (hw : store.readOnly = false) {labels : List StoreLabel} :
    Along store.tracked (store.Agrees k) start labels ↔
      Meets store.tracked (store.Undisturbed k) start labels :=
  along_iff_meets (fun hf hs => Filed.step hf hw hs) (fun hf h hs => h.step_iff hw hf hs)
    filed_start
    (agrees_start store k)

/-- **The store as a map.** For every directory, every key and every sequence of calls: `get` of the
key answers as the map does after every call exactly if no call disturbs the key. -/
theorem agrees_along_iff {dir : List UInt8} {k : Key} {labels : List StoreLabel} :
    Along (openAt dir).tracked ((openAt dir).Agrees k) start labels ↔
      Meets (openAt dir).tracked ((openAt dir).Undisturbed k) start labels :=
  along_agrees_iff rfl

/-! ### Keys that keep apart -/

/-- The keys are plain, and the entries can be read back. -/
def PlainLabel : StoreLabel → Prop
  | .put e => e.ValidKey → Plain e.keyString ∧ e.value.Storable
  | .get _ => True
  | .delete k => Plain k.bytes

theorem undisturbed_of_plain (hroom : store.Roomy) (hk : Plain k.bytes) (hl : PlainLabel l) :
    store.Undisturbed k s l := by
  cases l with
  | get => trivial
  | put e =>
    intro hvalid heq
    obtain ⟨hplain, hst⟩ := hl hvalid
    have hlen : e.keyString.length < metaMaxKeyLen := Nat.not_le.1 fun hle => hvalid (.inr hle)
    exact ⟨buildFilePath_injective hroom hplain hk hlen k.length_lt heq, hst⟩
  | delete k' =>
    exact fun heq => .inl (buildFilePath_injective hroom hl hk k'.length_lt k.length_lt heq)

/-- **Plain keys.** With keys without slashes, backslashes and consecutive dots, in a directory with
a path that is not too long, the store is a map: `get` answers as the map does after every run. -/
theorem agrees_of_run_of_plain {dir : List UInt8} (hroom : (openAt dir).Roomy) (hk : Plain k.bytes)
    {labels : List StoreLabel} (hl : ∀ l ∈ labels, PlainLabel l)
    (hrun : Run (openAt dir).tracked start labels t) : (openAt dir).Agrees k t := by
  have hun : ∀ {s l}, True → PlainLabel l → (openAt dir).Undisturbed k s l :=
    fun _ hl => undisturbed_of_plain hroom hk hl
  have halong : Along (openAt dir).tracked ((openAt dir).Agrees k) start labels :=
    (along_agrees_iff rfl).2 (meets_of_labels (fun _ _ _ => trivial) hun trivial hl)
  exact along_iff_forall_run.1 halong labels [] t (List.append_nil labels).symm hrun

/-- The key `a/b`. -/
def slashKey : Key := ⟨[0x61, 0x2F, 0x62], by decide, by decide, by decide⟩

/-- The key `a_b`. -/
def underscoreKey : Key := ⟨[0x61, 0x5F, 0x62], by decide, by decide, by decide⟩

/-- An integer under a key. -/
def intEntry (k : Key) (v : Int64) : MetadataEntry where
  key := k.buffer
  tagCount := 0
  created := 0
  modified := 0
  tags := .replicate _ (.replicate _ 0)
  value := .int64 v

/-- After a `put` of `a_b`, `get` of it agrees. -/
theorem agrees_of_run_of_plain_underscore :
    ∃ t, Run metaStore.tracked start [.put (intEntry underscoreKey 1)] t ∧
      metaStore.Agrees underscoreKey t := by
  have hw : metaStore.readOnly = false := rfl
  obtain ⟨t, ht, -⟩ := exists_transition hw start (.put (intEntry underscoreKey 1))
  have hroom : metaStore.Roomy := by
    rw [Roomy]
    decide
  have hplain : Plain underscoreKey.bytes := ⟨by decide, by decide, by decide⟩
  have hkey : (intEntry underscoreKey 1).keyString = underscoreKey.bytes :=
    underscoreKey.cString_buffer
  have hrun : Run metaStore.tracked start [.put (intEntry underscoreKey 1)] t := .cons ht (.nil _)
  refine ⟨t, hrun, agrees_of_run_of_plain hroom hplain ?_ hrun⟩
  exact List.forall_mem_singleton.2 fun _ => ⟨hkey ▸ hplain, trivial⟩

/-- After a `put` of `a/b`, `get` of `a_b` finds the entry of `a/b`. -/
theorem agrees_fails_after_put_of_slash :
    ¬ Along metaStore.tracked (metaStore.Agrees underscoreKey) start
      [.put (intEntry slashKey 1)] := by
  intro h
  have hcall : ∃ t, metaStore.tracked start (.put (intEntry slashKey 1)) = some t ∧ _ :=
    exists_transition rfl start (.put (intEntry slashKey 1))
  obtain ⟨t, ht, -⟩ := hcall
  rw [along_cons_of_some ht] at h
  have hkey : (intEntry slashKey 1).keyString = slashKey.bytes := slashKey.cString_buffer
  have hvalid := MetadataEntry.validKey_of_keyString hkey slashKey.ne_nil slashKey.length_lt
  have hfile : metaStore.buildFilePath (intEntry slashKey 1).keyString =
      metaStore.buildFilePath underscoreKey.bytes := by
    rw [hkey]
    decide
  have hsame := (((h.1.step_iff rfl filed_start ht).1 h.2) hvalid hfile).1
  rw [hkey] at hsame
  exact absurd hsame (by decide)

end MetadataStore

end DistributedComputing
