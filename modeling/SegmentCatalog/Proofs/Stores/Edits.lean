import SegmentCatalog.Proofs.Stores.Split

/-! # Stores under edits

The user of a store sets keys, sets lists and removes keys, in any order and any number.  An
`Edit` is one such step, `PropertyStore.editAll` a run of them.

What a step does is said once, by the keys that it leaves and their order (`keys_edit`) and by
the values under them (`find?_edit`).  No step makes a key occur twice, nor does reading a file
(`nodup_keys_parse`); and a store that is kept in two parts goes along with every step
(`SplitStore.Holds.editAll`).  So a store behaves as an ordered list of keys with a value each,
whatever was done to it: `PropertyStore.ordered_of_editAll`.
-/

namespace SegmentCatalog

namespace PropertyStore

/-- A change that the user of a store can make. -/
inductive Edit where
  | set (key text : String)
  | setList (key : String) (items : List String)
  | remove (key : String)

namespace Edit

/-- The key that an edit is about. -/
def key : Edit → String
  | set key _ => key
  | setList key _ => key
  | remove key => key

/-- The value that an edit leaves under its key. -/
def value? : Edit → Option PropertyValue
  | set _ text => some { text, items := [text] }
  | setList _ items => some { text := ",".intercalate items, items }
  | remove _ => none

/-- The keys that an edit makes of a list of keys: one that gets a value keeps its place or comes
    last, one that loses its value goes. -/
def keysAfter (e : Edit) (keys : List String) : List String :=
  if e.value?.isNone then keys.filter (· ≠ e.key)
  else if e.key ∈ keys then keys
  else keys ++ [e.key]

end Edit

def edit (store : PropertyStore) : Edit → PropertyStore
  | .set key text => store.set key text
  | .setList key items => store.setList key items
  | .remove key => (store.remove key).2

def editAll (store : PropertyStore) (edits : List Edit) : PropertyStore := edits.foldl edit store

variable {store : PropertyStore} {key : String}

/-! ## One step -/

/-- Removing a key that is not there changes nothing, so that no case has to be made of it. -/
theorem erase_of_absent (absent : key ∉ store.keys) : store.erase key = store := by
  have kept : ∀ entry ∈ store.entries, entry.1 ≠ key := by
    intro entry member same
    exact absent (same ▸ List.mem_map_of_mem member)
  rw [OrderedMap.erase, List.filter_eq_self.2 (by simpa using kept)]

theorem remove_eq (store : PropertyStore) (key : String) :
    store.remove key = (store.contains key, store.erase key) := by
  rw [remove]
  cases there : store.contains key with
  | true => rfl
  | false =>
    have absent : key ∉ store.keys := by simp [← OrderedMap.contains_iff, there]
    rw [erase_of_absent absent]
    rfl

theorem keys_remove (store : PropertyStore) (key : String) :
    (store.remove key).2.keys = store.keys.filter (· ≠ key) := by
  rw [remove_eq, OrderedMap.keys_erase]

theorem find?_remove (store : PropertyStore) (key other : String) :
    (store.remove key).2.find? other = if other = key then none else store.find? other := by
  rw [remove_eq, OrderedMap.find?_erase]

theorem keys_edit (store : PropertyStore) (e : Edit) :
    (store.edit e).keys = e.keysAfter store.keys := by
  cases e with
  | set key text => exact OrderedMap.keys_insert ..
  | setList key items => exact OrderedMap.keys_insert ..
  | remove key => exact keys_remove store key

theorem find?_edit (store : PropertyStore) (e : Edit) (other : String) :
    (store.edit e).find? other = if other = e.key then e.value? else store.find? other := by
  cases e with
  | set key text => exact OrderedMap.find?_insert ..
  | setList key items => exact OrderedMap.find?_insert ..
  | remove key => exact find?_remove store key other

/-- A key that gets a value keeps its place or comes last. -/
theorem keys_edit_of_value (store : PropertyStore) {e : Edit} {value : PropertyValue}
    (gives : e.value? = some value) : (store.edit e).keys =
      if e.key ∈ store.keys then store.keys else store.keys ++ [e.key] := by
  rw [keys_edit, Edit.keysAfter, gives, if_neg (by simp)]

theorem nodup_keys_edit (unique : store.keys.Nodup) (e : Edit) : (store.edit e).keys.Nodup := by
  cases e with
  | set key text => exact OrderedMap.nodup_keys_extend unique ..
  | setList key items => exact OrderedMap.nodup_keys_extend unique ..
  | remove key =>
    rw [edit, remove_eq]
    exact OrderedMap.nodup_keys_erase unique key

/-! ## Runs -/

theorem nodup_keys_editAll (unique : store.keys.Nodup) (edits : List Edit) :
    (store.editAll edits).keys.Nodup := by
  induction edits generalizing store with
  | nil => exact unique
  | cons e edits ih => exact ih (nodup_keys_edit unique e)

theorem nodup_keys_foldl_add (unique : store.keys.Nodup)
    (definitions : List PropertyFile.Definition) :
    (definitions.foldl (fun store d => store.add d.key { text := d.text, items := d.items })
      store).keys.Nodup := by
  induction definitions generalizing store with
  | nil => exact unique
  | cons d definitions ih => exact ih (OrderedMap.nodup_keys_extend unique ..)

/-- A file that defines a key again goes on with the value there is, and lists the key once. -/
theorem nodup_keys_parse {text : String} (parsed : parse text = .ok store) : store.keys.Nodup := by
  obtain ⟨definitions, _, built⟩ := bind_eq_ok.1 parsed
  cases built
  have none : (OrderedMap.empty : PropertyStore).keys.Nodup := List.nodup_nil
  exact nodup_keys_foldl_add none definitions

end PropertyStore

/-! ## Runs of a store in two parts -/

namespace SplitStore

open PropertyStore (Edit)

def edit (split : SplitStore) : Edit → SplitStore
  | .set key text => split.insert key { text, items := [text] }
  | .setList key items => split.insert key { text := ",".intercalate items, items }
  | .remove key => (split.remove key).2

def editAll (split : SplitStore) (edits : List Edit) : SplitStore := edits.foldl edit split

variable {split : SplitStore} {store : PropertyStore}

theorem Holds.edit (holds : split.Holds store) (e : Edit) :
    (split.edit e).Holds (store.edit e) := by
  cases e with
  | set key text => exact holds.insert key _
  | setList key items => exact holds.insert key _
  | remove key => exact (holds.remove key).2

theorem Holds.editAll (holds : split.Holds store) (edits : List Edit) :
    (split.editAll edits).Holds (store.editAll edits) := by
  induction edits generalizing split store with
  | nil => exact holds
  | cons e edits ih => exact ih (holds.edit e)

end SplitStore

namespace PropertyStore

/-- A store that is empty or read from a file, and edited from there on, is an ordered list of
    keys, each with its value.  No key is listed twice, and the keys listed are the keys known.
    A key that is set keeps its place, or comes last if it is new; a key that is removed is taken
    out of the list, and comes last when it is set again.  No edit touches another key.  A text
    that the store was read from is read into two parts as well; and a store in two parts that was
    read from the same text, or started empty too, has the same keys and values after all edits,
    and reports the same. -/
theorem ordered_of_editAll {start : PropertyStore}
    (origin : start = OrderedMap.empty ∨ ∃ text, parse text = .ok start) (edits : List Edit) :
    let store := start.editAll edits
    (store.keys.Nodup ∧ (∀ key, key ∈ store.keys ↔ store.config.contains key = true) ∧
      store.size = store.keys.length ∧ (store.isEmpty = true ↔ store.size = 0)) ∧
    (∀ e value, e.value? = some value →
      (store.edit e).find? e.key = some value ∧
      (e.key ∈ store.keys → (store.edit e).keys = store.keys) ∧
      (e.key ∉ store.keys → (store.edit e).keys = store.keys ++ [e.key])) ∧
    (∀ key, ((store.remove key).1 = true ↔ key ∈ store.keys) ∧
      (store.remove key).2.find? key = none ∧
      (store.remove key).2.keys = store.keys.filter (· ≠ key) ∧
      ∀ e value, e.key = key → e.value? = some value →
        ((store.remove key).2.edit e).keys = store.keys.filter (· ≠ key) ++ [key]) ∧
    (∀ e other, other ≠ e.key → (store.edit e).find? other = store.find? other ∧
      (store.edit e).config.raw? other = store.config.raw? other) ∧
    (∀ text, parse text = .ok start → ∃ split, SplitStore.parse text = .ok split) ∧
    ∀ split : SplitStore, split.SameOrigin start →
      split.Holds start ∧ (split.editAll edits).Holds store ∧
      ∀ key, ((split.editAll edits).remove key).1 = (store.remove key).1 := by
  intro store
  have unique : start.keys.Nodup := by
    rcases origin with rfl | ⟨text, parsed⟩
    · exact List.nodup_nil
    · exact nodup_keys_parse parsed
  refine ⟨⟨nodup_keys_editAll unique edits, fun key => ?_, ?_, ?_⟩, ?_, ?_, ?_,
    fun _ => SplitStore.exists_parse, ?_⟩
  · simp [← OrderedMap.contains_iff, Config.contains, config, raw?, OrderedMap.contains]
  · exact (OrderedMap.length_keys store).symm
  · rw [OrderedMap.isEmpty_iff, ← OrderedMap.length_keys, List.length_eq_zero_iff]
  · intro e value gives
    have kept := keys_edit_of_value store gives
    refine ⟨by rw [find?_edit, if_pos rfl, gives], fun there => ?_, fun fresh => ?_⟩
    · rw [kept, if_pos there]
    · rw [kept, if_neg fresh]
  · intro key
    refine ⟨?_, ?_, keys_remove store key, ?_⟩
    · rw [remove_eq, OrderedMap.contains_iff]
    · rw [find?_remove, if_pos rfl]
    · rintro e value rfl gives
      have gone : e.key ∉ store.keys.filter (· ≠ e.key) := by simp
      rw [keys_edit_of_value _ gives, keys_remove, if_neg gone]
  · intro e other apart
    have same : (store.edit e).find? other = store.find? other := by
      rw [find?_edit, if_neg apart]
    exact ⟨same, congrArg (Option.map PropertyValue.text) same⟩
  · intro split same
    have after := same.holds.editAll edits
    exact ⟨same.holds, after, fun key => (after.remove key).1⟩

/-- A file that defines one key twice. -/
def repeating : PropertyStore where
  entries := [("b", { text := "1,3", items := ["1", "3"] }), ("a", { text := "2", items := ["2"] })]

/-- The key that is defined twice is listed once; removed and set again, it comes last. -/
theorem ordered_of_editAll_repeating :
    parse "b = 1\na = 2\nb = 3" = .ok repeating ∧
    (repeating.editAll [.remove "b", .set "a" "4"]).keys.Nodup ∧
    ((repeating.editAll [.remove "b", .set "a" "4"]).edit (.setList "b" ["5", "6"])).keys =
      ["a", "b"] ∧
    ∃ split, SplitStore.parse "b = 1\na = 2\nb = 3" = .ok split ∧
      (split.editAll [.remove "b", .set "a" "4"]).order = ["a"] := by
  have parsed : parse "b = 1\na = 2\nb = 3" = .ok repeating := by decide +kernel
  obtain ⟨⟨unique, _⟩, set, _, _, inParts, together⟩ :=
    ordered_of_editAll (.inr ⟨_, parsed⟩) [.remove "b", .set "a" "4"]
  obtain ⟨_, _, last⟩ := set (.setList "b" ["5", "6"]) _ rfl
  obtain ⟨split, read⟩ := inParts _ parsed
  obtain ⟨_, after, _⟩ := together split (.read read parsed)
  exact ⟨parsed, unique, last (by decide), split, read, after.order⟩

end PropertyStore

end SegmentCatalog
