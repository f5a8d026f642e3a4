import Mathlib.Data.List.Basic
import SegmentCatalog.Config.PropertyStore
import SegmentCatalog.Proofs.Decoding

/-! # Stores in two parts

A store can be kept in two parts, a list of its keys in their order and a table of the values by
key (`SplitStore`).  Every change then has to be made twice: a key enters the list when it enters
the table, and leaves it when it leaves the table.

`SplitStore.Holds` says that the two parts are in step and hold a given store.  They do when both
are empty or have been read from the same text (`SameOrigin.holds`), and every change keeps it so
(`Holds.insert`, `Holds.append`, `Holds.remove`).
-/

namespace SegmentCatalog

structure SplitStore where
  order : List String
  table : Std.HashMap String PropertyValue

namespace SplitStore

def empty : SplitStore := ⟨[], ∅⟩

def insert (split : SplitStore) (key : String) (value : PropertyValue) : SplitStore where
  order := if split.table.contains key then split.order else split.order ++ [key]
  table := split.table.insert key value

/-- Goes on with the value of a key that is there, in its place. -/
def append (split : SplitStore) (key : String) (value : PropertyValue) : SplitStore :=
  match split.table[key]? with
  | some old =>
    { split with
      table := split.table.insert key
        { text := old.text ++ "," ++ value.text, items := old.items ++ value.items } }
  | none => split.insert key value

def remove (split : SplitStore) (key : String) : Bool × SplitStore :=
  if split.table.contains key then
    (true, { order := split.order.filter (· ≠ key), table := split.table.erase key })
  else (false, split)

/-- Reads the text of a properties file into both parts. -/
def parse (text : String) : Except DecodeError SplitStore := do
  let definitions ← PropertyFile.definitions text
  return definitions.foldl
    (fun split d => split.append d.key { text := d.text, items := d.items }) empty

/-- The list has the keys of a store in their order, the table has their values. -/
structure Holds (split : SplitStore) (store : PropertyStore) : Prop where
  order : split.order = store.keys
  table : ∀ key, split.table[key]? = store.find? key

variable {split : SplitStore} {store : PropertyStore}

theorem holds_empty : empty.Holds OrderedMap.empty where
  order := rfl
  table _ := Std.HashMap.getElem?_empty

namespace Holds

theorem contains (holds : split.Holds store) (key : String) :
    split.table.contains key = store.contains key := by
  rw [← Std.HashMap.isSome_getElem?_eq_contains, holds.table, OrderedMap.contains]

theorem getElem?_insert (holds : split.Holds store) (key : String) (value : PropertyValue)
    (other : String) :
    (split.table.insert key value)[other]? = (store.insert key value).find? other := by
  simp only [Std.HashMap.getElem?_insert, holds.table, OrderedMap.find?_insert, beq_iff_eq,
    eq_comm (a := other)]

theorem insert (holds : split.Holds store) (key : String) (value : PropertyValue) :
    (split.insert key value).Holds (store.insert key value) where
  order := by
    simp only [SplitStore.insert, holds.contains, holds.order, OrderedMap.contains_iff,
      OrderedMap.keys_insert]
  table := holds.getElem?_insert key value

theorem append (holds : split.Holds store) (key : String) (value : PropertyValue) :
    (split.append key value).Holds (store.add key value) := by
  rw [SplitStore.append]
  cases found : split.table[key]? with
  | some old =>
    have there : store.find? key = some old := holds.table key ▸ found
    have present : key ∈ store.keys := by
      rw [← OrderedMap.contains_iff, OrderedMap.contains, there, Option.isSome_some]
    have same : store.add key value = store.insert key
        { text := old.text ++ "," ++ value.text, items := old.items ++ value.items } := by
      apply OrderedMap.extend_congr
      rw [there]
    rw [same]
    refine ⟨?_, holds.getElem?_insert key _⟩
    rw [OrderedMap.keys_insert, if_pos present]
    exact holds.order
  | none =>
    have same : store.add key value = store.insert key value := by
      apply OrderedMap.extend_congr
      rw [← holds.table key, found]
    rw [same]
    exact holds.insert key value

/-- Both report the same, and both are rid of the key. -/
theorem remove (holds : split.Holds store) (key : String) :
    (split.remove key).1 = (store.remove key).1 ∧
    (split.remove key).2.Holds (store.remove key).2 := by
  rw [SplitStore.remove, PropertyStore.remove, holds.contains key]
  cases store.contains key with
  | false => exact ⟨rfl, holds⟩
  | true =>
    refine ⟨rfl, ?_, fun other => ?_⟩
    · show split.order.filter (· ≠ key) = (store.erase key).keys
      rw [holds.order, OrderedMap.keys_erase]
    · show (split.table.erase key)[other]? = (store.erase key).find? other
      simp only [Std.HashMap.getElem?_erase, holds.table, OrderedMap.find?_erase, beq_iff_eq,
        eq_comm (a := other)]

theorem foldl_append (holds : split.Holds store) (definitions : List PropertyFile.Definition) :
    (definitions.foldl (fun split d => split.append d.key { text := d.text, items := d.items })
      split).Holds
      (definitions.foldl (fun store d => store.add d.key { text := d.text, items := d.items })
        store) := by
  induction definitions generalizing split store with
  | nil => exact holds
  | cons d definitions ih => exact ih (holds.append ..)

end Holds

/-- A store in two parts has the same origin as a store if both are empty, or both have been read
    from one text. -/
inductive SameOrigin : SplitStore → PropertyStore → Prop
  | empty : SameOrigin empty OrderedMap.empty
  | read {text : String} {split : SplitStore} {store : PropertyStore}
      (inParts : parse text = .ok split) (whole : PropertyStore.parse text = .ok store) :
      SameOrigin split store

/-- A text that is read as a store is read into two parts as well. -/
theorem exists_parse {text : String} (whole : PropertyStore.parse text = .ok store) :
    ∃ split, parse text = .ok split := by
  obtain ⟨definitions, read, _⟩ := bind_eq_ok.1 whole
  exact ⟨_, bind_eq_ok.2 ⟨definitions, read, rfl⟩⟩

theorem SameOrigin.holds (origin : split.SameOrigin store) : split.Holds store := by
  cases origin with
  | empty => exact holds_empty
  | read inParts whole =>
    -- one text has one row of definitions, and both stores take it in from the start
    obtain ⟨definitions, read, built⟩ := bind_eq_ok.1 inParts
    obtain ⟨definitions', read', built'⟩ := bind_eq_ok.1 whole
    rw [read, Except.ok.injEq] at read'
    subst read'
    cases built
    cases built'
    exact holds_empty.foldl_append definitions

end SplitStore

end SegmentCatalog
