import SegmentCatalog.Config.Basic
import SegmentCatalog.Config.OrderedMap
import SegmentCatalog.Config.PropertyFile
import SegmentCatalog.Config.Reference

/-! # The two stores

A configuration is held either in a `PropertyStore`, which a properties file is read into and
which follows references, or in a `PlainMap` of texts, which takes every value as it is.

* `PropertyStore.set` and `PropertyStore.setList` define a key anew, `PropertyStore.add`
  joins a value to the one already there, `PropertyStore.remove` takes a key away;
* `PropertyStore.parse` reads the text of a file, `PropertyStore.load` the file itself;
* `PropertyStore.config` and `PlainMap.config` are the two as configurations.
-/

namespace SegmentCatalog

structure PropertyValue where
  text : String
  items : List String
  deriving DecidableEq

abbrev PropertyStore := OrderedMap PropertyValue

namespace PropertyStore

/-- Makes `text` the value of `key`, with itself as the one item. -/
def set (store : PropertyStore) (key text : String) : PropertyStore :=
  store.insert key { text, items := [text] }

/-- Makes a list the value of `key`; its text joins the items by commas. -/
def setList (store : PropertyStore) (key : String) (items : List String) : PropertyStore :=
  store.insert key { text := ",".intercalate items, items }

/-- Adds a value to that of `key`: the texts are joined by a comma, the items appended. -/
def add (store : PropertyStore) (key : String) (value : PropertyValue) : PropertyStore :=
  store.extend key fun
    | none => value
    | some old => { text := old.text ++ "," ++ value.text, items := old.items ++ value.items }

/-- Takes a key away, and says whether it was there. -/
def remove (store : PropertyStore) (key : String) : Bool × PropertyStore :=
  if store.contains key then (true, store.erase key) else (false, store)

/-- Reads the text of a properties file.  A key that is defined again goes on with its list. -/
def parse (text : String) : Except DecodeError PropertyStore := do
  let definitions ← PropertyFile.definitions text
  return definitions.foldl
    (fun store d => store.add d.key { text := d.text, items := d.items }) OrderedMap.empty

/-- Reads the contents of a properties file, `none` standing for a file that is not there. -/
def load : Option ByteArray → Except DecodeError PropertyStore
  | none => throw (.unreadable .notFound)
  | some bytes =>
    match String.fromUTF8? bytes with
    | some text => parse text
    | none => throw (.unreadable .notText)

def raw? (store : PropertyStore) (key : String) : Option String :=
  (store.find? key).map PropertyValue.text

theorem raw?_set (store : PropertyStore) (key text other : String) :
    (store.set key text).raw? other = if other = key then some text else store.raw? other := by
  rw [raw?, set, OrderedMap.find?_insert]
  split
  · rfl
  · rfl

/-- The value of a key with its references replaced. -/
def text? (store : PropertyStore) (key : String) : Option String :=
  (store.raw? key).map (Lookup.interpolate store.raw? key)

/-- The items of a key, each with its references replaced. -/
def list (store : PropertyStore) (key : String) : List String :=
  match store.find? key with
  | some value => value.items.map (Lookup.interpolate store.raw? key)
  | none => []

def config (store : PropertyStore) : Config where
  raw? := store.raw?
  text? := store.text?
  list := store.list

end PropertyStore

abbrev PlainMap := OrderedMap String

namespace PlainMap

/-- The parts of the value of a key between its commas, without white space around them. -/
def list (m : PlainMap) (key : String) : List String :=
  match m.find? key with
  | some value =>
    (Text.cutAt (· == ',') value.toList).map fun part => String.ofList (Text.trim part)
  | none => []

def config (m : PlainMap) : Config where
  raw? := m.find?
  text? := m.find?
  list := m.list

end PlainMap

end SegmentCatalog
