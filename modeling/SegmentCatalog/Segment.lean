import SegmentCatalog.Column.Decode
import SegmentCatalog.Config.PropertyStore

/-! # Segments

A segment lists the names of its columns by role; a `Segment` holds the metadata of each, in
the order of the lists.

* `Segment.names` are the names that a configuration lists, each once;
* `Segment.decode` reads them all, or fails with the error of the first that fails;
* `Segment.load` reads a properties file, `Segment.find?` looks a column up by name.
-/

namespace SegmentCatalog

structure Segment where
  columns : List Column

namespace Segment

/-- The names of the columns that a configuration lists, empty ones apart, where they first
    occur. -/
def names (config : Config) : List String :=
  let listed := SegmentKey.columnLists.flatMap fun key => config.list key.name
  (listed.filter (· ≠ "")).eraseDups

def decode (config : Config) : Except DecodeError Segment := do
  let columns ← (names config).mapM (Column.decode config)
  return { columns }

/-- The segment that a properties file describes, `none` standing for a file that is not
    there. -/
def load (file : Option ByteArray) : Except DecodeError Segment := do
  let store ← PropertyStore.load file
  decode store.config

variable (segment : Segment)

def columnNames : List String := segment.columns.map Column.name

def size : Nat := segment.columns.length

def find? (name : String) : Option Column := segment.columns.find? fun c => c.name == name

end Segment

end SegmentCatalog
