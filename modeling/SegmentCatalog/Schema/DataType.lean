import SegmentCatalog.Schema.Vocabulary

/-! # Data types of columns

* `DataType` is the logical type of a column's values;
* `DataType.stored` is the physical type they are kept as.

Booleans are kept as `int`, timestamps as `long`, JSON texts as `string`; every other type
is its own stored type, so storing twice changes nothing (`stored_stored`).
-/

namespace SegmentCatalog

inductive DataType where
  | int | long | float | double | boolean | timestamp | string | json | bytes
  | struct | map | list
  deriving DecidableEq

namespace DataType

def all : List DataType :=
  [.int, .long, .float, .double, .boolean, .timestamp, .string, .json, .bytes, .struct, .map, .list]

def name : DataType → String
  | .int => "INT"
  | .long => "LONG"
  | .float => "FLOAT"
  | .double => "DOUBLE"
  | .boolean => "BOOLEAN"
  | .timestamp => "TIMESTAMP"
  | .string => "STRING"
  | .json => "JSON"
  | .bytes => "BYTES"
  | .struct => "STRUCT"
  | .map => "MAP"
  | .list => "LIST"

def label : DataType → String
  | .int => "Int"
  | .long => "Long"
  | .float => "Float"
  | .double => "Double"
  | .boolean => "Boolean"
  | .timestamp => "Timestamp"
  | .string => "String"
  | .json => "Json"
  | .bytes => "Bytes"
  | .struct => "Struct"
  | .map => "Map"
  | .list => "List"

instance : Vocabulary DataType where
  kind := "data type"
  all := all
  name := name
  label := label
  mem_all := fun t => by cases t <;> decide
  name_injective := fun s t h => by cases s <;> cases t <;> first | rfl | exact absurd h (by decide)
  upper_name := fun t => by cases t <;> rfl

/-- The physical type that values of a logical type are stored as. -/
def stored : DataType → DataType
  | .boolean => .int
  | .timestamp => .long
  | .json => .string
  | t => t

@[simp] theorem stored_stored (t : DataType) : t.stored.stored = t.stored := by cases t <;> rfl

end DataType

end SegmentCatalog
