import SegmentCatalog.Schema.Vocabulary

/-! # Roles of columns

A column is a dimension to group and filter by, a metric to aggregate, the time column, or
a date-time column with a format of its own.
-/

namespace SegmentCatalog

inductive FieldType where
  | dimension | metric | time | dateTime
  deriving DecidableEq

namespace FieldType

def all : List FieldType := [.dimension, .metric, .time, .dateTime]

def name : FieldType → String
  | .dimension => "DIMENSION"
  | .metric => "METRIC"
  | .time => "TIME"
  | .dateTime => "DATE_TIME"

def label : FieldType → String
  | .dimension => "Dimension"
  | .metric => "Metric"
  | .time => "Time"
  | .dateTime => "DateTime"

instance : Vocabulary FieldType where
  kind := "field type"
  all := all
  name := name
  label := label
  mem_all := fun t => by cases t <;> decide
  name_injective := fun s t h => by cases s <;> cases t <;> first | rfl | exact absurd h (by decide)
  upper_name := fun t => by cases t <;> rfl

end FieldType

end SegmentCatalog
