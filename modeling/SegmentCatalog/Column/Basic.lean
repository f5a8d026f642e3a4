import SegmentCatalog.FieldSpec
import SegmentCatalog.Partition.Function
import SegmentCatalog.Partition.Ids
import SegmentCatalog.Scalar
import SegmentCatalog.Schema.TextIndexType

/-! # Columns

A `Column` is the metadata of one column of a segment: how its values are encoded, which
indexes exist, the range of its values and how its rows are partitioned.

* `Column.boundsOrder` compares its bounds;
* `Column.isVerified` says that the bounds, if there are any, are in order;
* `==` compares columns field by field, bounds by the equality of `Scalar`.
-/

namespace SegmentCatalog

/-- Stands for the number of distinct values where it is not known. -/
def unknownCardinality : Int32 := Int32.minValue

/-- The padding character of segments that record none. -/
def defaultPadding : Char := '%'

structure Column where
  name : String
  cardinality : Int32
  totalDocs : Int32
  /-- The stored type. -/
  dataType : DataType
  bitsPerElement : Int32
  maxLength : Int32
  fieldType : FieldType
  isSorted : Bool
  hasNulls : Bool
  hasDictionary : Bool
  hasInvertedIndex : Bool
  hasFSTIndex : Bool
  isSingleValue : Bool
  isAutoGenerated : Bool
  isVirtual : Bool
  maxMultiValues : Int32
  totalEntries : Int32
  defaultNullValue : Option String
  timeUnit : TimeUnit
  padding : Char
  minValue : Option Scalar
  maxValue : Option Scalar
  partitionFunction : Option PartitionFunction
  partitionCount : Int32
  partitions : PartitionIds
  dateTimeFormat : Option String
  dateTimeGranularity : Option String
  textIndexType : TextIndexType
  fieldSpec : FieldSpec
  deriving BEq

namespace Column

variable (c : Column)

def hasUnknownCardinality : Bool := c.cardinality == unknownCardinality

/-- The order of the bounds, if both are present and can be compared. -/
def boundsOrder : Option Ordering :=
  match c.minValue, c.maxValue with
  | some min, some max => min.compare? max
  | _, _ => none

/-- Whether the bounds, if both are present, can be compared and are in order. -/
def isVerified : Bool :=
  match c.minValue, c.maxValue with
  | some min, some max =>
    match min.compare? max with
    | some order => order.isLE
    | none => false
  | _, _ => true

end Column

end SegmentCatalog
