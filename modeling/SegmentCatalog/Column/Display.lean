import SegmentCatalog.Column.Basic

/-! # Column metadata as text

`Column.display` writes a column for a reader, one attribute per line in a fixed order.
A bound of another type than the column's is shown as an error mark in its place, and what is
absent as `null`.
-/

namespace SegmentCatalog.Column

def showOr (value : Option String) : String := value.getD "null"

/-- A bound, unless it is of another type than the column stores. -/
def showBound (type : DataType) : Option Scalar → String
  | none => "null"
  | some x => if x.dataType = type then x.display else "[ERROR]"

def showPartitions (ids : PartitionIds) : String :=
  "\x7b" ++ ", ".intercalate (ids.map fun id => Decimal.text id.toInt) ++ "\x7d"

/-- The attributes by name, in the order in which they are shown. -/
def attributes (c : Column) : List (String × String) :=
  [("columnName", c.name),
    ("cardinality", Decimal.text c.cardinality.toInt),
    ("totalDocs", Decimal.text c.totalDocs.toInt),
    ("dataType", c.dataType.name),
    ("bitsPerElement", Decimal.text c.bitsPerElement.toInt),
    ("columnMaxLength", Decimal.text c.maxLength.toInt),
    ("fieldType", c.fieldType.name),
    ("isSorted", Text.ofBool c.isSorted),
    ("hasNulls", Text.ofBool c.hasNulls),
    ("hasDictionary", Text.ofBool c.hasDictionary),
    ("hasInvertedIndex", Text.ofBool c.hasInvertedIndex),
    ("hasFSTIndex", Text.ofBool c.hasFSTIndex),
    ("isSingleValue", Text.ofBool c.isSingleValue),
    ("isAutoGenerated", Text.ofBool c.isAutoGenerated),
    ("isVirtual", Text.ofBool c.isVirtual),
    ("maxNumberOfMultiValues", Decimal.text c.maxMultiValues.toInt),
    ("totalNumberOfEntries", Decimal.text c.totalEntries.toInt),
    ("defaultNullValueString", showOr c.defaultNullValue),
    ("timeUnit", c.timeUnit.name),
    ("paddingCharacter", Text.quoteChar c.padding),
    ("minValue", showBound c.dataType c.minValue),
    ("maxValue", showBound c.dataType c.maxValue),
    ("partitionFunction", showOr (c.partitionFunction.map fun f => f.strategy.name)),
    ("numPartitions", Decimal.text c.partitionCount.toInt),
    ("partitions", showPartitions c.partitions),
    ("dateTimeFormat", showOr c.dateTimeFormat),
    ("dateTimeGranularity", showOr c.dateTimeGranularity),
    ("textIndexType", c.textIndexType.name),
    ("fieldSpec", c.fieldSpec.diagnostic)]

def attributeLine : String × String → String
  | (name, shown) => "  " ++ name ++ ": " ++ shown ++ "\n"

/-- The text for a reader, without a line end behind the last brace. -/
def display (c : Column) : String :=
  "ColumnMetadata \x7b\n" ++ String.join (c.attributes.map attributeLine) ++ "\x7d"

end SegmentCatalog.Column
