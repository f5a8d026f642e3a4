import SegmentCatalog.Column.Basic

/-! # Column metadata as JSON

`Column.json` is the JSON object of a column, its fields in a fixed order.  Keywords are
written as their names, a partition function as the name of its strategy, and what is absent
as `null`; `Column.jsonText` is its text over several lines.
-/

namespace SegmentCatalog.Column

def json (c : Column) : Json :=
  let int (n : Int32) : Json := .ofInt n.toInt
  .object
    [("columnName", .string c.name),
      ("cardinality", int c.cardinality),
      ("totalDocs", int c.totalDocs),
      ("dataType", .string c.dataType.name),
      ("bitsPerElement", int c.bitsPerElement),
      ("columnMaxLength", int c.maxLength),
      ("fieldType", .string c.fieldType.name),
      ("isSorted", .bool c.isSorted),
      ("hasNulls", .bool c.hasNulls),
      ("hasDictionary", .bool c.hasDictionary),
      ("hasInvertedIndex", .bool c.hasInvertedIndex),
      ("hasFstIndex", .bool c.hasFSTIndex),
      ("isSingleValue", .bool c.isSingleValue),
      ("isAutoGenerated", .bool c.isAutoGenerated),
      ("isVirtual", .bool c.isVirtual),
      ("maxNumberOfMultiValues", int c.maxMultiValues),
      ("totalNumberOfEntries", int c.totalEntries),
      ("defaultNullValueString", .ofOption .string c.defaultNullValue),
      ("timeUnit", .string c.timeUnit.name),
      ("paddingCharacter", .string (.singleton c.padding)),
      ("minValue", .ofOption Scalar.json c.minValue),
      ("maxValue", .ofOption Scalar.json c.maxValue),
      ("partitionFunction", .ofOption (fun f => .string f.strategy.name) c.partitionFunction),
      ("numPartitions", int c.partitionCount),
      ("partitions", .array (c.partitions.map int)),
      ("dateTimeFormat", .ofOption .string c.dateTimeFormat),
      ("dateTimeGranularity", .ofOption .string c.dateTimeGranularity),
      ("textIndexType", .string c.textIndexType.name),
      ("fieldSpec", c.fieldSpec.json)]

def jsonText (c : Column) : String := c.json.pretty

end SegmentCatalog.Column
