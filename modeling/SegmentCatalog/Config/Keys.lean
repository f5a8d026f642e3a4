/-! # Property names

The metadata of a segment is a flat mapping.  A property of a column is stored under the
column's name, a dot and the property's name; a property of the segment under a name of its
own.

* `columnKey` is the key of a column's property;
* `Property` lists the properties of columns, `SegmentKey` the keys of the segment;
* `BoundSide` tells the two bounds of a column apart.
-/

namespace SegmentCatalog

def columnKey (column property : String) : String := column ++ "." ++ property

inductive Property where
  | cardinality | totalDocs | dataType | bitsPerElement | dictionaryElementSize | columnType
  | isSorted | hasNullValue | hasDictionary | hasInvertedIndex | hasFSTIndex
  | isSingleValued | maxMultiValueElements | totalNumberOfEntries | isAutoGenerated
  | defaultNullValue | minValue | maxValue | partitionFunction | numPartitions
  | partitionValues | dateTimeFormat | dateTimeGranularity | textIndexType
  deriving DecidableEq

namespace Property

def name : Property → String
  | cardinality => "cardinality"
  | totalDocs => "totalDocs"
  | dataType => "dataType"
  | bitsPerElement => "bitsPerElement"
  | dictionaryElementSize => "dictionaryElementSize"
  | columnType => "columnType"
  | isSorted => "isSorted"
  | hasNullValue => "hasNullValue"
  | hasDictionary => "hasDictionary"
  | hasInvertedIndex => "hasInvertedIndex"
  | hasFSTIndex => "hasFSTIndex"
  | isSingleValued => "isSingleValued"
  | maxMultiValueElements => "maxMultiValueElements"
  | totalNumberOfEntries => "totalNumberOfEntries"
  | isAutoGenerated => "isAutoGenerated"
  | defaultNullValue => "defaultNullValue"
  | minValue => "minValue"
  | maxValue => "maxValue"
  | partitionFunction => "partitionFunction"
  | numPartitions => "numPartitions"
  | partitionValues => "partitionValues"
  | dateTimeFormat => "dateTimeFormat"
  | dateTimeGranularity => "dateTimeGranularity"
  | textIndexType => "textIndexType"

/-- The key under which `column` stores the property. -/
def key (property : Property) (column : String) : String := columnKey column property.name

end Property

/-- One of the two bounds of a column. -/
inductive BoundSide where
  | min | max
  deriving DecidableEq

namespace BoundSide

/-- The property that holds the bound. -/
def property : BoundSide → Property
  | min => .minValue
  | max => .maxValue

def other : BoundSide → BoundSide
  | min => max
  | max => min

end BoundSide

/-- The properties of a segment as a whole. -/
inductive SegmentKey where
  | timeUnit | paddingCharacter
  | dimensionColumns | metricColumns | timeColumn | dateTimeColumns
  deriving DecidableEq

namespace SegmentKey

def name : SegmentKey → String
  | timeUnit => "segment.time.unit"
  | paddingCharacter => "segment.padding.character"
  | dimensionColumns => "segment.dimension.column.names"
  | metricColumns => "segment.metric.column.names"
  | timeColumn => "segment.time.column.name"
  | dateTimeColumns => "segment.datetime.column.names"

/-- The keys that list columns, in the order in which a segment lists them. -/
def columnLists : List SegmentKey := [dimensionColumns, metricColumns, timeColumn, dateTimeColumns]

end SegmentKey

end SegmentCatalog
