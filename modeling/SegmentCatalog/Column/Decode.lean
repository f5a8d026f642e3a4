import SegmentCatalog.Column.Draft
import SegmentCatalog.Config.Basic

/-! # Reading the metadata of a column

`Column.decode` reads every property of one column from a configuration, in a fixed order,
and stops at the first that is absent or refused:

1. the attributes that are numbers, truth values, keywords and plain texts;
2. the padding character, which belongs to the segment (`decodePadding`);
3. the bounds, read as the stored data type asks (`decodeBounds`);
4. the partition function, its count and the partitions held (`decodePartitioning`);
5. what only a finished draft can tell (`ColumnDraft.build`).

Bounds are taken as stored, so that a bound may look like a reference; every other value has
its references replaced.
-/

namespace SegmentCatalog.Column

/-- The character strings are padded with: the first one that the stored text spells. -/
def decodePadding (config : Config) : Except DecodeError Char :=
  let key := SegmentKey.paddingCharacter.name
  if config.contains key then do
    let raw := config.textOr key ""
    let text ← Literal.unescaped raw
    match text.toList with
    | c :: _ => return c
    | [] => throw (.emptyPadding raw)
  else return defaultPadding

/-- The bounds of a column: both or none. -/
def decodeBounds (config : Config) (column : String) (type : DataType) :
    Except DecodeError (Option (Scalar × Scalar)) :=
  let raw (side : BoundSide) := config.raw? (side.property.key column)
  let read (side : BoundSide) := Scalar.parse type column side.property.name
  match raw .min, raw .max with
  | some min, some max => do
    let min ← read .min min
    let max ← read .max max
    return some (min, max)
  | some _, none => throw (.mismatchedBounds column .min)
  | none, some _ => throw (.mismatchedBounds column .max)
  | none, none => return none

/-- How the rows of a column are partitioned, and which partitions are held. -/
structure Partitioning where
  function : PartitionFunction
  count : Int32
  ids : PartitionIds
  deriving DecidableEq

/-- The partitioning of a column; without a partition function there is none. -/
def decodePartitioning (config : Config) (column : String) :
    Except DecodeError (Option Partitioning) :=
  match config.text? (Property.partitionFunction.key column) with
  | none => return none
  | some name => do
    let count ← config.int (Property.numPartitions.key column)
    let function ← PartitionFunction.resolve name count
    let ids ← PartitionIds.parse (config.list (Property.partitionValues.key column))
    return some { function, count, ids }

/-- A keyword under a key that has to be present. -/
def decodeMember (α : Type) [Vocabulary α] (config : Config) (key : String) :
    Except DecodeError α :=
  config.required key >>= Literal.member α

def decode (config : Config) (name : String) : Except DecodeError Column := do
  let key (p : Property) := p.key name
  let dataType ← decodeMember DataType config (key .dataType)
  let fieldType ← decodeMember FieldType config (key .columnType)
  let timeUnit ←
    Literal.member TimeUnit (config.textOr SegmentKey.timeUnit.name TimeUnit.default.name)
  let cardinality ← config.int (key .cardinality)
  let totalDocs ← config.int (key .totalDocs)
  let bitsPerElement ← config.int (key .bitsPerElement)
  let maxLength ← config.int (key .dictionaryElementSize)
  let isSorted ← config.boolean (key .isSorted)
  let hasNulls ← config.boolean (key .hasNullValue)
  let hasDictionary ← config.booleanOr (key .hasDictionary) true
  let hasInvertedIndex ← config.boolean (key .hasInvertedIndex)
  let hasFSTIndex ← config.booleanOr (key .hasFSTIndex) false
  let isSingleValue ← config.boolean (key .isSingleValued)
  let maxMultiValues ← config.int (key .maxMultiValueElements)
  let totalEntries ← config.int (key .totalNumberOfEntries)
  let isAutoGenerated ← config.booleanOr (key .isAutoGenerated) false
  let padding ← decodePadding config
  let bounds ← decodeBounds config name dataType.stored
  let partitioning ← decodePartitioning config name
  ColumnDraft.build
    { name, cardinality, totalDocs, bitsPerElement, maxLength, isSorted, hasNulls
      hasDictionary, hasInvertedIndex, hasFSTIndex, isSingleValue, isAutoGenerated
      maxMultiValues, totalEntries, timeUnit, padding
      dataType := some dataType.stored
      fieldType := some fieldType
      defaultNullValue := config.text? (key .defaultNullValue)
      minValue := bounds.map Prod.fst
      maxValue := bounds.map Prod.snd
      partitionFunction := partitioning.map Partitioning.function
      partitionCount := partitioning.elim 0 Partitioning.count
      partitions := partitioning.elim [] Partitioning.ids
      dateTimeFormat := config.text? (key .dateTimeFormat)
      dateTimeGranularity := config.text? (key .dateTimeGranularity)
      textIndexType := config.textOr (key .textIndexType) TextIndexType.default.name }

end SegmentCatalog.Column
