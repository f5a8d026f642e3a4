import SegmentCatalog.Config.Keys
import SegmentCatalog.Proofs.PartitionEntries
import SegmentCatalog.Proofs.Validity.Checks
import SegmentCatalog.Scalar
import SegmentCatalog.Schema.FieldType
import SegmentCatalog.Schema.TextIndexType
import SegmentCatalog.Schema.TimeUnit

/-! # Conditions on the configuration of a column

What a configuration has to hold for a column, and what is reported of that which is not so.  Most
conditions are about one key, those on bounds and partitions about several.

`Column.conditions` lists them in their order: those of `Column.readConditions`, and the one on the
kind of text index at the end.
-/

namespace SegmentCatalog

namespace Scalar

/-- The types that bounds may have. -/
def types : List DataType := [.int, .long, .float, .double, .string, .bytes]

/-- What a text is refused with, read for a type that bounds may have. -/
def refusal (type : DataType) (key text : String) : DecodeError :=
  if type = .bytes then .malformedHex key text else .malformedNumber key text

end Scalar

namespace Column

variable (config : Config) (column : String)

/-! ## Conditions on more than one key -/

/-- The data type of the column is known, and its values are stored as `type`. -/
def StoresAs (type : DataType) : Prop :=
  ∃ (text : String) (t : DataType),
    config.text? (Property.dataType.key column) = some text ∧
    (Vocabulary.name t).toList = Text.upper (Text.trim text.toList) ∧ t.stored = type

/-- The padding character is absent, or is spelt by a text of at least one character. -/
def paddingSpelt : Condition where
  holds := config.contains SegmentKey.paddingCharacter.name = true →
    ∃ c cs, Text.unescape? (config.textOr SegmentKey.paddingCharacter.name "").toList =
      some (c :: cs)
  reports e := match Text.unescape? (config.textOr SegmentKey.paddingCharacter.name "").toList with
    | none => e = .invalidEscape (config.textOr SegmentKey.paddingCharacter.name "")
    | some _ => e = .emptyPadding (config.textOr SegmentKey.paddingCharacter.name "")

/-- Either both bounds are recorded, or none is. -/
def boundsPaired : Condition where
  holds := ∀ side : BoundSide, config.contains (side.property.key column) = true →
    config.contains (side.other.property.key column) = true
  reports e := ∃ side : BoundSide, config.contains (side.property.key column) = true ∧
    config.contains (side.other.property.key column) = false ∧ e = .mismatchedBounds column side

/-- If bounds are recorded, the stored type is one that bounds may have. -/
def boundsSupported : Condition where
  holds := ∀ (side : BoundSide) (type : DataType), StoresAs config column type →
    config.contains (side.property.key column) = true → type ∈ Scalar.types
  reports e := ∃ type, StoresAs config column type ∧ e = .unsupportedBounds column type

/-- If the bound is recorded, it is a value of the stored type. -/
def boundReadable (side : BoundSide) : Condition where
  holds := ∀ type text, StoresAs config column type →
    config.raw? (side.property.key column) = some text →
    ∃ x, Scalar.parse type column side.property.name text = .ok x
  reports e := ∃ type text, StoresAs config column type ∧
    config.raw? (side.property.key column) = some text ∧
    e = Scalar.refusal type (side.property.key column) text

/-- A partition function is named. -/
def Partitioned : Prop := config.text? (Property.partitionFunction.key column) ≠ none

/-- The number of partitions is `n`. -/
def Counts (n : Int32) : Prop :=
  ∃ text, config.text? (Property.numPartitions.key column) = some text ∧
    Decimal.Spells (Text.trim text.toList) n.toInt

/-- If a partition function is named, the number of partitions is there, a number of 32 bits. -/
def countPresent : Condition where
  holds := Partitioned config column →
    (Kind.integer.required config (Property.numPartitions.key column)).holds
  reports := (Kind.integer.required config (Property.numPartitions.key column)).reports

/-- If a partition function is named, the number of partitions is positive. -/
def countPositive : Condition where
  holds := Partitioned config column → ∀ n, Counts config column n → 0 < n.toInt
  reports e := ∃ n, Counts config column n ∧ e = .invalidPartitionCount n

/-- If a partition function is named, the name is that of a strategy. -/
def functionKnown : Condition where
  holds := ∀ name, config.text? (Property.partitionFunction.key column) = some name →
    ∃ s : PartitionStrategy, Text.SameLetters (Text.trim name.toList) s.name.toList
  reports e := ∃ name, config.text? (Property.partitionFunction.key column) = some name ∧
    e = .unknownPartitionFunction name

/-- If a partition function is named, all entries of the list of partitions are well formed; the
    first that is not is reported. -/
def entriesWellFormed : Condition where
  holds := Partitioned config column →
    ∀ value ∈ config.list (Property.partitionValues.key column),
      PartitionEntry.WellFormed (Text.trim value.toList)
  reports e := ∃ before value after,
    config.list (Property.partitionValues.key column) = before ++ value :: after ∧
    (∀ earlier ∈ before, PartitionEntry.WellFormed (Text.trim earlier.toList)) ∧
    ¬ PartitionEntry.WellFormed (Text.trim value.toList) ∧
    e = .malformedPartitionValue (Text.trimmed value)

/-! ## All conditions -/

/-- What is asked of the properties that are read one after the other. -/
def readConditions : List Condition :=
  let key (p : Property) := p.key column
  [ (Kind.keyword DataType).required config (key .dataType),
    (Kind.keyword FieldType).required config (key .columnType),
    (Kind.keyword TimeUnit).optional config SegmentKey.timeUnit.name,
    Kind.integer.required config (key .cardinality),
    Kind.integer.required config (key .totalDocs),
    Kind.integer.required config (key .bitsPerElement),
    Kind.integer.required config (key .dictionaryElementSize),
    Kind.truth.required config (key .isSorted),
    Kind.truth.required config (key .hasNullValue),
    Kind.truth.optional config (key .hasDictionary),
    Kind.truth.required config (key .hasInvertedIndex),
    Kind.truth.optional config (key .hasFSTIndex),
    Kind.truth.required config (key .isSingleValued),
    Kind.integer.required config (key .maxMultiValueElements),
    Kind.integer.required config (key .totalNumberOfEntries),
    Kind.truth.optional config (key .isAutoGenerated),
    paddingSpelt config,
    boundsPaired config column,
    boundsSupported config column,
    boundReadable config column .min,
    boundReadable config column .max,
    countPresent config column,
    countPositive config column,
    functionKnown config column,
    entriesWellFormed config column ]

/-- The kind of text index is looked at last, when the column is built. -/
def conditions : List Condition :=
  readConditions config column ++
    [(Kind.keyword TextIndexType).optional config (Property.textIndexType.key column)]

end Column

end SegmentCatalog
