import SegmentCatalog.Column.Decode
import SegmentCatalog.Config.PropertyStore

/-! # What a decoded column was read from

`Column.decode` runs through some twenty steps, each of which may fail.  `Column.Decodes` says
of a finished column which property each of its attributes was read from, and
`Column.decode_eq_ok_iff` that decoding succeeds with a column exactly when this is so.  Facts
about decoded columns are read off the fields of `Column.Decodes`, without going through the
steps again; and a column is shown to be the outcome of decoding one field at a time.

The two steps with an outcome that may be absent have such statements of their own:
`Column.decodeBounds_eq_some_iff`, `Column.decodePartitioning_eq_some_iff` and the likes.
-/

namespace SegmentCatalog

theorem bind_eq_ok {ε α β : Type} {x : Except ε α} {f : α → Except ε β} {b : β} :
    (x >>= f) = .ok b ↔ ∃ a, x = .ok a ∧ f a = .ok b := by
  cases x <;> simp [bind, Except.bind]

namespace ColumnDraft

/-- A draft becomes a column when its text index type is known and its two types are set. -/
theorem build_eq_ok_iff {draft : ColumnDraft} {c : Column} :
    draft.build = .ok c ↔ ∃ textIndexType dataType fieldType,
      Literal.member TextIndexType draft.textIndexType = .ok textIndexType ∧
      draft.dataType = some dataType ∧ draft.fieldType = some fieldType ∧
      c = { draft with
        dataType, fieldType, textIndexType
        fieldSpec := FieldSpec.ofRole fieldType draft.name dataType draft.isSingleValue
          draft.timeUnit draft.dateTimeFormat draft.dateTimeGranularity } := by
  rw [build]
  simp only [bind_eq_ok]
  constructor
  · rintro ⟨textIndexType, named, built⟩
    cases typed : draft.dataType with
    | none => rw [typed] at built; cases built
    | some dataType =>
      cases roled : draft.fieldType with
      | none => rw [typed, roled] at built; cases built
      | some fieldType =>
        rw [typed, roled] at built
        cases built
        exact ⟨textIndexType, dataType, fieldType, named, rfl, rfl, by simp⟩
  · rintro ⟨textIndexType, dataType, fieldType, named, typed, roled, rfl⟩
    refine ⟨textIndexType, named, ?_⟩
    rw [typed, roled]
    simp [pure, Except.pure]

end ColumnDraft

namespace Column

variable {config : Config} {column : String} {c : Column}

/-! ## Bounds and partitionings -/

theorem decodeBounds_eq_none_iff {type : DataType} :
    decodeBounds config column type = .ok none ↔
      config.raw? (Property.minValue.key column) = none ∧
      config.raw? (Property.maxValue.key column) = none := by
  simp only [decodeBounds, BoundSide.property]
  constructor
  · intro read
    split at read
    · simp only [bind_eq_ok] at read
      obtain ⟨_, _, _, _, same⟩ := read
      cases same
    · cases read
    · cases read
    · exact ⟨‹_›, ‹_›⟩
  · rintro ⟨noMin, noMax⟩
    rw [noMin, noMax]
    rfl

theorem decodeBounds_eq_some_iff {type : DataType} {min max : Scalar} :
    decodeBounds config column type = .ok (some (min, max)) ↔ ∃ low high,
      config.raw? (Property.minValue.key column) = some low ∧
      config.raw? (Property.maxValue.key column) = some high ∧
      Scalar.parse type column Property.minValue.name low = .ok min ∧
      Scalar.parse type column Property.maxValue.name high = .ok max := by
  simp only [decodeBounds, BoundSide.property]
  constructor
  · intro read
    split at read
    · rename_i low high isLow isHigh
      simp only [bind_eq_ok] at read
      obtain ⟨_, readLow, _, readHigh, same⟩ := read
      cases same
      exact ⟨low, high, isLow, isHigh, readLow, readHigh⟩
    · cases read
    · cases read
    · cases read
  · rintro ⟨low, high, isLow, isHigh, readLow, readHigh⟩
    simp only [isLow, isHigh, bind_eq_ok]
    exact ⟨_, readLow, _, readHigh, rfl⟩

theorem decodePartitioning_eq_none_iff :
    decodePartitioning config column = .ok none ↔
      config.text? (Property.partitionFunction.key column) = none := by
  rw [decodePartitioning]
  constructor
  · intro read
    cases named : config.text? (Property.partitionFunction.key column) with
    | none => rfl
    | some name =>
      simp only [named, bind_eq_ok] at read
      obtain ⟨_, _, _, _, _, _, same⟩ := read
      cases same
  · intro absent
    rw [absent]
    rfl

theorem decodePartitioning_eq_some_iff {p : Partitioning} :
    decodePartitioning config column = .ok (some p) ↔ ∃ name,
      config.text? (Property.partitionFunction.key column) = some name ∧
      config.int (Property.numPartitions.key column) = .ok p.count ∧
      PartitionFunction.resolve name p.count = .ok p.function ∧
      PartitionIds.parse (config.list (Property.partitionValues.key column)) = .ok p.ids := by
  rw [decodePartitioning]
  constructor
  · intro read
    cases named : config.text? (Property.partitionFunction.key column) with
    | none => rw [named] at read; cases read
    | some name =>
      simp only [named, bind_eq_ok] at read
      obtain ⟨count, counted, function, resolved, ids, parsed, same⟩ := read
      cases same
      exact ⟨name, rfl, counted, resolved, parsed⟩
  · rintro ⟨name, named, counted, resolved, parsed⟩
    simp only [named, bind_eq_ok]
    exact ⟨_, counted, _, resolved, _, parsed, rfl⟩

/-! ## Whole columns -/

/-- Every attribute of `c` is what `config` holds for `column`. -/
structure Decodes (config : Config) (column : String) (c : Column) : Prop where
  name : c.name = column
  /-- The type is recorded as a logical one and kept as the stored one. -/
  dataType : ∃ type, decodeMember DataType config (Property.dataType.key column) = .ok type ∧
    c.dataType = type.stored
  fieldType : decodeMember FieldType config (Property.columnType.key column) = .ok c.fieldType
  timeUnit : Literal.member TimeUnit
    (config.textOr SegmentKey.timeUnit.name TimeUnit.default.name) = .ok c.timeUnit
  cardinality : config.int (Property.cardinality.key column) = .ok c.cardinality
  totalDocs : config.int (Property.totalDocs.key column) = .ok c.totalDocs
  bitsPerElement : config.int (Property.bitsPerElement.key column) = .ok c.bitsPerElement
  maxLength : config.int (Property.dictionaryElementSize.key column) = .ok c.maxLength
  isSorted : config.boolean (Property.isSorted.key column) = .ok c.isSorted
  hasNulls : config.boolean (Property.hasNullValue.key column) = .ok c.hasNulls
  hasDictionary : config.booleanOr (Property.hasDictionary.key column) true = .ok c.hasDictionary
  hasInvertedIndex :
    config.boolean (Property.hasInvertedIndex.key column) = .ok c.hasInvertedIndex
  hasFSTIndex : config.booleanOr (Property.hasFSTIndex.key column) false = .ok c.hasFSTIndex
  isSingleValue : config.boolean (Property.isSingleValued.key column) = .ok c.isSingleValue
  maxMultiValues : config.int (Property.maxMultiValueElements.key column) = .ok c.maxMultiValues
  totalEntries : config.int (Property.totalNumberOfEntries.key column) = .ok c.totalEntries
  isAutoGenerated :
    config.booleanOr (Property.isAutoGenerated.key column) false = .ok c.isAutoGenerated
  isVirtual : c.isVirtual = false
  defaultNullValue : c.defaultNullValue = config.text? (Property.defaultNullValue.key column)
  padding : decodePadding config = .ok c.padding
  bounds : ∃ bounds, decodeBounds config column c.dataType = .ok bounds ∧
    c.minValue = bounds.map Prod.fst ∧ c.maxValue = bounds.map Prod.snd
  partitioning : ∃ partitioning, decodePartitioning config column = .ok partitioning ∧
    c.partitionFunction = partitioning.map Partitioning.function ∧
    c.partitionCount = partitioning.elim 0 Partitioning.count ∧
    c.partitions = partitioning.elim [] Partitioning.ids
  dateTimeFormat : c.dateTimeFormat = config.text? (Property.dateTimeFormat.key column)
  dateTimeGranularity :
    c.dateTimeGranularity = config.text? (Property.dateTimeGranularity.key column)
  textIndexType : Literal.member TextIndexType
    (config.textOr (Property.textIndexType.key column) TextIndexType.default.name) =
      .ok c.textIndexType
  fieldSpec : c.fieldSpec = .ofRole c.fieldType c.name c.dataType c.isSingleValue c.timeUnit
    c.dateTimeFormat c.dateTimeGranularity

theorem decodes_of_decode (decoded : decode config column = .ok c) : Decodes config column c := by
  simp only [decode, bind_eq_ok] at decoded
  obtain ⟨dataType, hDataType, fieldType, hFieldType, timeUnit, hTimeUnit, cardinality,
    hCardinality, totalDocs, hTotalDocs, bitsPerElement, hBits, maxLength, hLength, isSorted,
    hSorted, hasNulls, hNulls, hasDictionary, hDictionary, hasInvertedIndex, hInverted,
    hasFSTIndex, hFST, isSingleValue, hSingle, maxMultiValues, hMulti, totalEntries, hEntries,
    isAutoGenerated, hGenerated, padding, hPadding, bounds, hBounds, partitioning,
    hPartitioning, built⟩ := decoded
  -- the draft has been given both types on the way, so `build` finds the ones that were decoded
  obtain ⟨textIndexType, type, role, hIndex, typed, roled, rfl⟩ :=
    ColumnDraft.build_eq_ok_iff.1 built
  simp only [Option.some.injEq] at typed roled
  subst typed roled
  exact ⟨rfl, ⟨dataType, hDataType, rfl⟩, hFieldType, hTimeUnit, hCardinality, hTotalDocs, hBits,
    hLength, hSorted, hNulls, hDictionary, hInverted, hFST, hSingle, hMulti, hEntries, hGenerated,
    rfl, rfl, hPadding, ⟨bounds, hBounds, rfl, rfl⟩, ⟨partitioning, hPartitioning, rfl, rfl, rfl⟩,
    rfl, rfl, hIndex, rfl⟩

theorem decode_of_decodes (h : Decodes config column c) : decode config column = .ok c := by
  obtain ⟨dataType, hDataType, typed⟩ := h.dataType
  obtain ⟨bounds, hBounds, hMin, hMax⟩ := h.bounds
  obtain ⟨partitioning, hPartitioning, hFunction, hCount, hIds⟩ := h.partitioning
  rw [typed] at hBounds
  simp only [decode, bind_eq_ok]
  refine ⟨_, hDataType, _, h.fieldType, _, h.timeUnit, _, h.cardinality, _, h.totalDocs, _,
    h.bitsPerElement, _, h.maxLength, _, h.isSorted, _, h.hasNulls, _, h.hasDictionary, _,
    h.hasInvertedIndex, _, h.hasFSTIndex, _, h.isSingleValue, _, h.maxMultiValues, _,
    h.totalEntries, _, h.isAutoGenerated, _, h.padding, _, hBounds, _, hPartitioning, ?_⟩
  refine ColumnDraft.build_eq_ok_iff.2 ⟨_, _, _, h.textIndexType, rfl, rfl, ?_⟩
  have hSpec := h.fieldSpec
  have hVirtual := h.isVirtual
  have hNull := h.defaultNullValue
  have hFormat := h.dateTimeFormat
  have hGranularity := h.dateTimeGranularity
  have hName := h.name
  -- `c` is the draft field by field
  cases c
  simp_all

/-- A column is decoded exactly when each of its attributes can be read. -/
theorem decode_eq_ok_iff : decode config column = .ok c ↔ Decodes config column c :=
  ⟨decodes_of_decode, decode_of_decodes⟩

/-! ## A column -/

/-- The properties of a partitioned column of times, its padding a backslash. -/
def sample : PlainMap where
  entries :=
    [("t.x.dataType", "Float"), ("t.x.columnType", "DATE_TIME"), ("t.x.cardinality", "-2147483648"),
      ("t.x.totalDocs", "+7"), ("t.x.bitsPerElement", " 3 "), ("t.x.dictionaryElementSize", "04"),
      ("t.x.isSorted", "Yes"), ("t.x.hasNullValue", "off"), ("t.x.hasInvertedIndex", "n"),
      ("t.x.isSingleValued", "true"), ("t.x.maxMultiValueElements", "0"),
      ("t.x.totalNumberOfEntries", "7"), ("t.x.minValue", "-0.50"), ("t.x.maxValue", "nan"),
      ("t.x.partitionFunction", "murmur"), ("t.x.numPartitions", "4"),
      ("t.x.partitionValues", "3,[0 1]"), ("t.x.dateTimeFormat", "EPOCH"),
      ("segment.padding.character", "\\\\")]

def sampleColumn : Column where
  name := "t.x"
  cardinality := -2147483648
  totalDocs := 7
  dataType := .float
  bitsPerElement := 3
  maxLength := 4
  fieldType := .dateTime
  isSorted := true
  hasNulls := false
  hasDictionary := true
  hasInvertedIndex := false
  hasFSTIndex := false
  isSingleValue := true
  isAutoGenerated := false
  isVirtual := false
  maxMultiValues := 0
  totalEntries := 7
  defaultNullValue := none
  timeUnit := .days
  padding := '\\'
  minValue := some (.float (Binary.ofMagnitude true 0x3f000000))
  maxValue := some (.float (Binary.ofMagnitude false 0x7fc00000))
  partitionFunction := some ⟨.murmur, 4, by decide⟩
  partitionCount := 4
  partitions := [0, 1, 3]
  dateTimeFormat := some "EPOCH"
  dateTimeGranularity := none
  textIndexType := .none
  fieldSpec := .dateTime "t.x" .float (some "EPOCH") none

theorem partitions_sample :
    PartitionIds.parse (sample.list (Property.partitionValues.key "t.x")) = .ok [0, 1, 3] := by
  have first : PartitionEntry.parse "3" = .ok (some ⟨3, 3⟩) := rfl
  have second : PartitionEntry.parse "[0 1]" = .ok (some ⟨0, 1⟩) := rfl
  have listed : sample.list (Property.partitionValues.key "t.x") = ["3", "[0 1]"] := by rfl
  rw [listed]
  simp [PartitionIds.parse, List.mapM_cons, first, second, bind, Except.bind, pure, Except.pure]
  decide +kernel

theorem decode_sample : decode sample.config "t.x" = .ok sampleColumn := by
  have padding : decodePadding sample.config = .ok '\\' := by
    have present : sample.config.contains SegmentKey.paddingCharacter.name = true := rfl
    have text : sample.config.textOr SegmentKey.paddingCharacter.name "" = "\\\\" := rfl
    have read : Text.unescape? "\\\\".toList = some ['\\'] := by decide +kernel
    rw [decodePadding, if_pos present, text]
    dsimp only
    rw [Literal.unescaped, read]
    rfl
  have bounds : decodeBounds sample.config "t.x" .float = .ok (some (.float
      (Binary.ofMagnitude true 0x3f000000), .float (Binary.ofMagnitude false 0x7fc00000))) := by
    have rawLow : sample.config.raw? (BoundSide.min.property.key "t.x") = some "-0.50" := rfl
    have rawHigh : sample.config.raw? (BoundSide.max.property.key "t.x") = some "nan" := rfl
    have low : Binary.ofText? .single (Text.trim "-0.50".toList) =
        some (Binary.ofMagnitude true 0x3f000000) := by decide +kernel
    have high : Binary.ofText? .single (Text.trim "nan".toList) =
        some (Binary.ofMagnitude false 0x7fc00000) := by decide +kernel
    rw [decodeBounds]
    simp only [rawLow, rawHigh, Scalar.parse, low, high]
    rfl
  have partitioning : decodePartitioning sample.config "t.x" =
      .ok (some ⟨⟨.murmur, 4, by decide⟩, 4, [0, 1, 3]⟩) := by
    exact decodePartitioning_eq_some_iff.2 ⟨"murmur", rfl, rfl, rfl, partitions_sample⟩
  exact decode_of_decodes ⟨rfl, ⟨.float, rfl, rfl⟩, rfl, rfl, rfl, rfl, rfl, rfl, rfl, rfl, rfl,
    rfl, rfl, rfl, rfl, rfl, rfl, rfl, rfl, padding, ⟨_, bounds, rfl, rfl⟩,
    ⟨_, partitioning, rfl, rfl, rfl⟩, rfl, rfl, rfl, rfl⟩

end Column

end SegmentCatalog
