import SegmentCatalog.Proofs.Coherence
import SegmentCatalog.Proofs.Keys
import SegmentCatalog.Proofs.Values

/-! # Columns as properties

`Column.toMap` writes the metadata of a column down as the properties it is decoded from: every
attribute under its key, an absent attribute under none.

`Column.decode_toMap` says that decoding undoes this for every column that was decoded: no two
properties share a key, and the text of each is read as the attribute it was written for.
-/

namespace SegmentCatalog

/-! ## Look-ups -/

/-- A list with one entry for each of `items` that has a value is looked up item by item. -/
theorem lookup_filterMap {α β : Type} [DecidableEq α] (key : α → String)
    (injective : ∀ x y, key x = key y → x = y) (value : α → Option β) (items : List α) (x : α) :
    (items.filterMap fun y => (value y).map (key y, ·)).lookup (key x) =
      if x ∈ items then value x else none := by
  induction items with
  | nil => rfl
  | cons y items ih =>
    by_cases here : x = y
    -- the first entry under the key has the value; if there is none, there is none later either
    · subst here
      rw [if_pos (List.mem_cons_self ..), List.filterMap_cons]
      cases present : value x with
      | some v => rw [Option.map_some, List.lookup_cons_self]
      | none => rw [Option.map_none, ih, present, ite_self]
    · have apart : key x ≠ key y := fun same => here (injective x y same)
      have skip : (x ∈ y :: items) = (x ∈ items) := by simp [here]
      simp only [skip]
      rw [List.filterMap_cons]
      cases value y with
      | some v => rw [Option.map_some, List.lookup_cons, beq_false_of_ne apart, ih]
      | none => rw [Option.map_none, ih]

namespace Column

/-- The text recorded under a property of a column, none if there is nothing to record. -/
def recorded (c : Column) : Property → Option String
  | .cardinality => some (Decimal.text c.cardinality.toInt)
  | .totalDocs => some (Decimal.text c.totalDocs.toInt)
  | .dataType => some c.dataType.name
  | .bitsPerElement => some (Decimal.text c.bitsPerElement.toInt)
  | .dictionaryElementSize => some (Decimal.text c.maxLength.toInt)
  | .columnType => some c.fieldType.name
  | .isSorted => some (Text.ofBool c.isSorted)
  | .hasNullValue => some (Text.ofBool c.hasNulls)
  | .hasDictionary => some (Text.ofBool c.hasDictionary)
  | .hasInvertedIndex => some (Text.ofBool c.hasInvertedIndex)
  | .hasFSTIndex => some (Text.ofBool c.hasFSTIndex)
  | .isSingleValued => some (Text.ofBool c.isSingleValue)
  | .maxMultiValueElements => some (Decimal.text c.maxMultiValues.toInt)
  | .totalNumberOfEntries => some (Decimal.text c.totalEntries.toInt)
  | .isAutoGenerated => some (Text.ofBool c.isAutoGenerated)
  | .defaultNullValue => c.defaultNullValue
  | .minValue => c.minValue.map Scalar.display
  | .maxValue => c.maxValue.map Scalar.display
  | .partitionFunction => c.partitionFunction.map fun f => f.strategy.name
  | .numPartitions => c.partitionFunction.map fun _ => Decimal.text c.partitionCount.toInt
  | .partitionValues => c.partitionFunction.map fun _ => c.partitions.text
  | .dateTimeFormat => c.dateTimeFormat
  | .dateTimeGranularity => c.dateTimeGranularity
  | .textIndexType => some c.textIndexType.name

/-- The column as the properties of a segment: its own, and the two that it takes from the
    segment. -/
def toMap (c : Column) : PlainMap where
  entries :=
    (SegmentKey.timeUnit.name, c.timeUnit.name) ::
    (SegmentKey.paddingCharacter.name, Text.spelling c.padding) ::
    Property.all.filterMap fun p => (c.recorded p).map (p.key c.name, ·)

variable (c : Column)

theorem find?_toMap (p : Property) : c.toMap.find? (p.key c.name) = c.recorded p := by
  -- the two entries of the segment are passed over
  have other := p.key_ne_segmentKey c.name
  rw [OrderedMap.find?, toMap, List.lookup_cons, beq_false_of_ne (other _), List.lookup_cons,
    beq_false_of_ne (other _)]
  have found := lookup_filterMap (fun q => q.key c.name) (fun _ _ => Property.key_injective)
    c.recorded Property.all p
  rwa [if_pos p.mem_all] at found

example : sampleColumn.toMap.find? "t.x.partitionValues" = some "0,1,3" := by rfl

variable {c}

theorem int_toMap {p : Property} {n : Int32}
    (here : c.recorded p = some (Decimal.text n.toInt)) :
    c.toMap.config.int (p.key c.name) = .ok n := by
  rw [Config.int_of_present ((c.find?_toMap p).trans here), Literal.int32_text]

theorem boolean_toMap {p : Property} {b : Bool} (here : c.recorded p = some (Text.ofBool b)) :
    c.toMap.config.boolean (p.key c.name) = .ok b := by
  rw [Config.boolean_of_present ((c.find?_toMap p).trans here), Literal.boolean_ofBool]

theorem booleanOr_toMap {p : Property} {b : Bool} (here : c.recorded p = some (Text.ofBool b))
    (default : Bool) : c.toMap.config.booleanOr (p.key c.name) default = .ok b := by
  have present : c.toMap.config.text? (p.key c.name) = some (Text.ofBool b) :=
    (c.find?_toMap p).trans here
  rw [Config.booleanOr, present]
  exact Literal.boolean_ofBool ..

theorem decodeMember_toMap {α : Type} [Vocabulary α] {p : Property} {x : α}
    (here : c.recorded p = some (Vocabulary.name x)) :
    decodeMember α c.toMap.config (p.key c.name) = .ok x := by
  have present : c.toMap.config.text? (p.key c.name) = some (Vocabulary.name x) :=
    (c.find?_toMap p).trans here
  rw [decodeMember, Config.required, present]
  exact Literal.member_name x

theorem textOr_toMap {p : Property} {text : String} (here : c.recorded p = some text)
    (default : String) : c.toMap.config.textOr (p.key c.name) default = text := by
  have present : c.toMap.config.text? (p.key c.name) = some text := (c.find?_toMap p).trans here
  rw [Config.textOr, present, Option.getD_some]

theorem decodePadding_toMap : decodePadding c.toMap.config = .ok c.padding := by
  have present : c.toMap.config.contains SegmentKey.paddingCharacter.name = true := rfl
  have text : c.toMap.config.textOr SegmentKey.paddingCharacter.name "" =
    Text.spelling c.padding := rfl
  rw [decodePadding, if_pos present, text]
  dsimp only
  rw [Literal.unescaped_spelling]
  simp [bind, Except.bind, pure, Except.pure]

/-! ## Round trip -/

theorem decodeBounds_toMap (coherent : c.Coherent) :
    ∃ bounds, decodeBounds c.toMap.config c.name c.dataType = .ok bounds ∧
      ((bounds.map Prod.fst == c.minValue) = true ∧
        (bounds.map Prod.snd == c.maxValue) = true) := by
  have types := coherent.boundTypes
  have both := coherent.bothBounds
  have rawMin := c.find?_toMap .minValue
  have rawMax := c.find?_toMap .maxValue
  simp only [recorded] at rawMin rawMax
  cases hMin : c.minValue with
  | none =>
    cases hMax : c.maxValue with
    | some high => rw [hMin, hMax] at both; cases both
    | none =>
      rw [hMin] at rawMin
      rw [hMax] at rawMax
      exact ⟨none, decodeBounds_eq_none_iff.2 ⟨rawMin, rawMax⟩, rfl, rfl⟩
  | some low =>
    cases hMax : c.maxValue with
    | none => rw [hMin, hMax] at both; cases both
    | some high =>
      rw [hMin] at rawMin
      rw [hMax] at rawMax
      obtain ⟨low', readLow, sameLow⟩ := Scalar.parse_display c.name Property.minValue.name low
      obtain ⟨high', readHigh, sameHigh⟩ :=
        Scalar.parse_display c.name Property.maxValue.name high
      rw [types low (.inl hMin)] at readLow
      rw [types high (.inr hMax)] at readHigh
      exact ⟨some (low', high'),
        decodeBounds_eq_some_iff.2 ⟨_, _, rawMin, rawMax, readLow, readHigh⟩, sameLow, sameHigh⟩

theorem decodePartitioning_toMap (coherent : c.Coherent) :
    ∃ partitioning, decodePartitioning c.toMap.config c.name = .ok partitioning ∧
      c.partitionFunction = partitioning.map Partitioning.function ∧
      c.partitionCount = partitioning.elim 0 Partitioning.count ∧
      c.partitions = partitioning.elim [] Partitioning.ids := by
  have named := c.find?_toMap .partitionFunction
  have counted := c.find?_toMap .numPartitions
  have listed := c.find?_toMap .partitionValues
  simp only [recorded] at named counted listed
  cases found : c.partitionFunction with
  | none =>
    rw [found] at named
    obtain ⟨zero, empty⟩ := coherent.unpartitioned found
    exact ⟨none, decodePartitioning_eq_none_iff.2 named, rfl, zero, empty⟩
  | some f =>
    rw [found] at named counted listed
    have resolved := f.resolve_name
    rw [coherent.partitioned f found] at resolved
    -- a map has no lists of its own: it cuts the text of the set at its commas
    have list : c.toMap.config.list (Property.partitionValues.key c.name) =
        (Text.cutAt (· == ',') c.partitions.text.toList).map fun part =>
          String.ofList (Text.trim part) := by
      change PlainMap.list _ _ = _
      rw [PlainMap.list, listed]
      rfl
    have parsed := PartitionIds.parse_cutAt_text coherent.ascending
    rw [← list] at parsed
    have count : c.toMap.config.int (Property.numPartitions.key c.name) = .ok c.partitionCount :=
      int_toMap (by rw [recorded, found]; rfl)
    exact ⟨some ⟨f, c.partitionCount, c.partitions⟩,
      decodePartitioning_eq_some_iff.2 ⟨_, named, count, resolved, parsed⟩, rfl, rfl, rfl⟩

theorem beq_of_bounds {min max : Option Scalar} (sameMin : (min == c.minValue) = true)
    (sameMax : (max == c.maxValue) = true) :
    ({ c with minValue := min, maxValue := max } == c) = true := by
  change instBEqColumn.beq _ _ = true
  simp only [instBEqColumn.beq, sameMin, sameMax, beq_self_eq_true, Bool.and_self]

/-- Decoding what a decoded column is recorded as gives an equal column. -/
theorem decode_toMap {config : Config} {column : String} (decoded : decode config column = .ok c) :
    ∃ c', decode c.toMap.config column = .ok c' ∧ (c' == c) = true := by
  have coherent := coherent_of_decode decoded
  obtain ⟨bounds, readBounds, sameMin, sameMax⟩ := decodeBounds_toMap coherent
  -- only the bounds may come back as other values, though equal ones
  refine ⟨{ c with minValue := bounds.map Prod.fst, maxValue := bounds.map Prod.snd },
    decode_of_decodes ?_, beq_of_bounds sameMin sameMax⟩
  have named := (decodes_of_decode decoded).name
  subst named
  exact {
    name := rfl
    dataType := ⟨c.dataType, decodeMember_toMap rfl, coherent.stored.symm⟩
    fieldType := decodeMember_toMap rfl
    timeUnit := Literal.member_name c.timeUnit
    cardinality := int_toMap rfl
    totalDocs := int_toMap rfl
    bitsPerElement := int_toMap rfl
    maxLength := int_toMap rfl
    isSorted := boolean_toMap rfl
    hasNulls := boolean_toMap rfl
    hasDictionary := booleanOr_toMap rfl true
    hasInvertedIndex := boolean_toMap rfl
    hasFSTIndex := booleanOr_toMap rfl false
    isSingleValue := boolean_toMap rfl
    maxMultiValues := int_toMap rfl
    totalEntries := int_toMap rfl
    isAutoGenerated := booleanOr_toMap rfl false
    isVirtual := coherent.notVirtual
    defaultNullValue := (c.find?_toMap .defaultNullValue).symm
    padding := decodePadding_toMap
    bounds := ⟨bounds, readBounds, rfl, rfl⟩
    partitioning := decodePartitioning_toMap coherent
    dateTimeFormat := (c.find?_toMap .dateTimeFormat).symm
    dateTimeGranularity := (c.find?_toMap .dateTimeGranularity).symm
    textIndexType := by
      rw [textOr_toMap rfl]
      exact Literal.member_name c.textIndexType
    fieldSpec := coherent.fieldSpec }

theorem decode_toMap_sample :
    decode sample.config "t.x" = .ok sampleColumn ∧
    ∃ c', decode sampleColumn.toMap.config "t.x" = .ok c' ∧ (c' == sampleColumn) = true :=
  ⟨decode_sample, decode_toMap decode_sample⟩

end Column

end SegmentCatalog
