import SegmentCatalog.Proofs.Isolation
import SegmentCatalog.Proofs.PartitionFunctions
import SegmentCatalog.Proofs.Validity.Conditions

/-! # Decoding checks its conditions

Every step of decoding a column checks its part of `Column.conditions`, so that decoding checks all
of them, one after the other (`Column.decode_checks`).  Hence a column is decoded exactly when all
conditions hold, and else the first violation is reported
(`Column.decode_reports_first_violation`).
-/

namespace SegmentCatalog

/-! ## Bounds -/

namespace Scalar

variable {type : DataType}

theorem parse_of_not_mem (unsupported : type ∉ types) (column property text : String) :
    parse type column property text = .error (.unsupportedBounds column type) := by
  cases type with
  | int | long | float | double | string | bytes => exact absurd (by decide) unsupported
  | boolean | timestamp | json | struct | map | list => rfl

theorem parse_cases (supported : type ∈ types) (column property text : String) :
    (∃ x, parse type column property text = .ok x) ∨
    parse type column property text = .error (refusal type (columnKey column property) text) := by
  cases type with
  | string => exact .inl ⟨_, rfl⟩
  | int =>
    simp only [parse]
    cases Decimal.int32? (Text.trim text.toList) <;> simp [refusal]
  | long =>
    simp only [parse]
    cases Decimal.int64? (Text.trim text.toList) <;> simp [refusal]
  | float =>
    simp only [parse]
    cases Binary.ofText? .single (Text.trim text.toList) <;> simp [refusal]
  | double =>
    simp only [parse]
    cases Binary.ofText? .double (Text.trim text.toList) <;> simp [refusal]
  | bytes =>
    simp only [parse]
    cases Text.unhex? (Text.trim text.toList) <;> simp [refusal]
  | boolean | timestamp | json | struct | map | list => exact absurd supported (by decide)

end Scalar

namespace BoundSide

variable {p : BoundSide → Prop}

theorem forall_iff : (∀ side, p side) ↔ p .min ∧ p .max :=
  ⟨fun all => ⟨all .min, all .max⟩, fun both side => side.casesOn both.1 both.2⟩

end BoundSide

namespace Column

variable {config : Config} {column : String}

/-! ## Steps of decoding -/

theorem decodeMember_checks (α : Type) [Vocabulary α] (config : Config) (key : String) :
    Checks (decodeMember α config key) [(Kind.keyword α).required config key] :=
  Kind.required_checks (Kind.keyword_reads α key)

theorem decodePadding_checks (config : Config) :
    Checks (decodePadding config) [paddingSpelt config] := by
  rw [decodePadding]
  dsimp only
  split
  · rename_i present
    rw [Literal.unescaped]
    cases read : Text.unescape? (config.textOr SegmentKey.paddingCharacter.name "").toList with
    | none =>
      refine .fail ?_ fun e => ?_
      · simp [paddingSpelt, present, read]
      · simp [paddingSpelt, read]
    | some cs =>
      cases cs with
      | nil =>
        refine .fail ?_ fun e => ?_
        · simp [paddingSpelt, present, read]
        · simp [paddingSpelt, read]
      | cons c cs =>
        simp only [bind, Except.bind, String.toList_ofList]
        exact .pass (fun _ => ⟨c, cs, read⟩) (.nil c)
  · rename_i absent
    exact .pass (fun present => absurd present absent) (.nil _)

theorem decodeMember_eq_ok_iff {α : Type} [Vocabulary α] {key : String} {x : α} :
    decodeMember α config key = .ok x ↔ ∃ text, config.text? key = some text ∧
      (Vocabulary.name x).toList = Text.upper (Text.trim text.toList) := by
  rw [decodeMember, Config.required]
  cases config.text? key with
  | none => simp [bind, Except.bind]
  | some text =>
    simp only [bind, Except.bind, Literal.member, ← Vocabulary.find?_eq_some_iff]
    cases found : Vocabulary.find? α text with
    | none => simp [found]
    | some y => simp [found]

theorem storesAs_iff {dataType : DataType}
    (read : decodeMember DataType config (Property.dataType.key column) = .ok dataType)
    {type : DataType} : StoresAs config column type ↔ type = dataType.stored := by
  obtain ⟨text, found, named⟩ := decodeMember_eq_ok_iff.1 read
  simp only [StoresAs, found, Option.some.injEq]
  constructor
  · intro ⟨_, t, same, alike, stored⟩
    rw [← same, ← named] at alike
    rw [← stored, Vocabulary.name_injective t dataType (String.toList_injective alike)]
  · intro same
    exact ⟨text, dataType, rfl, named, same.symm⟩

theorem parse_checks {side : BoundSide} {type : DataType} {text : String}
    (stored : ∀ t, StoresAs config column t ↔ t = type) (supported : type ∈ Scalar.types)
    (found : config.raw? (side.property.key column) = some text) :
    Checks (Scalar.parse type column side.property.name text)
      [boundReadable config column side] := by
  cases Scalar.parse_cases supported column side.property.name text with
  | inl accepted =>
    obtain ⟨x, read⟩ := accepted
    rw [read]
    refine .pass ?_ (.nil x)
    simp [boundReadable, stored, found, read]
  | inr refused =>
    have refused : Scalar.parse type column side.property.name text =
        .error (Scalar.refusal type (side.property.key column) text) := refused
    rw [refused]
    refine .fail ?_ fun e => ?_
    · simp [boundReadable, stored, found, refused]
    · simp [boundReadable, stored, found]

/-- A bound without the other is reported, whatever else would be asked for. -/
theorem mismatch_checks {side : BoundSide} {more : List Condition}
    (present : config.contains (side.property.key column) = true)
    (absent : config.contains (side.other.property.key column) = false) :
    Checks (.error (.mismatchedBounds column side) : Except DecodeError (Option (Scalar × Scalar)))
      (boundsPaired config column :: more) := by
  refine .fail (fun paired => ?_) fun e => ⟨fun reported => ?_, fun same => ?_⟩
  · have there := paired side present
    rw [absent] at there
    cases there
  · obtain ⟨other, there, missing, same⟩ := reported
    have alike : other = side := by
      cases other <;> cases side <;> simp_all [BoundSide.other]
    rw [same, alike]
  · exact ⟨side, present, absent, same⟩

theorem decodeBounds_checks {type : DataType} (stored : ∀ t, StoresAs config column t ↔ t = type) :
    Checks (decodeBounds config column type) [boundsPaired config column,
      boundsSupported config column, boundReadable config column .min,
      boundReadable config column .max] := by
  cases low : config.raw? (BoundSide.min.property.key column) with
  | none =>
    cases high : config.raw? (BoundSide.max.property.key column) with
    | none =>
      rw [decodeBounds_eq_none_iff.2 ⟨low, high⟩]
      apply Checks.of_all
      simp [boundsPaired, boundsSupported, boundReadable, BoundSide.forall_iff, Config.contains,
        low, high]
    | some _ =>
      have outcome : decodeBounds config column type = .error (.mismatchedBounds column .max) := by
        simp only [decodeBounds, low, high]
        rfl
      rw [outcome]
      apply mismatch_checks
      · rw [Config.contains, high, Option.isSome_some]
      · rw [Config.contains, BoundSide.other, low, Option.isSome_none]
  | some min =>
    cases high : config.raw? (BoundSide.max.property.key column) with
    | none =>
      have outcome : decodeBounds config column type = .error (.mismatchedBounds column .min) := by
        simp only [decodeBounds, low, high]
        rfl
      rw [outcome]
      apply mismatch_checks
      · rw [Config.contains, low, Option.isSome_some]
      · rw [Config.contains, BoundSide.other, high, Option.isSome_none]
    | some max =>
      have paired : (boundsPaired config column).holds := by
        simp [boundsPaired, BoundSide.forall_iff, BoundSide.other, Config.contains, low, high]
      refine .pass paired ?_
      by_cases supported : type ∈ Scalar.types
      · have supporting : (boundsSupported config column).holds := by
          simp [boundsSupported, stored, supported]
        refine .pass supporting ?_
        simp only [decodeBounds, low, high]
        refine (parse_checks stored supported low).cons fun _ _ => ?_
        refine (parse_checks stored supported high).cons fun _ _ => ?_
        exact .nil _
      · have outcome : decodeBounds config column type =
            .error (.unsupportedBounds column type) := by
          simp only [decodeBounds, low, high, Scalar.parse_of_not_mem supported]
          rfl
        rw [outcome]
        refine .fail ?_ fun e => ?_
        · simp [boundsSupported, stored, BoundSide.forall_iff, Config.contains, low, supported]
        · simp [boundsSupported, stored]

theorem counts_iff {count : Int32}
    (read : config.int (Property.numPartitions.key column) = .ok count) {n : Int32} :
    Counts config column n ↔ n = count := by
  rw [Config.int, Config.required] at read
  rw [Counts]
  cases found : config.text? (Property.numPartitions.key column) with
  | none => simp [found, bind, Except.bind] at read
  | some text =>
    simp only [found, bind, Except.bind, Literal.int32] at read
    simp only [Option.some.injEq, exists_eq_left', ← Decimal.int32?_eq_some_iff]
    cases word : Decimal.int32? (Text.trim text.toList) with
    | none => simp [word] at read
    | some m =>
      simp only [word, Except.ok.injEq] at read
      simp [read, eq_comm]

theorem resolve_checks {name : String} {count : Int32}
    (named : config.text? (Property.partitionFunction.key column) = some name)
    (read : config.int (Property.numPartitions.key column) = .ok count) :
    Checks (PartitionFunction.resolve name count) [countPositive config column,
      functionKnown config column] := by
  have counts : ∀ n, Counts config column n ↔ n = count := fun n => counts_iff read
  rw [PartitionFunction.resolve]
  split
  · rename_i positive
    have positively : (countPositive config column).holds := by
      simp [countPositive, counts, positive]
    refine .pass positively ?_
    simp only [functionKnown, named, ← PartitionStrategy.find?_eq_some_iff]
    cases found : PartitionStrategy.find? name with
    | none =>
      refine .fail ?_ fun e => ?_
      · simp [found]
      · simp
    | some s => exact .pass (by simp [found]) (.nil _)
  · rename_i bounded
    refine .fail ?_ fun e => ?_
    · simpa [countPositive, counts, Partitioned, named] using bounded
    · simp [countPositive, counts]

theorem mapM_checks (partitioned : Partitioned config column) :
    Checks ((config.list (Property.partitionValues.key column)).mapM PartitionEntry.parse)
      [entriesWellFormed config column] := by
  have accepted : (∃ entries, (config.list (Property.partitionValues.key column)).mapM
      PartitionEntry.parse = .ok entries) ↔ (entriesWellFormed config column).holds := by
    simp only [exists_mapM_eq_ok_iff, PartitionEntry.exists_parse_iff, entriesWellFormed,
      forall_prop_of_true partitioned]
  have refused : ∀ e, (config.list (Property.partitionValues.key column)).mapM
      PartitionEntry.parse = .error e ↔ (entriesWellFormed config column).reports e := by
    intro e
    simp only [mapM_eq_error_iff, PartitionEntry.exists_parse_iff,
      PartitionEntry.parse_eq_error_iff, entriesWellFormed]
  cases outcome : (config.list (Property.partitionValues.key column)).mapM
      PartitionEntry.parse with
  | ok entries => exact .pass (accepted.1 ⟨entries, outcome⟩) (.nil entries)
  | error e =>
    refine .fail (fun held => ?_) fun e' => ?_
    · obtain ⟨entries, same⟩ := accepted.2 held
      rw [outcome] at same
      cases same
    · rw [← refused, outcome, Except.error.injEq, eq_comm]

theorem decodePartitioning_checks (config : Config) (column : String) :
    Checks (decodePartitioning config column) [countPresent config column,
      countPositive config column, functionKnown config column,
      entriesWellFormed config column] := by
  cases named : config.text? (Property.partitionFunction.key column) with
  | none =>
    rw [decodePartitioning_eq_none_iff.2 named]
    apply Checks.of_all
    simp [countPresent, countPositive, functionKnown, entriesWellFormed, Partitioned, named]
  | some name =>
    have partitioned : Partitioned config column := by simp [Partitioned, named]
    simp only [decodePartitioning, named]
    refine ((Kind.int_checks ..).under partitioned).cons fun count counted => ?_
    refine (resolve_checks named counted).bind fun function _ => ?_
    refine ((mapM_checks partitioned).bind fun entries _ => .nil _).cons fun ids _ => ?_
    exact .nil _

theorem build_checks {draft : ColumnDraft} {dataType : DataType} {fieldType : FieldType}
    (typed : draft.dataType = some dataType) (roled : draft.fieldType = some fieldType)
    {k : Condition} (named : Checks (Literal.member TextIndexType draft.textIndexType) [k]) :
    Checks draft.build [k] := by
  rw [ColumnDraft.build]
  refine named.cons fun textIndexType _ => ?_
  rw [typed, roled]
  exact .nil _

/-! ## Whole columns -/

/-- Decoding a column checks its conditions, one after the other. -/
theorem decode_checks (config : Config) (column : String) :
    Checks (decode config column) (conditions config column) := by
  simp only [conditions, readConditions, List.cons_append, List.nil_append]
  rw [decode]
  refine (decodeMember_checks ..).cons fun dataType typed => ?_
  refine (decodeMember_checks ..).cons fun fieldType _ => ?_
  refine (Kind.member_checks ..).cons fun timeUnit _ => ?_
  refine (Kind.int_checks ..).cons fun cardinality _ => ?_
  refine (Kind.int_checks ..).cons fun totalDocs _ => ?_
  refine (Kind.int_checks ..).cons fun bitsPerElement _ => ?_
  refine (Kind.int_checks ..).cons fun maxLength _ => ?_
  refine (Kind.boolean_checks ..).cons fun isSorted _ => ?_
  refine (Kind.boolean_checks ..).cons fun hasNulls _ => ?_
  refine (Kind.booleanOr_checks ..).cons fun hasDictionary _ => ?_
  refine (Kind.boolean_checks ..).cons fun hasInvertedIndex _ => ?_
  refine (Kind.booleanOr_checks ..).cons fun hasFSTIndex _ => ?_
  refine (Kind.boolean_checks ..).cons fun isSingleValue _ => ?_
  refine (Kind.int_checks ..).cons fun maxMultiValues _ => ?_
  refine (Kind.int_checks ..).cons fun totalEntries _ => ?_
  refine (Kind.booleanOr_checks ..).cons fun isAutoGenerated _ => ?_
  refine (decodePadding_checks config).cons fun padding _ => ?_
  refine (decodeBounds_checks fun t => storesAs_iff typed).bind fun bounds _ => ?_
  refine (decodePartitioning_checks config column).bind fun partitioning _ => ?_
  exact build_checks rfl rfl (Kind.member_checks ..)

/-- The conditions before the last have nothing to do with the text index. -/
theorem readConditions_congr {first second : Config}
    (timeUnit : first.AgreeAt second SegmentKey.timeUnit.name)
    (padding : first.AgreeAt second SegmentKey.paddingCharacter.name)
    (own : ∀ p : Property, p ≠ .textIndexType → first.AgreeAt second (p.key column)) :
    readConditions first column = readConditions second column := by
  have bounds : ∀ side : BoundSide, first.AgreeAt second (side.property.key column) := by
    intro side
    apply own
    cases side <;> decide
  have texts : ∀ p : Property, p ≠ .textIndexType →
      first.text? (p.key column) = second.text? (p.key column) := fun p other => (own p other).text
  simp (disch := decide) only [readConditions, Kind.required, Kind.optional, paddingSpelt,
    boundsPaired, boundsSupported, boundReadable, countPresent, countPositive, functionKnown,
    entriesWellFormed, StoresAs, Partitioned, Counts, texts, timeUnit.text, padding.contains,
    padding.textOr, (bounds _).contains, (bounds _).raw, (own .partitionValues _).list]

/-- A column is decoded if and only if all its conditions hold; otherwise the error is one that the
    first condition to be violated reports. -/
theorem decode_reports_first_violation (config : Config) (column : String) :
    ((∃ c, decode config column = .ok c) ↔ ∀ k ∈ conditions config column, k.holds) ∧
    ∀ e, decode config column = .error e ↔ ∃ before k after,
      conditions config column = before ++ k :: after ∧ (∀ earlier ∈ before, earlier.holds) ∧
      ¬ k.holds ∧ k.reports e := by
  obtain ⟨accepted, refused⟩ := decode_checks config column
  refine ⟨accepted, fun e => ?_⟩
  rw [refused e, firstViolation_iff]

/-- The sample, with a kind of text index that there is none of. -/
def unknownIndex : PlainMap := sample.insert (Property.textIndexType.key "t.x") "BOGUS"

/-- The conditions before the last do not suffice. -/
theorem not_decode_iff_readConditions :
    ¬ ((∃ c, decode unknownIndex.config "t.x" = .ok c) ↔
      ∀ k ∈ readConditions unknownIndex.config "t.x", k.holds) := by
  intro same
  have agree : ∀ key, key ≠ Property.textIndexType.key "t.x" →
      sample.config.AgreeAt unknownIndex.config key := by
    intro key other
    apply PlainMap.agreeAt
    rw [unknownIndex, OrderedMap.find?_insert, if_neg other]
  have before : readConditions sample.config "t.x" = readConditions unknownIndex.config "t.x" := by
    apply readConditions_congr (agree _ (by decide)) (agree _ (by decide))
    intro p other
    exact agree _ fun shared => other (Property.key_eq_key_iff.1 shared).1
  have held : ∀ k ∈ readConditions unknownIndex.config "t.x", k.holds := by
    intro k member
    rw [← before] at member
    apply (decode_checks sample.config "t.x").ok_iff.1 ⟨sampleColumn, decode_sample⟩
    exact List.mem_append_left _ member
  have last : ((Kind.keyword TextIndexType).optional unknownIndex.config
      (Property.textIndexType.key "t.x")).holds := by
    apply (decode_checks unknownIndex.config "t.x").ok_iff.1 (same.2 held)
    exact List.mem_append_right _ (List.mem_singleton_self _)
  obtain ⟨x, named⟩ := last "BOGUS" rfl
  revert named
  cases x <;> decide

end Column

end SegmentCatalog
