import SegmentCatalog.Column.Display
import SegmentCatalog.Config.PropertyStore
import SegmentCatalog.Proofs.Decoding
import SegmentCatalog.Proofs.PartitionSets

/-! # Decoded columns are coherent

The attributes of a column are read from independent properties, yet those of a decoded column
fit together: its bounds are of its type, its specification repeats its attributes, and its
partitions belong to its partition function.

`Column.Coherent` says so, `Column.coherent_of_decode` that it holds of whatever is decoded, and
`Column.invariants_of_decode` spells it out, together with what it means for the display of the
bounds.
-/

namespace SegmentCatalog

/-- A partition function keeps the number of partitions it is resolved for. -/
theorem PartitionFunction.count_of_resolve {name : String} {count : Int32}
    {f : PartitionFunction} (resolved : resolve name count = .ok f) : f.count = count := by
  unfold resolve at resolved
  split at resolved
  · split at resolved
    · cases resolved; rfl
    · cases resolved
  · cases resolved

namespace Column

variable {config : Config} {column : String} {c : Column}

/-! ## Bounds and partitionings -/

theorem dataType_of_decodeBounds {type : DataType} {min max : Scalar}
    (read : decodeBounds config column type = .ok (some (min, max))) :
    min.dataType = type ∧ max.dataType = type := by
  obtain ⟨_, _, _, _, readLow, readHigh⟩ := decodeBounds_eq_some_iff.1 read
  exact ⟨Scalar.dataType_of_parse readLow, Scalar.dataType_of_parse readHigh⟩

theorem of_decodePartitioning {p : Partitioning}
    (read : decodePartitioning config column = .ok (some p)) :
    p.function.count = p.count ∧ p.ids.Ascending := by
  obtain ⟨_, _, _, resolved, parsed⟩ := decodePartitioning_eq_some_iff.1 read
  exact ⟨PartitionFunction.count_of_resolve resolved, PartitionIds.ascending_of_parse parsed⟩

/-! ## Coherence -/

/-- The attributes of the column fit together. -/
structure Coherent (c : Column) : Prop where
  stored : c.dataType.stored = c.dataType
  bothBounds : c.minValue.isSome = c.maxValue.isSome
  boundTypes : ∀ x, c.minValue = some x ∨ c.maxValue = some x → x.dataType = c.dataType
  fieldSpec : c.fieldSpec = .ofRole c.fieldType c.name c.dataType c.isSingleValue c.timeUnit
    c.dateTimeFormat c.dateTimeGranularity
  partitioned : ∀ f, c.partitionFunction = some f → f.count = c.partitionCount
  unpartitioned : c.partitionFunction = none → c.partitionCount = 0 ∧ c.partitions = []
  ascending : c.partitions.Ascending
  notVirtual : c.isVirtual = false

theorem coherent_of_decode (decoded : decode config column = .ok c) : c.Coherent := by
  have h := decodes_of_decode decoded
  obtain ⟨type, _, typed⟩ := h.dataType
  obtain ⟨bounds, readBounds, hMin, hMax⟩ := h.bounds
  obtain ⟨partitioning, readPartitioning, hFunction, hCount, hIds⟩ := h.partitioning
  -- both bounds are read in one step, and so are the three attributes of a partitioning
  refine ⟨by rw [typed, DataType.stored_stored], ?_, ?_, h.fieldSpec, ?_, ?_, ?_, h.isVirtual⟩
  · rw [hMin, hMax, Option.isSome_map, Option.isSome_map]
  · intro x present
    rw [hMin, hMax] at present
    cases bounds with
    | none => rcases present with absent | absent <;> cases absent
    | some pair =>
      obtain ⟨low, high⟩ := dataType_of_decodeBounds readBounds
      rcases present with same | same <;> cases same
      · exact low
      · exact high
  · intro f found
    rw [hFunction] at found
    cases partitioning with
    | none => cases found
    | some p =>
      cases found
      rw [hCount]
      exact (of_decodePartitioning readPartitioning).1
  · intro absent
    rw [hFunction] at absent
    cases partitioning with
    | none => exact ⟨hCount, hIds⟩
    | some p => cases absent
  · rw [hIds]
    cases partitioning with
    | none => exact List.Pairwise.nil
    | some p => exact (of_decodePartitioning readPartitioning).2

/-! ## What the display shows -/

/-- A bound of the column's own type is shown as it is, never as an error. -/
theorem showBound_of_dataType {type : DataType} {bound : Option Scalar}
    (typed : ∀ x, bound = some x → x.dataType = type) :
    showBound type bound = showOr (bound.map Scalar.display) := by
  cases bound with
  | none => rfl
  | some x => simp [showBound, showOr, typed x rfl]

/-- What is decoded for a column is coherent: it bears the column's name and a stored type;
    there are both bounds or none, of that type and displayed as they are; the specification
    repeats the attributes of the column; a partition function comes with its own, positive
    count, and without one there are no partitions; and the column is not virtual. -/
theorem invariants_of_decode (decoded : decode config column = .ok c) :
    (c.name = column ∧ c.dataType.stored = c.dataType) ∧
    (c.minValue.isSome = c.maxValue.isSome ∧
      (∀ x, c.minValue = some x ∨ c.maxValue = some x → x.dataType = c.dataType) ∧
      c.attributes.lookup "minValue" = some (showOr (c.minValue.map Scalar.display)) ∧
      c.attributes.lookup "maxValue" = some (showOr (c.maxValue.map Scalar.display))) ∧
    (c.fieldSpec.name = c.name ∧ c.fieldSpec.dataType = c.dataType ∧
      c.fieldSpec.fieldType = c.fieldType ∧
      (c.fieldType = .dimension → c.fieldSpec.isSingleValue = c.isSingleValue) ∧
      (c.fieldType ≠ .dimension → c.fieldSpec.isSingleValue = true) ∧
      (c.fieldType = .time → ∃ incoming, c.fieldSpec = .time incoming ∧
        incoming.timeUnit = c.timeUnit) ∧
      (c.fieldType = .dateTime → ∃ name type,
        c.fieldSpec = .dateTime name type c.dateTimeFormat c.dateTimeGranularity)) ∧
    ((∃ f, c.partitionFunction = some f ∧ f.count = c.partitionCount ∧
        0 < c.partitionCount.toInt) ∨
      (c.partitionFunction = none ∧ c.partitionCount = 0 ∧ c.partitions = [])) ∧
    c.isVirtual = false := by
  have coherent := coherent_of_decode decoded
  have spec := coherent.fieldSpec
  refine ⟨⟨(decodes_of_decode decoded).name, coherent.stored⟩,
    ⟨coherent.bothBounds, coherent.boundTypes, ?_, ?_⟩, ?_, ?_, coherent.notVirtual⟩
  -- a bound is shown as an error only if its type differs from the column's
  · have shown := showBound_of_dataType fun x found => coherent.boundTypes x (.inl found)
    rw [← shown]
    rfl
  · have shown := showBound_of_dataType fun x found => coherent.boundTypes x (.inr found)
    rw [← shown]
    rfl
  · rw [spec]
    refine ⟨by simp, by simp, by simp, ?_, ?_, ?_, ?_⟩
    · intro role; rw [role]; rfl
    · intro role
      cases other : c.fieldType with
      | dimension => exact absurd other role
      | metric | time | dateTime => rfl
    · intro role; rw [role]; exact ⟨_, rfl, rfl⟩
    · intro role; rw [role]; exact ⟨_, _, rfl⟩
  · cases found : c.partitionFunction with
    | none => exact .inr ⟨rfl, coherent.unpartitioned found⟩
    | some f =>
      have count := coherent.partitioned f found
      -- the count is positive because a function carries the proof of that
      exact .inl ⟨f, rfl, count, count ▸ f.positive⟩

theorem invariants_of_decode_sample :
    decode sample.config "t.x" = .ok sampleColumn ∧
    (sampleColumn.name = "t.x" ∧ sampleColumn.dataType.stored = sampleColumn.dataType) ∧
    (∀ x, sampleColumn.minValue = some x ∨ sampleColumn.maxValue = some x →
      x.dataType = sampleColumn.dataType) ∧
    sampleColumn.fieldSpec.name = sampleColumn.name ∧
    (∃ f, sampleColumn.partitionFunction = some f ∧ f.count = sampleColumn.partitionCount) ∧
    sampleColumn.isVirtual = false := by
  obtain ⟨named, ⟨_, typed, _, _⟩, ⟨spec, _⟩, partitioned, notVirtual⟩ :=
    invariants_of_decode decode_sample
  rcases partitioned with ⟨f, found, count, _⟩ | ⟨absent, _⟩
  · exact ⟨decode_sample, named, typed, spec, ⟨f, found, count⟩, notVirtual⟩
  · cases absent

end Column

end SegmentCatalog
