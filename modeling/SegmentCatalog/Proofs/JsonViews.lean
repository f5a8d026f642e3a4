import SegmentCatalog.Proofs.Binary.JsonNumbers
import SegmentCatalog.Proofs.Coherence
import SegmentCatalog.Proofs.Equality
import SegmentCatalog.Proofs.Isolation

/-! # Columns told by their JSON texts

The JSON value of a column does not hold all of it: a bound that is infinite or no number is written
as if it were absent, and of a partition function there is only the name.  But the partition
function of a column that has been decoded has the column's own count, and the bounds are of the
column's type.  If they are finite, nothing is lost (`Column.agree_of_json`).

A value is told from its text, so decoded columns with finite bounds have the same text if and only
if they are equal: `Column.jsonText_eq_iff`.
-/

namespace SegmentCatalog

/-! ## Values -/

namespace Json

variable {α : Type} {f : α → Json} {x y : Option α}

@[simp] theorem plain_ofInt (n : Int) : Plain (.ofInt n) := .number (numeric_ofInt n)

theorem plain_ofOption (each : ∀ a, Plain (f a)) (x : Option α) : Plain (.ofOption f x) := by
  cases x with
  | none => exact .null
  | some a => exact each a

@[simp] theorem plain_ofOption_string (text : Option String) : Plain (.ofOption .string text) :=
  plain_ofOption .string text

theorem ofInt_injective {m n : Int} (same : ofInt m = ofInt n) : m = n := by
  have read := Decimal.int?_ofInt m
  rw [number.inj same, Decimal.int?_ofInt] at read
  exact (Option.some.inj read).symm

theorem ofInt_int32_inj {m n : Int32} : ofInt m.toInt = ofInt n.toInt ↔ m = n :=
  ⟨fun same => Int32.toInt_inj.1 (ofInt_injective same), fun same => by rw [same]⟩

/-- What may be absent is told from its value, if only its absence is written as `null`. -/
theorem ofOption_inj (same : ofOption f x = ofOption f y)
    (filled : ∀ a, x = some a ∨ y = some a → f a ≠ .null)
    (told : ∀ a b, x = some a → y = some b → f a = f b → a = b) : x = y := by
  cases x with
  | none =>
    cases y with
    | none => rfl
    | some b => exact absurd same.symm (filled b (.inr rfl))
  | some a =>
    cases y with
    | none => exact absurd same (filled a (.inl rfl))
    | some b => rw [told a b rfl rfl same]

theorem ofOption_string_inj {s t : Option String} :
    ofOption .string s = ofOption .string t ↔ s = t :=
  ⟨fun same => ofOption_inj same (fun _ _ => nofun) fun _ _ _ _ => string.inj,
    fun same => by rw [same]⟩

end Json

namespace Scalar

def IsFinite : Scalar → Prop
  | float x => x.IsFinite
  | double x => x.IsFinite
  | _ => True

variable {x y : Scalar}

@[simp] theorem plain_json (x : Scalar) : Json.Plain x.json := by
  cases x with
  | int n | long n => exact Json.plain_ofInt _
  | float x | double x => exact x.plain_json _
  | string s => exact .string s
  | bytes b => exact .string _

theorem json_ne_null (finite : x.IsFinite) : x.json ≠ .null := by
  cases x with
  | float x => exact Binary.json_ne_null_of_isFinite .single finite
  | double x => exact Binary.json_ne_null_of_isFinite .double finite
  | int _ | long _ | string _ | bytes _ => exact nofun

/-- Of values of one type, a finite one is told from its JSON value. -/
theorem json_injective (typed : x.dataType = y.dataType) (finite : x.IsFinite)
    (finite' : y.IsFinite) (same : x.json = y.json) : x = y := by
  cases x <;> cases y
  case int.int m n => rw [Json.ofInt_int32_inj.1 same]
  case long.long m n => rw [Int64.toInt_inj.1 (Json.ofInt_injective same)]
  case float.float x y =>
    rw [Binary.json_injective_of_isFinite .single finite finite' same]
  case double.double x y =>
    rw [Binary.json_injective_of_isFinite .double finite finite' same]
  case string.string s t => rw [Json.string.inj same]
  case bytes.bytes b c =>
    have digits := String.ofList_injective (Json.string.inj same)
    have read := Text.unhex?_hex b
    rw [digits, Text.unhex?_hex] at read
    rw [Option.some.inj read]
  -- values of two types
  all_goals cases typed

end Scalar

/-! ## Columns -/

namespace Column

variable {a b c : Column}

def HasFiniteBounds (c : Column) : Prop :=
  ∀ x, c.minValue = some x ∨ c.maxValue = some x → x.IsFinite

theorem plain_json (c : Column) : Json.Plain c.json := by
  have bounds : ∀ x, Json.Plain (.ofOption Scalar.json x) := Json.plain_ofOption Scalar.plain_json
  have functions : ∀ x : Option PartitionFunction,
      Json.Plain (.ofOption (fun f => .string f.strategy.name) x) :=
    Json.plain_ofOption fun _ => .string _
  have spec : Json.Plain c.fieldSpec.json := by cases c.fieldSpec <;> simp [FieldSpec.json]
  simp [json, bounds, functions, spec]

theorem bound_eq_of_json {x y : Option Scalar} {type : DataType}
    (typed : ∀ v, x = some v → v.dataType = type) (typed' : ∀ v, y = some v → v.dataType = type)
    (finite : ∀ v, x = some v → v.IsFinite) (finite' : ∀ v, y = some v → v.IsFinite)
    (same : Json.ofOption Scalar.json x = Json.ofOption Scalar.json y) : x = y := by
  refine Json.ofOption_inj same ?_ ?_
  · intro v present
    exact Scalar.json_ne_null (present.elim (finite v) (finite' v))
  · intro v w left right json
    exact Scalar.json_injective ((typed v left).trans (typed' w right).symm) (finite v left)
      (finite' w right) json

/-- The name of a function is written, and its count is that of the column. -/
theorem partitionFunction_eq_of_json (coherent : a.Coherent) (coherent' : b.Coherent)
    (counts : a.partitionCount = b.partitionCount)
    (same : Json.ofOption (fun f => .string f.strategy.name) a.partitionFunction =
      Json.ofOption (fun f => .string f.strategy.name) b.partitionFunction) :
    a.partitionFunction = b.partitionFunction := by
  refine Json.ofOption_inj same (fun _ _ => nofun) ?_
  intro f g left right json
  have numbers : f.count = g.count := by
    rw [coherent.partitioned f left, counts, coherent'.partitioned g right]
  exact PartitionFunction.eq_iff.2 ⟨Json.string.inj json, numbers⟩

/-- Nothing is lost of a coherent column whose bounds are finite. -/
theorem agree_of_json (coherent : a.Coherent) (coherent' : b.Coherent) (finite : a.HasFiniteBounds)
    (finite' : b.HasFiniteBounds) (same : a.json = b.json) : a.Agree b := by
  simp only [json, Json.object.injEq, List.cons.injEq, Prod.mk.injEq, true_and, and_true,
    Json.string.injEq, Json.bool.injEq, Json.array.injEq, Json.ofInt_int32_inj,
    Json.ofOption_string_inj, String.singleton_inj] at same
  obtain ⟨name, cardinality, totalDocs, typeName, bitsPerElement, maxLength, roleName, isSorted,
    hasNulls, hasDictionary, hasInvertedIndex, hasFSTIndex, isSingleValue, isAutoGenerated,
    isVirtual, maxMultiValues, totalEntries, defaultNullValue, unitName, padding, low, high,
    functionName, partitionCount, partitions, dateTimeFormat, dateTimeGranularity, indexName,
    _⟩ := same
  have dataType := Vocabulary.name_injective a.dataType b.dataType typeName
  have fieldType := Vocabulary.name_injective a.fieldType b.fieldType roleName
  have timeUnit := Vocabulary.name_injective a.timeUnit b.timeUnit unitName
  have textIndexType := Vocabulary.name_injective a.textIndexType b.textIndexType indexName
  have minValue : a.minValue = b.minValue :=
    bound_eq_of_json (fun v found => coherent.boundTypes v (.inl found))
      (fun v found => dataType ▸ coherent'.boundTypes v (.inl found))
      (fun v found => finite v (.inl found)) (fun v found => finite' v (.inl found)) low
  have maxValue : a.maxValue = b.maxValue :=
    bound_eq_of_json (fun v found => coherent.boundTypes v (.inr found))
      (fun v found => dataType ▸ coherent'.boundTypes v (.inr found))
      (fun v found => finite v (.inr found)) (fun v found => finite' v (.inr found)) high
  have function := partitionFunction_eq_of_json coherent coherent' partitionCount functionName
  have ids : a.partitions = b.partitions :=
    (List.map_inj_right fun _ _ => Json.ofInt_int32_inj.1).1 partitions
  -- the specification is made from other attributes
  have fieldSpec : a.fieldSpec = b.fieldSpec := by
    rw [coherent.fieldSpec, coherent'.fieldSpec, fieldType, name, dataType, isSingleValue, timeUnit,
      dateTimeFormat, dateTimeGranularity]
  have unknown : a.hasUnknownCardinality = b.hasUnknownCardinality := by
    rw [hasUnknownCardinality, cardinality, ← hasUnknownCardinality]
  exact ⟨name, cardinality, unknown, totalDocs, dataType, bitsPerElement, maxLength, fieldType,
    isSorted, hasNulls, hasDictionary, hasInvertedIndex, hasFSTIndex, isSingleValue,
    isAutoGenerated, isVirtual, maxMultiValues, totalEntries, defaultNullValue, timeUnit, padding,
    Scalar.option_beq_iff_canonical.2 (by rw [minValue]),
    Scalar.option_beq_iff_canonical.2 (by rw [maxValue]), by rw [function], partitionCount, ids,
    dateTimeFormat, dateTimeGranularity, textIndexType, fieldSpec⟩

/-- Columns that are read from any configurations, and whose bounds are finite, have the same JSON
    text if and only if they are equal. -/
theorem jsonText_eq_iff {config config' : Config} {column column' : String}
    (decoded : decode config column = .ok a) (decoded' : decode config' column' = .ok b)
    (finite : a.HasFiniteBounds) (finite' : b.HasFiniteBounds) :
    a.jsonText = b.jsonText ↔ (a == b) = true := by
  constructor
  · intro same
    have views := Json.pretty_injective a.plain_json b.plain_json same
    exact beq_iff_agree.2 (agree_of_json (coherent_of_decode decoded) (coherent_of_decode decoded')
      finite finite' views)
  · intro same
    rw [← jsonText_canonical a, beq_iff_canonical.1 same, jsonText_canonical]

/-- A column with a bound that is written with an exponent, and perhaps a default value. -/
def bounded (text : Option String) : PlainMap :=
  sample.recordAll "t.x" [(.maxValue, some "1e-7"), (.defaultNullValue, text)]

def boundedColumn (text : Option String) : Column :=
  { sampleColumn with
    defaultNullValue := text, maxValue := some (.float (Binary.ofMagnitude false 0x33d6bf95)) }

theorem decodeBounds_bounded (text : Option String) :
    decodeBounds (bounded text).config "t.x" .float = .ok (some (.float
      (Binary.ofMagnitude true 0x3f000000), .float (Binary.ofMagnitude false 0x33d6bf95))) := by
  have rawLow : (bounded text).config.raw? (BoundSide.min.property.key "t.x") = some "-0.50" := by
    cases text <;> rfl
  have rawHigh : (bounded text).config.raw? (BoundSide.max.property.key "t.x") = some "1e-7" := by
    cases text <;> rfl
  have low : Binary.ofText? .single (Text.trim "-0.50".toList) =
      some (Binary.ofMagnitude true 0x3f000000) := by decide +kernel
  have high : Binary.ofText? .single (Text.trim "1e-7".toList) =
      some (Binary.ofMagnitude false 0x33d6bf95) := by decide +kernel
  rw [decodeBounds]
  simp only [rawLow, rawHigh, Scalar.parse, low, high]
  rfl

theorem decode_bounded {text : Option String} (word : text = none ∨ text = some "null") :
    decode (bounded text).config "t.x" = .ok (boundedColumn text) := by
  have partitioning : decodePartitioning (bounded text).config "t.x" =
      .ok (some ⟨⟨.murmur, 4, by decide⟩, 4, [0, 1, 3]⟩) := by
    rcases word with rfl | rfl <;> decide +kernel
  rcases word with rfl | rfl <;>
    refine decode_of_decodes ⟨rfl, ⟨.float, ?_, rfl⟩, ?_, ?_, ?_, ?_, ?_, ?_, ?_, ?_, ?_, ?_, ?_,
      ?_, ?_, ?_, ?_, rfl, ?_, ?_, ⟨_, decodeBounds_bounded _, rfl, rfl⟩,
      ⟨_, partitioning, rfl, rfl, rfl⟩, ?_, ?_, ?_, rfl⟩ <;>
    decide +kernel

/-- No default value is not the word for it, though both are written with the same letters. -/
theorem jsonText_eq_iff_bounded :
    decode (bounded none).config "t.x" = .ok (boundedColumn none) ∧
    decode (bounded (some "null")).config "t.x" = .ok (boundedColumn (some "null")) ∧
    (boundedColumn none).jsonText ≠ (boundedColumn (some "null")).jsonText := by
  have absent := decode_bounded (.inl rfl)
  have word := decode_bounded (.inr rfl)
  have finite : ∀ text, (boundedColumn text).HasFiniteBounds := by
    intro text x present
    rcases present with present | present <;> cases present
    · exact (by decide : (Binary.ofMagnitude true 0x3f000000 : Binary .single).IsFinite)
    · exact (by decide : (Binary.ofMagnitude false 0x33d6bf95 : Binary .single).IsFinite)
  have other : ¬ (boundedColumn none == boundedColumn (some "null")) = true := by decide
  exact ⟨absent, word, (jsonText_eq_iff absent word (finite none) (finite _)).not.2 other⟩

end Column

end SegmentCatalog
