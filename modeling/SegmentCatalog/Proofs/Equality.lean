import SegmentCatalog.Column.Display
import SegmentCatalog.Column.Json
import SegmentCatalog.Proofs.PartitionFunctions
import SegmentCatalog.Proofs.Values

/-! # Equality of columns

`==` on columns is not equality of all their bits: numbers that are no numbers count as equal,
whatever their patterns.  `canonical` puts one pattern in the place of all those, and nothing
else is changed, so two columns are `==` if and only if they have the same canonical form
(`Column.beq_iff_canonical`).  Everything about `==` follows from that: it is an equivalence
because equality is one, and what is shown of a column can be told from its canonical form.
-/

namespace SegmentCatalog

/-! ## Numbers -/

namespace Binary

variable {F : Format} {x y : Binary F}

/-- The number itself, or the one that stands for all that are no numbers. -/
def canonical (x : Binary F) : Binary F := if x.isNaN then ofMagnitude false F.quietNaN else x

theorem canonical_of_isNaN (undefined : x.isNaN = true) :
    x.canonical = ofMagnitude false F.quietNaN := by
  rw [canonical, if_pos undefined]

theorem canonical_of_not_isNaN (defined : x.isNaN = false) : x.canonical = x := by
  simp [canonical, defined]

@[simp] theorem isNaN_canonical (x : Binary F) : x.canonical.isNaN = x.isNaN := by
  cases undefined : x.isNaN with
  | true => rw [canonical_of_isNaN undefined, isNaN_quietNaN undefined]
  | false => rw [canonical_of_not_isNaN undefined, undefined]

theorem beq_iff_canonical : (x == y) = true ↔ x.canonical = y.canonical := by
  rw [beq_iff]
  constructor
  · intro same
    cases same with
    | inl same => rw [same]
    | inr undefined => rw [canonical_of_isNaN undefined.1, canonical_of_isNaN undefined.2]
  · intro same
    have alike : x.isNaN = y.isNaN := by rw [← isNaN_canonical x, same, isNaN_canonical]
    cases undefined : y.isNaN with
    | true => exact .inr ⟨alike.trans undefined, rfl⟩
    | false =>
      rw [canonical_of_not_isNaN undefined, canonical_of_not_isNaN (alike.trans undefined)] at same
      exact .inl same

@[simp] theorem display_canonical (x : Binary F) : x.canonical.display = x.display := by
  cases undefined : x.isNaN with
  | true => simp [display, displayChars, undefined]
  | false => rw [canonical_of_not_isNaN undefined]

@[simp] theorem json_canonical (layout : NumberLayout) (x : Binary F) :
    x.canonical.json layout = x.json layout := by
  cases undefined : x.isNaN with
  | true => simp [json, undefined]
  | false => rw [canonical_of_not_isNaN undefined]

@[simp] theorem compare?_canonical (x y : Binary F) :
    x.canonical.compare? y.canonical = x.compare? y := by
  cases left : x.isNaN with
  | true => simp [compare?, left]
  | false =>
    cases right : y.isNaN with
    | true => simp [compare?, right]
    | false => rw [canonical_of_not_isNaN left, canonical_of_not_isNaN right]

end Binary

/-! ## Typed values -/

namespace Scalar

def canonical : Scalar → Scalar
  | float x => float x.canonical
  | double x => double x.canonical
  | x => x

theorem beq_iff_canonical {x y : Scalar} : (x == y) = true ↔ x.canonical = y.canonical := by
  cases x <;> cases y
  -- values of one type are compared as their type has it
  case int.int m n =>
    simp only [canonical, int.injEq]
    exact (beq_iff_eq : (m == n) = true ↔ m = n)
  case long.long m n =>
    simp only [canonical, long.injEq]
    exact (beq_iff_eq : (m == n) = true ↔ m = n)
  case float.float x y =>
    simp only [canonical, float.injEq]
    exact Binary.beq_iff_canonical
  case double.double x y =>
    simp only [canonical, double.injEq]
    exact Binary.beq_iff_canonical
  case string.string s t =>
    simp only [canonical, string.injEq]
    exact (beq_iff_eq : (s == t) = true ↔ s = t)
  case bytes.bytes b c =>
    simp only [canonical, bytes.injEq]
    exact (beq_iff_eq : (b == c) = true ↔ b = c)
  -- values of two types are never equal
  all_goals exact ⟨nofun, nofun⟩

@[simp] theorem dataType_canonical (x : Scalar) : x.canonical.dataType = x.dataType := by
  cases x <;> rfl

@[simp] theorem display_canonical (x : Scalar) : x.canonical.display = x.display := by
  cases x <;> simp [canonical, display]

@[simp] theorem json_canonical (x : Scalar) : x.canonical.json = x.json := by
  cases x <;> simp [canonical, json]

@[simp] theorem compare?_canonical (x y : Scalar) :
    x.canonical.compare? y.canonical = x.compare? y := by
  cases x <;> cases y <;> simp [canonical, compare?]

/-- Bounds that may be absent. -/
theorem option_beq_iff_canonical {x y : Option Scalar} :
    (x == y) = true ↔ x.map canonical = y.map canonical := by
  cases x <;> cases y <;> simp [beq_iff_canonical]

end Scalar

/-! ## Partition functions -/

namespace PartitionFunction

/-- A function is told by its name and its count. -/
theorem eq_iff {f g : PartitionFunction} :
    f = g ↔ f.strategy.name = g.strategy.name ∧ f.count = g.count := by
  constructor
  · intro same
    exact ⟨by rw [same], by rw [same]⟩
  · intro ⟨named, counted⟩
    obtain ⟨strategy, count, _⟩ := f
    obtain ⟨strategy', count', _⟩ := g
    have strategies : strategy = strategy' :=
      PartitionStrategy.lower_name_injective (congrArg (fun name => Text.lower name.toList) named)
    simp only at counted
    subst strategies counted
    rfl

/-- Names that are the same letter by letter, blanks around them apart, give one function. -/
theorem eq_iff_of_resolve {name name' : String} {count count' : Int32} {f g : PartitionFunction}
    (first : resolve name count = .ok f) (second : resolve name' count' = .ok g) :
    f = g ↔ Text.SameLetters (Text.trim name.toList) (Text.trim name'.toList) ∧
      count = count' := by
  obtain ⟨_, rfl, named⟩ := resolve_eq_ok_iff.1 first
  obtain ⟨_, rfl, named'⟩ := resolve_eq_ok_iff.1 second
  rw [← Text.lower_eq_lower_iff] at named named' ⊢
  rw [eq_iff, named, named']
  refine and_congr_left fun _ => ⟨fun same => by rw [same], fun same => ?_⟩
  rw [PartitionStrategy.lower_name_injective same]

end PartitionFunction

/-! ## Columns -/

namespace Column

variable {a b : Column}

def canonical (c : Column) : Column :=
  { c with minValue := c.minValue.map .canonical, maxValue := c.maxValue.map .canonical }

theorem beq_iff_canonical : (a == b) = true ↔ a.canonical = b.canonical := by
  cases a
  cases b
  show instBEqColumn.beq _ _ = true ↔ _
  simp only [instBEqColumn.beq, canonical, mk.injEq, Bool.and_eq_true, beq_iff_eq,
    Scalar.option_beq_iff_canonical]

/-- Nothing that can be asked of the columns tells them apart, where bounds are compared by their
    own equality, and partition functions by name and count. -/
structure Agree (a b : Column) : Prop where
  name : a.name = b.name
  cardinality : a.cardinality = b.cardinality
  hasUnknownCardinality : a.hasUnknownCardinality = b.hasUnknownCardinality
  totalDocs : a.totalDocs = b.totalDocs
  dataType : a.dataType = b.dataType
  bitsPerElement : a.bitsPerElement = b.bitsPerElement
  maxLength : a.maxLength = b.maxLength
  fieldType : a.fieldType = b.fieldType
  isSorted : a.isSorted = b.isSorted
  hasNulls : a.hasNulls = b.hasNulls
  hasDictionary : a.hasDictionary = b.hasDictionary
  hasInvertedIndex : a.hasInvertedIndex = b.hasInvertedIndex
  hasFSTIndex : a.hasFSTIndex = b.hasFSTIndex
  isSingleValue : a.isSingleValue = b.isSingleValue
  isAutoGenerated : a.isAutoGenerated = b.isAutoGenerated
  isVirtual : a.isVirtual = b.isVirtual
  maxMultiValues : a.maxMultiValues = b.maxMultiValues
  totalEntries : a.totalEntries = b.totalEntries
  defaultNullValue : a.defaultNullValue = b.defaultNullValue
  timeUnit : a.timeUnit = b.timeUnit
  padding : a.padding = b.padding
  minValue : (a.minValue == b.minValue) = true
  maxValue : (a.maxValue == b.maxValue) = true
  partitionFunction : a.partitionFunction.map (fun f => (f.strategy.name, f.count)) =
    b.partitionFunction.map fun f => (f.strategy.name, f.count)
  partitionCount : a.partitionCount = b.partitionCount
  partitions : a.partitions = b.partitions
  dateTimeFormat : a.dateTimeFormat = b.dateTimeFormat
  dateTimeGranularity : a.dateTimeGranularity = b.dateTimeGranularity
  textIndexType : a.textIndexType = b.textIndexType
  fieldSpec : a.fieldSpec = b.fieldSpec

theorem partitionFunction_eq_iff {f g : Option PartitionFunction} :
    f.map (fun f => (f.strategy.name, f.count)) = g.map (fun f => (f.strategy.name, f.count)) ↔
      f = g := by
  cases f <;> cases g <;> simp [PartitionFunction.eq_iff]

theorem beq_iff_agree : (a == b) = true ↔ a.Agree b := by
  rw [beq_iff_canonical]
  constructor
  · intro same
    -- apart from the bounds, the canonical form has the attributes of the column itself
    have each : ∀ {β : Type} (read : Column → β), read a.canonical = read b.canonical :=
      fun read => congrArg read same
    exact ⟨each name, each cardinality, each hasUnknownCardinality, each totalDocs,
      each dataType, each bitsPerElement, each maxLength, each fieldType, each isSorted,
      each hasNulls, each hasDictionary, each hasInvertedIndex, each hasFSTIndex,
      each isSingleValue, each isAutoGenerated, each isVirtual, each maxMultiValues,
      each totalEntries, each defaultNullValue, each timeUnit, each padding,
      Scalar.option_beq_iff_canonical.2 (each minValue),
      Scalar.option_beq_iff_canonical.2 (each maxValue),
      partitionFunction_eq_iff.2 (each partitionFunction), each partitionCount, each partitions,
      each dateTimeFormat, each dateTimeGranularity, each textIndexType, each fieldSpec⟩
  · intro agree
    simp only [canonical, mk.injEq]
    exact ⟨agree.name, agree.cardinality, agree.totalDocs, agree.dataType, agree.bitsPerElement,
      agree.maxLength, agree.fieldType, agree.isSorted, agree.hasNulls, agree.hasDictionary,
      agree.hasInvertedIndex, agree.hasFSTIndex, agree.isSingleValue, agree.isAutoGenerated,
      agree.isVirtual, agree.maxMultiValues, agree.totalEntries, agree.defaultNullValue,
      agree.timeUnit, agree.padding, Scalar.option_beq_iff_canonical.1 agree.minValue,
      Scalar.option_beq_iff_canonical.1 agree.maxValue,
      partitionFunction_eq_iff.1 agree.partitionFunction, agree.partitionCount,
      agree.partitions, agree.dateTimeFormat, agree.dateTimeGranularity, agree.textIndexType,
      agree.fieldSpec⟩

theorem attributes_canonical (c : Column) : c.canonical.attributes = c.attributes := by
  have bounds : ∀ (type : DataType) (x : Option Scalar),
      showBound type (x.map .canonical) = showBound type x := by
    intro type x
    cases x <;> simp [showBound]
  simp only [attributes, canonical, bounds]

@[simp] theorem display_canonical (c : Column) : c.canonical.display = c.display := by
  unfold display
  rw [attributes_canonical c]

@[simp] theorem jsonText_canonical (c : Column) : c.canonical.jsonText = c.jsonText := by
  have bounds : ∀ x : Option Scalar,
      Json.ofOption Scalar.json (x.map .canonical) = Json.ofOption Scalar.json x := by
    intro x
    cases x <;> simp [Json.ofOption]
  simp only [jsonText, json, canonical, bounds]

@[simp] theorem boundsOrder_canonical (c : Column) : c.canonical.boundsOrder = c.boundsOrder := by
  simp only [boundsOrder, canonical]
  cases c.minValue <;> cases c.maxValue <;> simp

/-- `==` on columns, whatever spelling of a name their partition functions were found by, is an
    equivalence.  It holds of two columns if and only if nothing that can be asked of them tells
    them apart; and then they are shown alike, their bounds are in the same order, and their
    partition functions number every value alike. -/
theorem beq_equivalence_congruence :
    Equivalence (fun a b : Column => (a == b) = true) ∧
    (∀ a b : Column, (a == b) = true ↔ a.Agree b) ∧
    (∀ a b : Column, (a == b) = true →
      a.display = b.display ∧ a.jsonText = b.jsonText ∧ a.boundsOrder = b.boundsOrder ∧
      ∀ value, a.partitionFunction.map (fun f => f.partition value) =
        b.partitionFunction.map fun f => f.partition value) ∧
    (∀ f : PartitionFunction, ∃ name count, PartitionFunction.resolve name count = .ok f) ∧
    ∀ name name' count count' f g, PartitionFunction.resolve name count = .ok f →
      PartitionFunction.resolve name' count' = .ok g →
      (f = g ↔ Text.SameLetters (Text.trim name.toList) (Text.trim name'.toList) ∧
        count = count') := by
  refine ⟨?_, fun _ _ => beq_iff_agree, ?_, ?_, ?_⟩
  · simp only [beq_iff_canonical]
    exact ⟨fun _ => rfl, Eq.symm, Eq.trans⟩
  · intro a b same
    have forms := beq_iff_canonical.1 same
    refine ⟨?_, ?_, ?_, ?_⟩
    · rw [← display_canonical a, forms, display_canonical]
    · rw [← jsonText_canonical a, forms, jsonText_canonical]
    · rw [← boundsOrder_canonical a, forms, boundsOrder_canonical]
    · intro value
      have functions : a.partitionFunction = b.partitionFunction :=
        partitionFunction_eq_iff.1 (beq_iff_agree.1 same).partitionFunction
      rw [functions]
  · intro f
    exact ⟨_, _, f.resolve_name⟩
  · intro _ _ _ _ _ _ first second
    exact PartitionFunction.eq_iff_of_resolve first second

/-- A column whose bounds are one number. -/
def between (x : Binary .single) : Column :=
  { sampleColumn with dataType := .float, minValue := some (.float x), maxValue := some (.float x) }

/-- Two patterns that are no numbers, one of them with a sign. -/
theorem beq_equivalence_congruence_nan :
    (between ⟨false, 0x7f800001⟩ == between ⟨true, 0x7fc00000⟩) = true ∧
    (between ⟨false, 0x7f800001⟩).display = (between ⟨true, 0x7fc00000⟩).display ∧
    (between ⟨false, 0x7f800001⟩).boundsOrder = (between ⟨true, 0x7fc00000⟩).boundsOrder := by
  have same : (between ⟨false, 0x7f800001⟩ == between ⟨true, 0x7fc00000⟩) = true := by
    decide
  obtain ⟨_, _, alike, _⟩ := beq_equivalence_congruence
  obtain ⟨shown, _, ordered, _⟩ := alike _ _ same
  exact ⟨same, shown, ordered⟩

end Column

end SegmentCatalog
