import Mathlib.Data.List.Induction
import SegmentCatalog.Proofs.Decoding
import SegmentCatalog.Proofs.Keywords

/-! # Drafts of columns

A draft is put together by settings, in any order and some of them more than once.  What comes of
them is described without going through them one after another: each attribute has the argument of
the last setting of its own, and what it starts with if there is none (`ColumnDraft.described`).
One more setting makes of one description the next (`ColumnDraft.described_concat`), hence all of
them lead there (`ColumnDraft.applyAll_eq_described`).

So the order in which different attributes are set makes no difference, and
`ColumnDraft.build_of_last_settings` tells the column that is built, or what the draft lacks.
-/

namespace SegmentCatalog.ColumnDraft

variable {α : Type} {default : α} {pick : Setting → Option α} {settings others : List Setting}

/-! ## The last setting of an attribute -/

/-- The last of the arguments that `pick` takes from settings. -/
def lastOr (settings : List Setting) (default : α) (pick : Setting → Option α) : α :=
  (settings.filterMap pick).getLastD default

/-- Whether two settings are of one attribute. -/
def Setting.SameAttribute (s t : Setting) : Prop := s.ctorIdx = t.ctorIdx

instance (s : Setting) : DecidablePred s.SameAttribute :=
  fun t => inferInstanceAs (Decidable (s.ctorIdx = t.ctorIdx))

/-- Of each attribute the last settings agree, or there is none on either side. -/
def SameLast (settings others : List Setting) : Prop :=
  ∀ s : Setting,
    (settings.filter s.SameAttribute).getLast? = (others.filter s.SameAttribute).getLast?

theorem lastOr_concat (s : Setting) :
    lastOr (settings ++ [s]) default pick = (pick s).getD (lastOr settings default pick) := by
  rw [lastOr, List.filterMap_append]
  cases picked : pick s with
  | none => simp [picked, lastOr]
  | some a => simp [picked]

/-- An argument that the settings of one attribute have, and no others, is that of the last of
    them. -/
theorem lastOr_eq_getLast? {s : Setting} (own : ∀ t, (pick t).isSome = decide (s.SameAttribute t)) :
    lastOr settings default pick =
      ((settings.filter s.SameAttribute).getLast?.bind pick).getD default := by
  induction settings using List.reverseRecOn with
  | nil => rfl
  | append_singleton settings t ih =>
    rw [lastOr_concat, List.filter_append, ih]
    have picked := own t
    cases chosen : pick t with
    | none =>
      rw [chosen] at picked
      simp [← picked]
    | some a =>
      rw [chosen] at picked
      simp [← picked, chosen]

theorem lastOr_congr (same : SameLast settings others) (s : Setting)
    (own : ∀ t, (pick t).isSome = decide (s.SameAttribute t)) :
    lastOr settings default pick = lastOr others default pick := by
  rw [lastOr_eq_getLast? own, lastOr_eq_getLast? own, same s]

/-! ## Descriptions -/

/-- The draft with the last argument of each attribute. -/
def described (settings : List Setting) : ColumnDraft where
  name := lastOr settings "" fun | .name s => some s | _ => none
  cardinality := lastOr settings 0 fun | .cardinality n => some n | _ => none
  totalDocs := lastOr settings 0 fun | .totalDocs n => some n | _ => none
  dataType := lastOr settings none fun | .dataType t => some (some t.stored) | _ => none
  bitsPerElement := lastOr settings 0 fun | .bitsPerElement n => some n | _ => none
  maxLength := lastOr settings 0 fun | .maxLength n => some n | _ => none
  fieldType := lastOr settings none fun | .fieldType t => some (some t) | _ => none
  isSorted := lastOr settings false fun | .isSorted b => some b | _ => none
  hasNulls := lastOr settings false fun | .hasNulls b => some b | _ => none
  hasDictionary := lastOr settings false fun | .hasDictionary b => some b | _ => none
  hasInvertedIndex := lastOr settings false fun | .hasInvertedIndex b => some b | _ => none
  hasFSTIndex := lastOr settings false fun | .hasFSTIndex b => some b | _ => none
  isSingleValue := lastOr settings false fun | .isSingleValue b => some b | _ => none
  isAutoGenerated := lastOr settings false fun | .isAutoGenerated b => some b | _ => none
  isVirtual := lastOr settings false fun | .isVirtual b => some b | _ => none
  maxMultiValues := lastOr settings 0 fun | .maxMultiValues n => some n | _ => none
  totalEntries := lastOr settings 0 fun | .totalEntries n => some n | _ => none
  defaultNullValue := lastOr settings none fun | .defaultNullValue s => some s | _ => none
  timeUnit := lastOr settings .days fun | .timeUnit u => some u | _ => none
  padding := lastOr settings '%' fun | .padding c => some c | _ => none
  minValue := lastOr settings none fun | .minValue x => some (some x) | _ => none
  maxValue := lastOr settings none fun | .maxValue x => some (some x) | _ => none
  partitionFunction :=
    lastOr settings none fun | .partitionFunction f => some (some f) | _ => none
  partitionCount := lastOr settings 0 fun | .partitionCount n => some n | _ => none
  partitions := lastOr settings [] fun | .partitions ids => some ids | _ => none
  dateTimeFormat := lastOr settings none fun | .dateTimeFormat s => some (some s) | _ => none
  dateTimeGranularity :=
    lastOr settings none fun | .dateTimeGranularity s => some (some s) | _ => none
  textIndexType := lastOr settings "NONE" fun | .textIndexType s => some s | _ => none

/-- A setting puts its argument in for its attribute and leaves every other as it was. -/
theorem described_concat (settings : List Setting) (s : Setting) :
    described (settings ++ [s]) = (described settings).apply s := by
  simp only [described, lastOr_concat]
  cases s <;> rfl

theorem applyAll_eq_described (settings : List Setting) :
    empty.applyAll settings = described settings := by
  induction settings using List.reverseRecOn with
  | nil => rfl
  | append_singleton settings s ih =>
    rw [applyAll_append, ih, described_concat, applyAll_cons, applyAll_nil]

theorem described_congr (same : SameLast settings others) :
    described settings = described others := by
  -- one setting stands for all of its attribute, whatever its argument
  have last {α : Type} {default : α} {pick : Setting → Option α} (s : Setting)
      (own : ∀ t, (pick t).isSome = decide (s.SameAttribute t)) :
      lastOr settings default pick = lastOr others default pick := lastOr_congr same s own
  simp only [described, ColumnDraft.mk.injEq]
  refine ⟨last (.name "") ?_, last (.cardinality 0) ?_, last (.totalDocs 0) ?_,
    last (.dataType .int) ?_, last (.bitsPerElement 0) ?_, last (.maxLength 0) ?_,
    last (.fieldType .metric) ?_, last (.isSorted true) ?_, last (.hasNulls true) ?_,
    last (.hasDictionary true) ?_, last (.hasInvertedIndex true) ?_, last (.hasFSTIndex true) ?_,
    last (.isSingleValue true) ?_, last (.isAutoGenerated true) ?_, last (.isVirtual true) ?_,
    last (.maxMultiValues 0) ?_, last (.totalEntries 0) ?_, last (.defaultNullValue none) ?_,
    last (.timeUnit .days) ?_, last (.padding '%') ?_, last (.minValue (.int 0)) ?_,
    last (.maxValue (.int 0)) ?_, last (.partitionFunction ⟨.modulo, 1, by decide⟩) ?_,
    last (.partitionCount 0) ?_, last (.partitions []) ?_, last (.dateTimeFormat "") ?_,
    last (.dateTimeGranularity "") ?_, last (.textIndexType "") ?_⟩
  all_goals
    intro t
    cases t <;> rfl

/-! ## Building -/

/-- What is wrong with a draft that makes no column: the first of a text index type that is unknown,
    no data type and no field type. -/
inductive Lacks (draft : ColumnDraft) : DecodeError → Prop
  | textIndexType :
      Vocabulary.find? TextIndexType draft.textIndexType = none →
      Lacks draft (.unrecognized "text index type" draft.textIndexType)
  | dataType {index : TextIndexType} :
      Vocabulary.find? TextIndexType draft.textIndexType = some index →
      draft.dataType = none → Lacks draft (.missingProperty (draft.name ++ ".dataType"))
  | fieldType {index : TextIndexType} {type : DataType} :
      Vocabulary.find? TextIndexType draft.textIndexType = some index →
      draft.dataType = some type → draft.fieldType = none → Lacks draft .missingFieldType

theorem key_dataType (column : String) : Property.dataType.key column = column ++ ".dataType" := by
  rw [Property.key, columnKey, String.append_assoc]
  rfl

theorem build_eq_error_iff {draft : ColumnDraft} {e : DecodeError} :
    draft.build = .error e ↔ draft.Lacks e := by
  rw [build, Literal.member]
  constructor
  · intro failed
    cases named : Vocabulary.find? TextIndexType draft.textIndexType with
    | none =>
      rw [named] at failed
      cases failed
      exact .textIndexType named
    | some index =>
      cases typed : draft.dataType with
      | none =>
        rw [named, typed] at failed
        cases failed
        rw [key_dataType]
        exact .dataType named typed
      | some type =>
        cases roled : draft.fieldType with
        | none =>
          rw [named, typed, roled] at failed
          cases failed
          exact .fieldType named typed roled
        | some role =>
          rw [named, typed, roled] at failed
          cases failed
  · intro lacks
    cases lacks with
    | textIndexType unknown => rw [unknown]; rfl
    | dataType named untyped =>
      rw [named, untyped, ← key_dataType]
      rfl
    | fieldType named typed unroled => rw [named, typed, unroled]; rfl

/-- What comes of settings that start from nothing depends on the last one of each attribute alone,
    not on the order in which different attributes are set.  Either the draft lacks something, or it
    makes a column that has the last argument of each attribute, or else what the attribute starts
    with; the data type is the stored one, the text index type the one that is named, and the field
    specification that of its role. -/
theorem build_of_last_settings (settings : List Setting) :
    (∀ others, SameLast settings others →
      (empty.applyAll settings).build = (empty.applyAll others).build) ∧
    (∀ e, (empty.applyAll settings).build = .error e ↔ (described settings).Lacks e) ∧
    ∀ c, (empty.applyAll settings).build = .ok c ↔ ∃ textIndexType dataType fieldType,
      Vocabulary.find? TextIndexType (described settings).textIndexType = some textIndexType ∧
      (described settings).dataType = some dataType ∧
      (described settings).fieldType = some fieldType ∧
      c = { described settings with
        dataType, fieldType, textIndexType
        fieldSpec := FieldSpec.ofRole fieldType (described settings).name dataType
          (described settings).isSingleValue (described settings).timeUnit
          (described settings).dateTimeFormat (described settings).dateTimeGranularity } := by
  refine ⟨?_, ?_, ?_⟩
  · intro others same
    rw [applyAll_eq_described, applyAll_eq_described, described_congr same]
  · intro e
    rw [applyAll_eq_described]
    exact build_eq_error_iff
  · intro c
    rw [applyAll_eq_described, build_eq_ok_iff]
    simp only [Literal.member_eq_ok_iff_find?]

/-- A time column whose name is set twice. -/
def renamed : List Setting :=
  [.name "old", .fieldType .time, .timeUnit .hours, .dataType .boolean, .name "at"]

/-- The same column, with its attributes in another order and another one set twice. -/
def rearranged : List Setting :=
  [.timeUnit .days, .name "at", .dataType .boolean, .timeUnit .hours, .fieldType .time]

theorem build_of_last_settings_rearranged :
    (SameLast renamed rearranged ∧
      (empty.applyAll renamed).build = (empty.applyAll rearranged).build) ∧
    (∃ c, (empty.applyAll renamed).build = .ok c ∧
      c.fieldSpec = .time { dataType := .int, timeUnit := .hours, name := "at" }) ∧
    (empty.applyAll (renamed.take 3)).build = .error (.missingProperty "old.dataType") := by
  have same : SameLast renamed rearranged := by
    intro s
    cases s <;> rfl
  obtain ⟨orderless, _, built⟩ := build_of_last_settings renamed
  refine ⟨⟨same, orderless _ same⟩, ⟨_, (built _).2 ⟨.none, .int, .time, ?_, rfl, rfl, rfl⟩, rfl⟩,
    ?_⟩
  · decide
  · apply ((build_of_last_settings (renamed.take 3)).2.1 _).2
    exact Lacks.dataType (show _ = some TextIndexType.none by decide) rfl

end SegmentCatalog.ColumnDraft
