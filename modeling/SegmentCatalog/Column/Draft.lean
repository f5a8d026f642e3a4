import SegmentCatalog.Column.Basic
import SegmentCatalog.Config.Keys
import SegmentCatalog.Literal

/-! # Column metadata in the making

A `ColumnDraft` holds what is known of a column so far; everything but the data type and the
field type has a default.

* `ColumnDraft.Setting` is one attribute with its value, `ColumnDraft.apply` puts it in, and
  `ColumnDraft.applyAll` a list of them;
* `ColumnDraft.build` makes the column and what the schema says of it.

The data type is stored as its physical type.  The name of the text index type is kept as it
is and read only by `build`, before anything else is looked at.
-/

namespace SegmentCatalog

structure ColumnDraft where
  name : String := ""
  cardinality : Int32 := 0
  totalDocs : Int32 := 0
  dataType : Option DataType := none
  bitsPerElement : Int32 := 0
  maxLength : Int32 := 0
  fieldType : Option FieldType := none
  isSorted : Bool := false
  hasNulls : Bool := false
  hasDictionary : Bool := false
  hasInvertedIndex : Bool := false
  hasFSTIndex : Bool := false
  isSingleValue : Bool := false
  isAutoGenerated : Bool := false
  isVirtual : Bool := false
  maxMultiValues : Int32 := 0
  totalEntries : Int32 := 0
  defaultNullValue : Option String := none
  timeUnit : TimeUnit := default
  padding : Char := defaultPadding
  minValue : Option Scalar := none
  maxValue : Option Scalar := none
  partitionFunction : Option PartitionFunction := none
  partitionCount : Int32 := 0
  partitions : PartitionIds := []
  dateTimeFormat : Option String := none
  dateTimeGranularity : Option String := none
  textIndexType : String := TextIndexType.default.name

namespace ColumnDraft

def empty : ColumnDraft := {}

/-! ## Settings -/

/-- An attribute and the value it is to have. -/
inductive Setting where
  | name (s : String)
  | cardinality (n : Int32)
  | totalDocs (n : Int32)
  | dataType (t : DataType)
  | bitsPerElement (n : Int32)
  | maxLength (n : Int32)
  | fieldType (t : FieldType)
  | isSorted (b : Bool)
  | hasNulls (b : Bool)
  | hasDictionary (b : Bool)
  | hasInvertedIndex (b : Bool)
  | hasFSTIndex (b : Bool)
  | isSingleValue (b : Bool)
  | isAutoGenerated (b : Bool)
  | isVirtual (b : Bool)
  | maxMultiValues (n : Int32)
  | totalEntries (n : Int32)
  | defaultNullValue (s : Option String)
  | timeUnit (u : TimeUnit)
  | padding (c : Char)
  | minValue (x : Scalar)
  | maxValue (x : Scalar)
  | partitionFunction (f : PartitionFunction)
  | partitionCount (n : Int32)
  | partitions (ids : PartitionIds)
  | dateTimeFormat (s : String)
  | dateTimeGranularity (s : String)
  | textIndexType (s : String)

def apply (draft : ColumnDraft) : Setting → ColumnDraft
  | .name s => { draft with name := s }
  | .cardinality n => { draft with cardinality := n }
  | .totalDocs n => { draft with totalDocs := n }
  | .dataType t => { draft with dataType := some t.stored }
  | .bitsPerElement n => { draft with bitsPerElement := n }
  | .maxLength n => { draft with maxLength := n }
  | .fieldType t => { draft with fieldType := some t }
  | .isSorted b => { draft with isSorted := b }
  | .hasNulls b => { draft with hasNulls := b }
  | .hasDictionary b => { draft with hasDictionary := b }
  | .hasInvertedIndex b => { draft with hasInvertedIndex := b }
  | .hasFSTIndex b => { draft with hasFSTIndex := b }
  | .isSingleValue b => { draft with isSingleValue := b }
  | .isAutoGenerated b => { draft with isAutoGenerated := b }
  | .isVirtual b => { draft with isVirtual := b }
  | .maxMultiValues n => { draft with maxMultiValues := n }
  | .totalEntries n => { draft with totalEntries := n }
  | .defaultNullValue s => { draft with defaultNullValue := s }
  | .timeUnit u => { draft with timeUnit := u }
  | .padding c => { draft with padding := c }
  | .minValue x => { draft with minValue := some x }
  | .maxValue x => { draft with maxValue := some x }
  | .partitionFunction f => { draft with partitionFunction := some f }
  | .partitionCount n => { draft with partitionCount := n }
  | .partitions ids => { draft with partitions := ids }
  | .dateTimeFormat s => { draft with dateTimeFormat := some s }
  | .dateTimeGranularity s => { draft with dateTimeGranularity := some s }
  | .textIndexType s => { draft with textIndexType := s }

def applyAll (draft : ColumnDraft) (settings : List Setting) : ColumnDraft :=
  settings.foldl apply draft

@[simp] theorem applyAll_nil (draft : ColumnDraft) : draft.applyAll [] = draft := rfl

@[simp] theorem applyAll_cons (draft : ColumnDraft) (s : Setting) (settings : List Setting) :
    draft.applyAll (s :: settings) = (draft.apply s).applyAll settings := rfl

theorem applyAll_append (draft : ColumnDraft) (first second : List Setting) :
    draft.applyAll (first ++ second) = (draft.applyAll first).applyAll second :=
  List.foldl_append ..

/-! ## Building -/

/-- The column that a draft describes, or what it lacks: a known text index type, then a data
    type, then a field type. -/
def build (draft : ColumnDraft) : Except DecodeError Column := do
  let textIndexType ← Literal.member TextIndexType draft.textIndexType
  let some dataType := draft.dataType
    | throw (.missingProperty (Property.dataType.key draft.name))
  let some fieldType := draft.fieldType
    | throw .missingFieldType
  let fieldSpec := FieldSpec.ofRole fieldType draft.name dataType draft.isSingleValue
    draft.timeUnit draft.dateTimeFormat draft.dateTimeGranularity
  return { draft with dataType, fieldType := fieldSpec.fieldType, textIndexType, fieldSpec }

end ColumnDraft

end SegmentCatalog
