import SegmentCatalog.Json
import SegmentCatalog.Schema.DataType
import SegmentCatalog.Schema.FieldType
import SegmentCatalog.Schema.TimeUnit
import SegmentCatalog.Text.Quoted

/-! # Field specifications

What a schema says of a column: its name, its data type and what belongs to its role.

* `FieldSpec` has one form per role; the time column has a `TimeGranularity` for it;
* `FieldSpec.ofRole` takes from the attributes of a column those that belong to its role;
* `FieldSpec.diagnostic` and `FieldSpec.json` write one.

Only dimensions may hold several values per row (`isSingleValue`).
-/

namespace SegmentCatalog

/-- How the values of a time column count time. -/
structure TimeGranularity where
  dataType : DataType
  timeUnit : TimeUnit
  name : String
  deriving DecidableEq

inductive FieldSpec where
  | dimension (name : String) (dataType : DataType) (singleValue : Bool)
  | metric (name : String) (dataType : DataType)
  | time (incoming : TimeGranularity)
  | dateTime (name : String) (dataType : DataType) (format granularity : Option String)
  deriving DecidableEq

namespace FieldSpec

def name : FieldSpec → String
  | dimension name .. => name
  | metric name _ => name
  | time incoming => incoming.name
  | dateTime name .. => name

def dataType : FieldSpec → DataType
  | dimension _ type _ => type
  | metric _ type => type
  | time incoming => incoming.dataType
  | dateTime _ type .. => type

def fieldType : FieldSpec → FieldType
  | dimension .. => .dimension
  | metric .. => .metric
  | time _ => .time
  | dateTime .. => .dateTime

def isSingleValue : FieldSpec → Bool
  | dimension _ _ single => single
  | _ => true

/-- The specification of a column with the given attributes. -/
def ofRole (role : FieldType) (name : String) (type : DataType) (singleValue : Bool)
    (timeUnit : TimeUnit) (format granularity : Option String) : FieldSpec :=
  match role with
  | .dimension => dimension name type singleValue
  | .metric => metric name type
  | .time => time { dataType := type, timeUnit, name }
  | .dateTime => dateTime name type format granularity

section OfRole

variable (role : FieldType) (columnName : String) (type : DataType) (singleValue : Bool)
  (timeUnit : TimeUnit) (format granularity : Option String)

@[simp] theorem fieldType_ofRole :
    (ofRole role columnName type singleValue timeUnit format granularity).fieldType = role := by
  cases role <;> rfl

@[simp] theorem name_ofRole :
    (ofRole role columnName type singleValue timeUnit format granularity).name = columnName := by
  cases role <;> rfl

@[simp] theorem dataType_ofRole :
    (ofRole role columnName type singleValue timeUnit format granularity).dataType = type := by
  cases role <;> rfl

end OfRole

/-! ## Writing -/

/-- A text that may be absent, as diagnostics show it. -/
def showOption : Option String → String
  | none => "None"
  | some text => "Some(" ++ Text.quote text ++ ")"

def diagnostic (spec : FieldSpec) : String :=
  Text.record spec.fieldType.label <| match spec with
    | dimension name type single =>
      [("name", Text.quote name), ("data_type", type.label), ("single_value", Text.ofBool single)]
    | metric name type => [("name", Text.quote name), ("data_type", type.label)]
    | time incoming =>
      [("incoming", Text.record "TimeGranularitySpec"
        [("data_type", incoming.dataType.label), ("time_unit", incoming.timeUnit.label),
          ("name", Text.quote incoming.name)])]
    | dateTime name type format granularity =>
      [("name", Text.quote name), ("data_type", type.label), ("format", showOption format),
        ("granularity", showOption granularity)]

/-- The JSON object: the role first, then what belongs to it. -/
def json (spec : FieldSpec) : Json :=
  .object <| ("fieldType", .string spec.fieldType.name) :: match spec with
    | dimension name type single =>
      [("name", .string name), ("data_type", .string type.name), ("single_value", .bool single)]
    | metric name type => [("name", .string name), ("data_type", .string type.name)]
    | time incoming =>
      [("incoming", .object
        [("data_type", .string incoming.dataType.name),
          ("time_unit", .string incoming.timeUnit.name), ("name", .string incoming.name)])]
    | dateTime name type format granularity =>
      [("name", .string name), ("data_type", .string type.name),
        ("format", .ofOption .string format), ("granularity", .ofOption .string granularity)]

end FieldSpec

end SegmentCatalog
