import SegmentCatalog.Binary.Json
import SegmentCatalog.Binary.Nearest
import SegmentCatalog.DecodeError
import SegmentCatalog.Text.Blank
import SegmentCatalog.Text.Hex
import SegmentCatalog.Text.Units

/-! # Typed values

A `Scalar` is one value of a stored data type, such as a bound of a column.

* `Scalar.parse` reads one from text, as the data type asks;
* `Scalar.display` and `Scalar.json` write one;
* `==` compares values of one type, with every "not a number" alike and the two zeros apart;
* `Scalar.compare?` orders them: numbers by value, strings and bytes by their bytes.  Values of
  different types, and whatever is not a number, cannot be compared.
-/

namespace SegmentCatalog

inductive Scalar where
  | int (n : Int32)
  | long (n : Int64)
  | float (x : Binary .single)
  | double (x : Binary .double)
  | string (s : String)
  | bytes (b : List UInt8)

namespace Scalar

def dataType : Scalar → DataType
  | int _ => .int
  | long _ => .long
  | float _ => .float
  | double _ => .double
  | string _ => .string
  | bytes _ => .bytes

def string? : Scalar → Option String
  | string s => some s
  | _ => none

def bytes? : Scalar → Option (List UInt8)
  | bytes b => some b
  | _ => none

/-! ## Reading -/

/-- Reads the value of type `type` that `property` of `column` holds.  White space around a
    number or around hexadecimal digits is dropped, in strings it counts. -/
def parse (type : DataType) (column property text : String) : Except DecodeError Scalar :=
  let key := columnKey column property
  let word := Text.trim text.toList
  let orElse {α : Type} (e : DecodeError) (x : Option α) (f : α → Scalar) :
      Except DecodeError Scalar :=
    match x with
    | some x => .ok (f x)
    | none => .error e
  match type with
  | .int => orElse (.malformedNumber key text) (Decimal.int32? word) int
  | .long => orElse (.malformedNumber key text) (Decimal.int64? word) long
  | .float => orElse (.malformedNumber key text) (Binary.ofText? .single word) float
  | .double => orElse (.malformedNumber key text) (Binary.ofText? .double word) double
  | .string => .ok (string text)
  | .bytes => orElse (.malformedHex key text) (Text.unhex? word) bytes
  | type => .error (.unsupportedBounds column type)

/-! ## Comparing -/

instance : BEq Scalar where
  beq
    | int m, int n => m == n
    | long m, long n => m == n
    | float x, float y => x == y
    | double x, double y => x == y
    | string s, string t => s == t
    | bytes b, bytes c => b == c
    | _, _ => false

/-- The order of words: by the first place in which they differ, a word after its beginnings. -/
def compareWords : List UInt8 → List UInt8 → Ordering
  | [], [] => .eq
  | [], _ :: _ => .lt
  | _ :: _, [] => .gt
  | b :: bs, c :: cs => (compare b.toNat c.toNat).then (compareWords bs cs)

def compare? : Scalar → Scalar → Option Ordering
  | int m, int n => some (compare m.toInt n.toInt)
  | long m, long n => some (compare m.toInt n.toInt)
  | float x, float y => x.compare? y
  | double x, double y => x.compare? y
  | string s, string t => some (compareWords (Text.utf8 s.toList) (Text.utf8 t.toList))
  | bytes b, bytes c => some (compareWords b c)
  | _, _ => none

/-! ## Writing -/

def display : Scalar → String
  | int n => Decimal.text n.toInt
  | long n => Decimal.text n.toInt
  | float x => x.display
  | double x => x.display
  | string s => s
  | bytes b => .ofList (Text.hex b)

/-- The JSON value: numbers as numbers, bytes as the text of their hexadecimal digits. -/
def json : Scalar → Json
  | int n => .ofInt n.toInt
  | long n => .ofInt n.toInt
  | float x => x.json .single
  | double x => x.json .double
  | string s => .string s
  | bytes b => .string (.ofList (Text.hex b))

/-- What is read for a type is of that type. -/
theorem dataType_of_parse {type : DataType} {column property text : String} {x : Scalar}
    (h : parse type column property text = .ok x) : x.dataType = type := by
  unfold parse at h
  cases type <;> simp only at h <;> first
    | (split at h <;> cases h <;> rfl)
    | (cases h <;> rfl)

end Scalar

end SegmentCatalog
