import SegmentCatalog.DecodeError
import SegmentCatalog.Text.Blank
import SegmentCatalog.Text.Case
import SegmentCatalog.Text.Escape

/-! # Typed values from text

How the text of a property is read as a value, and the error it is refused with.  White
space around a value does not matter, and an error shows the text as it was given.

* `Literal.unescaped` reads backslash escapes;
* `Literal.member` reads a keyword of a vocabulary;
* `Literal.int32` and `Literal.boolean` read the value stored under a key.
-/

namespace SegmentCatalog.Literal

/-- The text that `raw` spells with backslash escapes. -/
def unescaped (raw : String) : Except DecodeError String :=
  match Text.unescape? raw.toList with
  | some cs => .ok (.ofList cs)
  | none => .error (.invalidEscape raw)

/-- The member of a vocabulary that `text` names. -/
def member (α : Type) [Vocabulary α] (text : String) : Except DecodeError α :=
  match Vocabulary.find? α text with
  | some x => .ok x
  | none => .error (.unrecognized (Vocabulary.kind α) text)

def int32 (key value : String) : Except DecodeError Int32 :=
  match Decimal.int32? (Text.trim value.toList) with
  | some n => .ok n
  | none => .error (.malformedNumber key value)

def trueWords : List String := ["true", "yes", "on", "y", "t"]

def falseWords : List String := ["false", "no", "off", "n", "f"]

/-- The truth value that a word stands for, letter case and surrounding white space apart. -/
def boolean? (value : String) : Option Bool :=
  let word := String.ofList (Text.lower (Text.trim value.toList))
  if word ∈ trueWords then some true
  else if word ∈ falseWords then some false
  else none

def boolean (key value : String) : Except DecodeError Bool :=
  match boolean? value with
  | some b => .ok b
  | none => .error (.malformedBoolean key value)

end SegmentCatalog.Literal
