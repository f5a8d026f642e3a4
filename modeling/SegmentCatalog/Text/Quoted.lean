import SegmentCatalog.Text.Printable

/-! # Quoted text

Text and characters as diagnostics show them: between quotes, with a backslash before the
quote and the backslash, short escapes for four control characters, and every other
character that cannot be shown written by its number.

* `escapeIn` is the written form of one character between quotes of a given kind;
* `quote` and `quoteChar` are a text in double quotes and a character in single quotes;
* `record` is a name with named fields, `ofBool` a truth value.
-/

namespace SegmentCatalog.Text

/-- A character by its number: a backslash, a u, and the hexadecimal digits in braces. -/
def numeric (c : Char) : List Char :=
  ['\\', 'u', '{'] ++ Nat.toDigits 16 c.toNat ++ ['}']

/-- The written form of `c` between two `mark`s. -/
def escapeIn (mark c : Char) : List Char :=
  match c with
  | '\x00' => ['\\', '0']
  | '\t' => ['\\', 't']
  | '\r' => ['\\', 'r']
  | '\n' => ['\\', 'n']
  | '\\' => ['\\', '\\']
  | c =>
    if c = mark then ['\\', c]
    else if isPrintable c then [c]
    else numeric c

def quote (text : String) : String :=
  .ofList ('\x22' :: text.toList.flatMap (escapeIn '\x22') ++ ['\x22'])

def quoteChar (c : Char) : String :=
  .ofList ('\x27' :: escapeIn '\x27' c ++ ['\x27'])

def ofBool : Bool → String
  | true => "true"
  | false => "false"

/-- A name with the fields that belong to it, in braces. -/
def record (name : String) (fields : List (String × String)) : String :=
  name ++ " \x7b " ++ ", ".intercalate (fields.map fun (field, shown) => field ++ ": " ++ shown) ++
    " \x7d"

end SegmentCatalog.Text
