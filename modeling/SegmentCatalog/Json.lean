import SegmentCatalog.Decimal.Integer

/-! # JSON text

`Json` is a value with its object fields in the order they are written.

* `Json.compact` writes it on one line without blanks;
* `Json.pretty` writes one item or field per line, indented by two blanks per level.

Both are `Json.write`, which takes the depth to indent by, `none` for no line breaks at all.
In strings only quotes, backslashes and control characters below the blank are escaped.
-/

namespace SegmentCatalog

inductive Json where
  | null
  | bool (b : Bool)
  | number (text : List Char)
  | string (s : String)
  | array (items : List Json)
  | object (fields : List (String × Json))

namespace Json

def ofInt (n : Int) : Json := .number (Decimal.ofInt n)

def ofOption {α : Type} (f : α → Json) : Option α → Json
  | none => .null
  | some x => f x

/-- The written form of one character of a string. -/
def escapeChar (c : Char) : List Char :=
  match c with
  | '\x22' => ['\\', '\x22']
  | '\\' => ['\\', '\\']
  | '\x08' => ['\\', 'b']
  | '\x0c' => ['\\', 'f']
  | '\n' => ['\\', 'n']
  | '\r' => ['\\', 'r']
  | '\t' => ['\\', 't']
  | c =>
    if c.toNat < 0x20 then
      ['\\', 'u', '0', '0', Nat.digitChar (c.toNat / 16), Nat.digitChar (c.toNat % 16)]
    else [c]

def quoted (s : String) : List Char :=
  '\x22' :: s.toList.flatMap escapeChar ++ ['\x22']

/-- The break before an item at the given depth. -/
def lineBreak : Option Nat → List Char
  | none => []
  | some depth => '\n' :: List.replicate (2 * depth) ' '

def colon : Option Nat → List Char
  | none => [':']
  | some _ => [':', ' ']

mutual

/-- The text of a value whose line is indented by `depth`. -/
def write (depth : Option Nat) : Json → List Char
  | .null => ['n', 'u', 'l', 'l']
  | .bool true => ['t', 'r', 'u', 'e']
  | .bool false => ['f', 'a', 'l', 's', 'e']
  | .number text => text
  | .string s => quoted s
  | .array [] => ['[', ']']
  | .array (x :: items) =>
    '[' :: writeItems (depth.map (· + 1)) (x :: items) ++ lineBreak depth ++ [']']
  | .object [] => ['{', '}']
  | .object (field :: fields) =>
    '{' :: writeFields (depth.map (· + 1)) (field :: fields) ++ lineBreak depth ++ ['}']

/-- Items, each on its own line, with commas between them. -/
def writeItems (depth : Option Nat) : List Json → List Char
  | [] => []
  | [x] => lineBreak depth ++ write depth x
  | x :: y :: items => lineBreak depth ++ write depth x ++ ',' :: writeItems depth (y :: items)

/-- Fields, each on its own line, with commas between them. -/
def writeFields (depth : Option Nat) : List (String × Json) → List Char
  | [] => []
  | [(name, x)] => lineBreak depth ++ quoted name ++ colon depth ++ write depth x
  | (name, x) :: y :: fields =>
    lineBreak depth ++ quoted name ++ colon depth ++ write depth x ++
      ',' :: writeFields depth (y :: fields)

end

def compact (x : Json) : String := .ofList (x.write none)

def pretty (x : Json) : String := .ofList (x.write (some 0))

end Json

end SegmentCatalog
