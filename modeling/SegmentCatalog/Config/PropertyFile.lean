import SegmentCatalog.Literal

/-! # The text of a properties file

A file is read in three steps: its lines are joined where a backslash continues them, each
line is split into a key and a value, and the value is split into items.

* `physicalLines` are the lines as they stand, `logicalLines` those that define something;
* `splitLine` cuts a line into key and value, `splitItems` a value at its commas;
* `Definition` is a line read so far, with all escapes resolved; `definitions` reads them all.

A backslash takes away the meaning of the character behind it wherever lines, keys and items end,
and escapes are resolved last.  Only the white space at the end of a value or of an item is dropped
whatever stands in front of it.
-/

namespace SegmentCatalog.PropertyFile

/-! ## Lines -/

/-- A line without the carriage return that belongs to its line feed. -/
def dropReturn (line : List Char) : List Char :=
  if line.getLast? = some '\r' then line.dropLast else line

/-- The lines of a text, without their line ends. -/
def physicalLines (text : List Char) : List (List Char) :=
  let pieces := Text.cutAt (· == '\n') text
  -- what follows the last line feed is a line unless it is empty, and keeps its return
  let unfinished := match pieces.getLast? with
    | none | some [] => []
    | some line => [line]
  pieces.dropLast.map dropReturn ++ unfinished

/-- Whether a line ends in an odd number of backslashes. -/
def continues (line : List Char) : Bool :=
  (line.reverse.takeWhile (· == '\\')).length % 2 == 1

/-- Whether a line defines nothing: it is empty or a comment. -/
def isRemark (line : List Char) : Bool :=
  match line with
  | [] => true
  | c :: _ => c == '#' || c == '!'

/-- Joins lines that are stripped at the left.  `pending` is the line being continued, without
    the backslash that continues it. -/
def join : Option (List Char) → List (List Char) → List (List Char)
  | none, [] => []
  | some line, [] => [line]
  | none, line :: rest =>
    if isRemark line then join none rest
    else if continues line then join (some line.dropLast) rest
    else line :: join none rest
  | some front, line :: rest =>
    -- neither blank lines nor comments count as such here
    let line := front ++ line
    if continues line then join (some line.dropLast) rest else line :: join none rest

/-- The lines that define something, each in one piece and without leading white space. -/
def logicalLines (text : List Char) : List (List Char) :=
  join none ((physicalLines text).map Text.trimStart)

/-! ## Keys and values -/

def isInlineBlank (c : Char) : Bool := c == ' ' || c == '\t'

def isSeparator (c : Char) : Bool := c == '=' || c == ':' || isInlineBlank c

/-- Splits a line in front of its first separator.  A backslash at the very end of the line
    belongs to neither part. -/
def splitKey : List Char → List Char × List Char
  | [] => ([], [])
  | ['\\'] => ([], [])
  | '\\' :: c :: rest =>
    let (key, rest) := splitKey rest
    ('\\' :: c :: key, rest)
  | c :: rest =>
    if isSeparator c then ([], c :: rest)
    else
      let (key, rest) := splitKey rest
      (c :: key, rest)

/-- A text without the equals sign or colon it may start with. -/
def dropSign : List Char → List Char
  | '=' :: rest => rest
  | ':' :: rest => rest
  | cs => cs

/-- The value behind a key: blanks, a sign and blanks are dropped in front of it, white space
    behind it. -/
def valueOf (cs : List Char) : List Char :=
  Text.trimEnd ((dropSign (cs.dropWhile isInlineBlank)).dropWhile isInlineBlank)

def splitLine (line : List Char) : List Char × List Char :=
  let (key, rest) := splitKey line
  (key, valueOf rest)

/-! ## Items -/

/-- Puts characters in front of the first of several parts. -/
def onFirst (front : List Char) : List (List Char) → List (List Char)
  | [] => [front]
  | part :: parts => (front ++ part) :: parts

/-- Cuts a value at every comma that no backslash protects. -/
def splitItems : List Char → List (List Char)
  | [] => [[]]
  | ['\\'] => [['\\']]
  | '\\' :: c :: rest => onFirst ['\\', c] (splitItems rest)
  | ',' :: rest => [] :: splitItems rest
  | c :: rest => onFirst [c] (splitItems rest)

/-! ## Definitions -/

/-- A key and its value, in one piece and as items. -/
structure Definition where
  key : String
  text : String
  items : List String
  deriving DecidableEq

/-- Reads a line; `none` if it has no key. -/
def readLine (line : List Char) : Except DecodeError (Option Definition) :=
  let (key, value) := splitLine line
  if key.isEmpty then .ok none
  else do
    -- a line with several ill-formed escapes is refused for the first of: key, items, value
    let key ← Literal.unescaped (.ofList key)
    let items ← (splitItems value).mapM fun item => Literal.unescaped (.ofList (Text.trim item))
    let text ← Literal.unescaped (.ofList value)
    return some { key, text, items }

/-- The definitions of a file in order, or the error of the first line that is refused. -/
def definitions (text : String) : Except DecodeError (List Definition) := do
  let lines ← (logicalLines text.toList).mapM readLine
  return lines.filterMap id

end SegmentCatalog.PropertyFile
