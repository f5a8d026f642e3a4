import SegmentCatalog.Column.Json
import SegmentCatalog.Column.Display
import SegmentCatalog.CommandLine.Arguments
import SegmentCatalog.Segment

/-! # What the commands print

* `Outcome` is the end of a call: the exit code and what is printed on either stream;
* `describe`, `listColumns` and `verify` are the commands, on the file that was named;
* `run` carries out a call, given the contents of files by name.

The first two print nothing on the standard stream when the file cannot be decoded; `verify`
has announced the file by then, and names every column whose bounds are out of order.
-/

namespace SegmentCatalog.CommandLine

structure Outcome where
  exit : UInt32 := 0
  stdout : String := ""
  stderr : String := ""
  deriving DecidableEq

/-- The contents of the files there are. -/
abbrev Files := String → Option ByteArray

def errorLine (cause : String) : String := "Error: " ++ cause ++ "\n"

def failure (cause : String) : Outcome := { exit := 1, stderr := errorLine cause }

/-! ## describe -/

/-- The columns that a call of `describe` is about. -/
def select (segment : Segment) : Option String → Option (List Column)
  | none => some segment.columns
  | some name => (segment.find? name).map fun c => [c]

/-- Columns in full, as text one after the other or as one JSON array. -/
def describeColumns (json : Bool) (columns : List Column) : String :=
  if json then (Json.array (columns.map Column.json)).pretty ++ "\n"
  else String.join (columns.map fun c => c.display ++ "\n")

def describe (file : Option ByteArray) (column : Option String) (json : Bool) : Outcome :=
  match Segment.load file with
  | .error e => failure e.diagnostic
  | .ok segment =>
    match select segment column with
    | some columns => { stdout := describeColumns json columns }
    | none => failure (Text.quote ("Column not found: " ++ column.getD ""))

/-! ## columns -/

/-- A text filled up with blanks at the right to at least `width` characters. -/
def padRight (width : Nat) (text : String) : String :=
  text ++ .ofList (List.replicate (width - text.length) ' ')

def padLeft (width : Nat) (text : String) : String :=
  .ofList (List.replicate (width - text.length) ' ') ++ text

def tableRow (name type role cardinality : String) : String :=
  padRight 20 name ++ " " ++ padRight 8 type ++ " " ++ padRight 10 role ++ " " ++
    padLeft 12 cardinality ++ "\n"

def cardinalityText (c : Column) : String :=
  if c.hasUnknownCardinality then "unknown" else Decimal.text c.cardinality.toInt

def columnRow (c : Column) : String :=
  tableRow c.name c.dataType.name c.fieldType.name (cardinalityText c)

def countText (segment : Segment) : String :=
  "(" ++ Decimal.text segment.size ++ " columns)"

def table (segment : Segment) : String :=
  tableRow "COLUMN" "TYPE" "ROLE" "CARDINALITY" ++ .ofList (List.replicate 53 '-') ++ "\n" ++
    String.join (segment.columns.map columnRow) ++ "\n" ++ countText segment ++ "\n"

def listColumns (file : Option ByteArray) : Outcome :=
  match Segment.load file with
  | .error e => failure e.diagnostic
  | .ok segment => { stdout := table segment }

/-! ## verify -/

def disorderLine (c : Column) : String :=
  errorLine ("column " ++ c.name ++ " has minValue > maxValue")

def verify (path : String) (file : Option ByteArray) : Outcome :=
  let announced := "Verifying " ++ path ++ "... "
  match Segment.load file with
  | .error e => { exit := 1, stdout := announced ++ "FAILED\n", stderr := errorLine e.message }
  | .ok segment =>
    match segment.columns.filter (!·.isVerified) with
    | [] => { stdout := announced ++ "OK " ++ countText segment ++ "\n" }
    | offending =>
      { exit := 1, stdout := announced ++ "FAILED\n"
        stderr := String.join (offending.map disorderLine) }

/-! ## A call -/

def versionText : String := "alice-column-meta 1.0.0\n"

def usageText : String :=
  "Usage: alice-column-meta <COMMAND>\n\n" ++
  "Commands:\n" ++
  "  describe <INPUT> [-c, --column <COLUMN>] [--json]\n" ++
  "  columns <INPUT>\n" ++
  "  verify <INPUT>\n"

def execute (files : Files) : Command → Outcome
  | .describe input column json => describe (files input) column json
  | .columns input => listColumns (files input)
  | .verify input => verify input (files input)

/-- Carries out a call with the given arguments. -/
def run (files : Files) (args : List String) : Outcome :=
  match Request.ofArguments args with
  | .run command => execute files command
  | .help => { stdout := usageText }
  | .version => { stdout := versionText }
  | .misuse => { exit := 2, stderr := usageText }

end SegmentCatalog.CommandLine
