import SegmentCatalog.Config.Keys
import SegmentCatalog.Decimal.Integer
import SegmentCatalog.Schema.DataType
import SegmentCatalog.Text.Quoted

/-! # What can go wrong

`DecodeError` lists the causes for which the metadata of a column, or a part of it, is
refused.  Each is fatal: nothing is decoded past the first one.

* `message` is the text for a reader;
* `label` is the name of the cause;
* `diagnostic` is the cause with its particulars, as the command line prints it.
-/

namespace SegmentCatalog

/-- Why the text of a file cannot be had. -/
inductive ReadFault where
  | notFound
  | notText
  deriving DecidableEq

inductive DecodeError where
  | missingProperty (key : String)
  /-- `value` is no keyword of the vocabulary called `kind`. -/
  | unrecognized (kind value : String)
  | malformedNumber (key value : String)
  | unsupportedBounds (column : String) (type : DataType)
  | missingFieldType
  /-- The padding text `raw` spells no character. -/
  | emptyPadding (raw : String)
  /-- One bound is recorded without the other. -/
  | mismatchedBounds (column : String) (present : BoundSide)
  | malformedHex (key value : String)
  | malformedBoolean (key value : String)
  | unknownPartitionFunction (name : String)
  | invalidPartitionCount (count : Int32)
  | malformedPartitionValue (value : String)
  | invalidEscape (raw : String)
  | unreadable (fault : ReadFault)
  deriving DecidableEq

namespace ReadFault

def message : ReadFault → String
  | .notFound => "No such file or directory (os error 2)"
  | .notText => "stream did not contain valid UTF-8"

def diagnostic : ReadFault → String
  | .notFound => "Os \x7b code: 2, kind: NotFound, message: \"No such file or directory\" \x7d"
  | .notText =>
    "Error \x7b kind: InvalidData, message: \"stream did not contain valid UTF-8\" \x7d"

end ReadFault

namespace DecodeError

open Text (quote)

def message : DecodeError → String
  | missingProperty key => "Missing required property: " ++ key
  | unrecognized kind value => "Unrecognized " ++ kind ++ ": " ++ value
  | malformedNumber key value => "Malformed numeric value for " ++ key ++ ": " ++ quote value
  | unsupportedBounds column type =>
    "Unsupported data type: " ++ type.name ++ " for column: " ++ column
  | missingFieldType => "Unsupported field type: null"
  | emptyPadding raw =>
    "Invalid padding character: " ++ quote raw ++ " decodes to an empty string"
  | mismatchedBounds column present =>
    "Column " ++ column ++ " has " ++ present.property.name ++ " but no " ++
      present.other.property.name
  | malformedHex key value => "Malformed hex value for " ++ key ++ ": " ++ quote value
  | malformedBoolean key value => "Malformed boolean value for " ++ key ++ ": " ++ quote value
  | unknownPartitionFunction name => "Unknown partition function: " ++ name
  | invalidPartitionCount count => "Invalid number of partitions: " ++ Decimal.text count.toInt
  | malformedPartitionValue value => "Malformed partition value: " ++ quote value
  | invalidEscape raw => "Invalid escape sequence in " ++ quote raw
  | unreadable fault => "IO error: " ++ fault.message

def label : DecodeError → String
  | missingProperty .. => "MissingRequiredProperty"
  | unrecognized .. => "UnrecognizedEnumValue"
  | malformedNumber .. => "MalformedNumericLiteral"
  | unsupportedBounds .. => "UnsupportedDataTypeForBounds"
  | missingFieldType => "UnsupportedFieldType"
  | emptyPadding .. => "InvalidPaddingCharacter"
  | mismatchedBounds .. => "MismatchedBounds"
  | malformedHex .. => "MalformedHex"
  | malformedBoolean .. => "MalformedBoolean"
  | unknownPartitionFunction .. => "UnknownPartitionFunction"
  | invalidPartitionCount .. => "InvalidNumPartitions"
  | malformedPartitionValue .. => "MalformedPartitionValue"
  | invalidEscape .. => "InvalidEscape"
  | unreadable .. => "Io"

/-- The particulars of a cause: names and shown values. -/
def particulars : DecodeError → List (String × String)
  | missingProperty key => [("key", quote key)]
  | unrecognized kind value => [("kind", quote kind), ("value", quote value)]
  | malformedNumber key value => [("key", quote key), ("value", quote value)]
  | unsupportedBounds column type => [("column", quote column), ("data_type", type.label)]
  | missingFieldType => [("field_type", quote "null")]
  | emptyPadding raw => [("raw", quote raw)]
  | mismatchedBounds column present =>
    [("column", quote column), ("present", quote present.property.name),
      ("missing", quote present.other.property.name)]
  | malformedHex key value => [("key", quote key), ("value", quote value)]
  | malformedBoolean key value => [("key", quote key), ("value", quote value)]
  | unknownPartitionFunction name => [("name", quote name)]
  | invalidPartitionCount count => [("num_partitions", Decimal.text count.toInt)]
  | malformedPartitionValue value => [("value", quote value)]
  | invalidEscape raw => [("raw", quote raw)]
  | unreadable _ => []

def diagnostic : DecodeError → String
  | unreadable fault => "Io(" ++ fault.diagnostic ++ ")"
  | e => Text.record e.label e.particulars

end DecodeError

end SegmentCatalog
