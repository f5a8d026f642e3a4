import SegmentCatalog.Literal

/-! # Configurations

What decoding needs to know of a mapping from keys to values, however it is stored: the
value as stored, the value with its references replaced, and the value as a list.

* `Config` is that view;
* `Config.contains`, `Config.textOr`, `Config.required`, `Config.int`, `Config.boolean` and
  `Config.booleanOr` are the ways to read a key that decoding uses.

A required key that is absent is an error of its own, and a value is only looked at when it
is present (`required_of_absent`, `int_of_present`, `boolean_of_present`).
-/

namespace SegmentCatalog

/-- A read-only view of a configuration. -/
structure Config where
  /-- The value as stored. -/
  raw? : String → Option String
  /-- The value with references replaced. -/
  text? : String → Option String
  /-- The items of the value, none when the key is absent. -/
  list : String → List String

namespace Config

variable (config : Config)

def contains (key : String) : Bool := (config.raw? key).isSome

def textOr (key default : String) : String := (config.text? key).getD default

/-- The value of a key that has to be present. -/
def required (key : String) : Except DecodeError String :=
  match config.text? key with
  | some value => .ok value
  | none => .error (.missingProperty key)

def int (key : String) : Except DecodeError Int32 :=
  config.required key >>= Literal.int32 key

def boolean (key : String) : Except DecodeError Bool :=
  config.required key >>= Literal.boolean key

/-- The truth value under a key, `default` when it is absent. -/
def booleanOr (key : String) (default : Bool) : Except DecodeError Bool :=
  match config.text? key with
  | some value => Literal.boolean key value
  | none => .ok default

variable {config} {key value : String}

theorem required_of_absent (h : config.text? key = none) :
    config.required key = .error (.missingProperty key) := by
  simp [required, h]

theorem int_of_present (h : config.text? key = some value) :
    config.int key = Literal.int32 key value := by
  simp [int, required, h, bind, Except.bind]

theorem boolean_of_absent (h : config.text? key = none) :
    config.boolean key = .error (.missingProperty key) := by
  simp [boolean, required_of_absent h, bind, Except.bind]

theorem boolean_of_present (h : config.text? key = some value) :
    config.boolean key = Literal.boolean key value := by
  simp [boolean, required, h, bind, Except.bind]

end Config

end SegmentCatalog
