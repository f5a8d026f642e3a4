/-! # Command line arguments

A call names one of three commands and the file it works on; `describe` takes two options.

* `Request` is what a call asks for, `Request.ofArguments` reads it off the arguments.

An option with a name of several letters takes its value behind an equals sign or from the
next argument, one with a single letter also from the rest of its own argument.  A value
taken from the next argument does not start with a hyphen, unless it is nothing else.  After
two hyphens alone every argument is a file name.  Each option may be given once.
-/

namespace SegmentCatalog.CommandLine

inductive Command where
  /-- Prints every column, or the one named, as text or as JSON. -/
  | describe (input : String) (column : Option String) (json : Bool)
  | columns (input : String)
  /-- Checks the file and the order of all bounds. -/
  | verify (input : String)
  deriving DecidableEq

inductive Request where
  | run (command : Command)
  | help
  | version
  | misuse
  deriving DecidableEq

def Request.input? : Request → Option String
  | .run (.describe input ..) => some input
  | .run (.columns input) => some input
  | .run (.verify input) => some input
  | _ => none

/-! ## Single arguments -/

inductive Argument where
  | value (text : String)
  | endOfOptions
  /-- Two hyphens and a name, with a value behind an equals sign or not. -/
  | long (name : String) (value : Option String)
  /-- A hyphen, a letter, and what follows it. -/
  | short (letter : Char) (rest : List Char)
  deriving DecidableEq

namespace Argument

def ofString (arg : String) : Argument :=
  match arg.toList with
  | ['-', '-'] => endOfOptions
  | '-' :: '-' :: text =>
    match text.dropWhile (· != '=') with
    | [] => long (.ofList text) none
    | _ :: rest => long (.ofList (text.takeWhile (· != '='))) (some (.ofList rest))
  | '-' :: letter :: rest => short letter rest
  | _ => value arg

/-- The value that stands behind the letter of an option in the same argument; an equals sign
    may stand between them. -/
def attached? : List Char → Option String
  | [] => none
  | '=' :: rest => some (.ofList rest)
  | rest => some (.ofList rest)

end Argument

/-! ## The arguments of a command -/

structure Given where
  input : Option String := none
  column : Option String := none
  json : Bool := false

namespace Given

/-- Takes a file name; there is room for one, and it is not empty. -/
def takeInput (given : Given) (text : String) : Except Request Given :=
  if given.input.isSome || text.isEmpty then throw .misuse
  else return { given with input := some text }

def takeColumn (given : Given) (name : String) : Except Request Given :=
  if given.column.isSome then throw .misuse else return { given with column := some name }

def takeJson (given : Given) : Except Request Given :=
  if given.json then throw .misuse else return { given with json := true }

/-- Reads the arguments of a command.  `options` says whether it has options of its own. -/
def read (options : Bool) (given : Given) : List String → Except Request Given
  | [] => return given
  | arg :: args =>
    match Argument.ofString arg with
    | .value text => do read options (← given.takeInput text) args
    | .endOfOptions => args.foldlM takeInput given
    | .long "help" none => throw .help
    | .short 'h' _ => throw .help
    | .long "json" none =>
      if options then do read options (← given.takeJson) args else throw .misuse
    | .long "column" (some name) =>
      if options then do read options (← given.takeColumn name) args else throw .misuse
    | .long "column" none => if options then readColumn args else throw .misuse
    | .short 'c' rest =>
      if options then
        match Argument.attached? rest with
        | some name => do read options (← given.takeColumn name) args
        | none => readColumn args
      else throw .misuse
    | .long .. => throw .misuse
    | .short .. => throw .misuse
where
  /-- Reads on with the column's name as the next argument. -/
  readColumn : List String → Except Request Given
    | [] => throw .misuse
    | arg :: args =>
      match Argument.ofString arg with
      | .value name => do read options (← given.takeColumn name) args
      | _ => throw .misuse

end Given

/-! ## A whole call -/

/-- Reads the arguments of a command that needs a file. -/
def readCommand (options : Bool) (make : String → Given → Command) (args : List String) :
    Request :=
  match Given.read options {} args with
  | .error request => request
  | .ok given =>
    match given.input with
    | some input => .run (make input given)
    | none => .misuse

/-- The request for help, on everything or on a command. -/
def readHelp : List String → Request
  | [] => .help
  | [name] => if name ∈ ["describe", "columns", "verify", "help"] then .help else .misuse
  | _ => .misuse

/-- What the arguments of a call ask for. -/
def Request.ofArguments : List String → Request
  | [] => .misuse
  | arg :: args =>
    match Argument.ofString arg with
    | .value "describe" =>
      readCommand true (fun input given => .describe input given.column given.json) args
    | .value "columns" => readCommand false (fun input _ => .columns input) args
    | .value "verify" => readCommand false (fun input _ => .verify input) args
    | .value "help" => readHelp args
    | .long "help" none => .help
    | .short 'h' _ => .help
    | .long "version" none => .version
    | .short 'V' _ => .version
    | _ => .misuse

end SegmentCatalog.CommandLine
