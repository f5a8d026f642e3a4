import SegmentCatalog.CommandLine.Report

/-! # The program

Reads the file that the arguments name, if they name one, and prints the outcome of the call.
-/

open SegmentCatalog.CommandLine

def contents? (path : String) : IO (Option ByteArray) := do
  try return some (← IO.FS.readBinFile path)
  catch _ => return none

def main (args : List String) : IO UInt32 := do
  let contents ← match (Request.ofArguments args).input? with
    | some path => contents? path
    | none => pure none
  let outcome := run (fun _ => contents) args
  IO.print outcome.stdout
  IO.eprint outcome.stderr
  return outcome.exit
