import DeskCalculator.CommandLine

/-!
# The program

The outer layer: it takes the arguments, reads what the request names, prints what `Request.report`
or, line by line, `Calculator.respond` says, and ends with the exit code.
-/

namespace DeskCalculator

/-- The text of a file, if it can be read. -/
def readScript (path : String) : IO (Option String) := do
  match ← (IO.FS.readFile path).toBaseIO with
  | .ok text => return some text
  | .error _ => return none

/-- One line after the other is read, answered and forgotten, until one ends the session; the result
    is the exit code. -/
partial def converse (input : IO.FS.Stream) (c : Calculator) : IO UInt32 := do
  match Text.lines (← input.getLine) with
  | [] => return 0
  | line :: _ =>
    match (Terminal.applyBackspaces? line).map c.respond with
    | none => return Request.brokenLine.toUInt32
    | some (.farewell, _) => return 0
    | some (.silence, c) => converse input c
    | some (.text text, c) =>
      IO.println text
      converse input c

/-- The exit code of a request, served. -/
def serve (r : Request) : IO UInt32 := do
  if r.contents?.isNone then return ← converse (← IO.getStdin) r.calculator
  let file ← match r.path? with
    | some path => readScript path
    | none => pure none
  let report := r.report file ""
  IO.print report.output
  IO.eprint report.errors
  return report.code.toUInt32

end DeskCalculator

/-- The program: its arguments, read and served. -/
def main (arguments : List String) : IO UInt32 := do
  match DeskCalculator.Request.ofArguments? arguments with
  | some request => DeskCalculator.serve request
  | none =>
    IO.eprintln "usage: [-f | --file] [-s | --strict] [-p | --precision N] [--] [CONTENTS]"
    return DeskCalculator.refusedArguments.toUInt32
