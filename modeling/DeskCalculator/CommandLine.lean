import DeskCalculator.Script
import DeskCalculator.Session
import DeskCalculator.Terminal.Typed

/-!
# The command line

    [-f | --file] [-s | --strict] [-p | --precision N] [--] [CONTENTS]

The contents are a script, or the path of one with `-f`; without contents a session starts. Short
options can share a dash, and a value can stand in the same argument (`-sp2`, `-p=2`,
`--precision=2`) or in the next one, where it must not begin with a dash. This file belongs to the
outer layer: `Request.ofArguments?` stands for the parser that reads the arguments of the program,
and no statement on the calculator rests on it.

* `Request` -- what the arguments ask for; `Request.ofArguments?` reads them, and refuses an unknown
  or repeated option, a precision that is no 32-bit integer, and a second text of contents;
* `Request.report` -- what the program leaves behind; `Request.sessionReport` -- after a session.
-/

namespace DeskCalculator

/-! ## 1. Requests -/

/-- What the arguments ask for. -/
structure Request where
  /-- The contents are the path of a script. -/
  fromFile : Bool := false
  strict : Bool := false
  precision? : Option Int := none
  contents? : Option String := none
  deriving Repr, DecidableEq

/-- The digits of a 32-bit integer, after an optional sign. -/
def precisionOfText? (cs : List Char) : Option Int :=
  let (negative, digits) : Bool × List Char :=
    match cs with
    | '-' :: digits => (true, digits)
    | '+' :: digits => (false, digits)
    | digits => (false, digits)
  if digits.isEmpty || !digits.all Char.isDigit then none
  else
    let magnitude : Int := Nat.ofDigitChars 10 digits 0
    let value := if negative then -magnitude else magnitude
    if -2147483648 ≤ value ∧ value ≤ 2147483647 then some value else none

/-! ## 2. Reading the arguments -/

/-- How far the arguments are read. -/
structure ArgumentReader where
  request : Request := {}
  /-- The next argument is the precision. -/
  awaitingPrecision : Bool := false
  /-- No further argument is an option. -/
  optionsEnded : Bool := false
  deriving Repr, DecidableEq

namespace ArgumentReader

/-- The option `-f`, at most once. -/
def setFromFile (r : ArgumentReader) : Option ArgumentReader :=
  if r.request.fromFile then none
  else some { r with request := { r.request with fromFile := true } }

/-- The option `-s`, at most once. -/
def setStrict (r : ArgumentReader) : Option ArgumentReader :=
  if r.request.strict then none
  else some { r with request := { r.request with strict := true } }

/-- The value of `-p`, at most once. -/
def setPrecision (text : List Char) (r : ArgumentReader) : Option ArgumentReader :=
  if r.request.precision?.isSome then none
  else (precisionOfText? text).map fun n =>
    { r with request := { r.request with precision? := some n }, awaitingPrecision := false }

/-- An argument that is no option: the contents, at most once. -/
def setContents (text : String) (r : ArgumentReader) : Option ArgumentReader :=
  if r.request.contents?.isSome then none
  else some { r with request := { r.request with contents? := some text } }

/-- The short options that share a dash. -/
def shortOptions (r : ArgumentReader) : List Char → Option ArgumentReader
  | [] => some r
  | 'f' :: rest => r.setFromFile.bind (shortOptions · rest)
  | 's' :: rest => r.setStrict.bind (shortOptions · rest)
  | ['p'] => some { r with awaitingPrecision := true }
  | 'p' :: '=' :: text => r.setPrecision text
  | 'p' :: text => r.setPrecision text
  | _ => none

/-- A long option without its dashes. -/
def longOption (text : List Char) (r : ArgumentReader) : Option ArgumentReader :=
  let name := String.ofList (text.takeWhile (· ≠ '='))
  match name, text.dropWhile (· ≠ '=') with
  | "file", [] => r.setFromFile
  | "strict", [] => r.setStrict
  | "precision", [] => some { r with awaitingPrecision := true }
  | "precision", _ :: value => r.setPrecision value
  | _, _ => none

/-- One argument. -/
def argument (r : ArgumentReader) (text : String) : Option ArgumentReader :=
  if r.optionsEnded then r.setContents text
  else
    match text.toList with
    | '-' :: dashed =>
      if r.awaitingPrecision then none
      else
        match dashed with
        | [] => r.setContents text
        | ['-'] => some { r with optionsEnded := true }
        | '-' :: long => r.longOption long
        | short => r.shortOptions short
    | plain => if r.awaitingPrecision then r.setPrecision plain else r.setContents text

end ArgumentReader

namespace Request

/-- The request of a list of arguments, if they make one. -/
def ofArguments? (arguments : List String) : Option Request := do
  let r ← arguments.foldlM ArgumentReader.argument {}
  if r.awaitingPrecision then none else some r.request

/-! ## 3. Serving a request -/

/-- The calculator to start with. -/
def calculator (r : Request) : Calculator :=
  { settings := { precision := r.precision?.getD ({} : Settings).precision, strict := r.strict } }

/-- The path of the script, if the script is in a file. -/
def path? (r : Request) : Option String := if r.fromFile then r.contents? else none

/-- The complaint about a file that cannot be read. -/
def unreadable (path : String) : String :=
  "Failed to read the input file '" ++ path ++ "'. Perhaps this file does not exist?"

/-- The exit code of a session at a typed line that has no meaning. -/
def brokenLine : Nat := 101

/-- What a session leaves behind that is fed from a text line by line. It ends early at a line that
    has no meaning, unless a line before asks for its end. -/
def sessionReport (c : Calculator) (input : String) : Report :=
  let typed := (Text.lines input).map Terminal.applyBackspaces?
  let taken := (typed.takeWhile Option.isSome).filterMap id
  let broken := typed.any Option.isNone && !taken.any (SessionLine.ofText · = .quit)
  ⟨if broken then brokenLine else 0, endedLines (c.transcript taken).1, ""⟩

/-- What the program leaves behind: `input` is the text it is fed line by line in a session, `file`
    the text of the file at `path?`, if it can be read. -/
def report (r : Request) (file : Option String) (input : String) : Report :=
  match r.contents? with
  | none => sessionReport r.calculator input
  | some contents =>
    if r.fromFile then
      match file with
      | none => .ofPrinted [.complaint (unreadable contents)]
      | some script => .ofPrinted (r.calculator.runScript script).1
    else .ofPrinted (r.calculator.runScript contents).1

end Request

/-- The exit code for arguments that make no request. -/
def refusedArguments : Nat := 2

end DeskCalculator
