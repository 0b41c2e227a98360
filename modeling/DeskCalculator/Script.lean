import DeskCalculator.Calculator
import DeskCalculator.Text.Blank
import DeskCalculator.Text.Lines

/-!
# Scripts

A script is a text whose lines are evaluated one after the other on one calculator. Blank lines
count for nothing; a line that fails is reported, and the next one is evaluated all the same.

* `Printed` -- a line of output: a result, or a complaint for the channel of errors;
* `Calculator.runLines`, `Calculator.runScript` -- what a script prints;
* `Report`, `Report.ofPrinted` -- the two channels as texts, with the exit code.
-/

namespace DeskCalculator

/-! ## 1. Output -/

/-- A line of output. -/
inductive Printed where
  | result (text : String)
  | complaint (text : String)
  deriving Repr, DecidableEq

namespace Printed

/-- The text of a result. -/
def result? : Printed → Option String
  | result text => some text
  | complaint _ => none

/-- The text of a complaint. -/
def complaint? : Printed → Option String
  | result _ => none
  | complaint text => some text

end Printed

/-- What a program leaves behind when it ends. -/
structure Report where
  code : Nat
  output : String
  errors : String
  deriving Repr, DecidableEq

/-- Lines of text, each ended. -/
def endedLines (texts : List String) : String := String.join (texts.map (· ++ "\n"))

/-- The report of what was printed: the code is one if there was a complaint. -/
def Report.ofPrinted (printed : List Printed) : Report where
  code := if (printed.filterMap Printed.complaint?).isEmpty then 0 else 1
  output := endedLines (printed.filterMap Printed.result?)
  errors := endedLines (printed.filterMap Printed.complaint?)

/-! ## 2. Running -/

/-- Whether a line holds blanks alone. -/
def isBlankLine (line : String) : Bool := (Text.trim line.toList).isEmpty

namespace Calculator

/-- What the evaluation of a line prints. -/
def printedOf (a : Answer) : Printed :=
  match a.text with
  | .ok text => .result text
  | .error e => .complaint e.message

/-- What the lines print, and the calculator at the end. -/
def runLines (c : Calculator) : List String → List Printed × Calculator
  | [] => ([], c)
  | line :: rest =>
    if isBlankLine line then c.runLines rest
    else
      let a := c.evaluate line
      let (onward, c) := a.calculator.runLines rest
      (printedOf a :: onward, c)

/-- What a script prints, and the calculator at the end. -/
def runScript (c : Calculator) (script : String) : List Printed × Calculator :=
  c.runLines (Text.lines script)

end Calculator

end DeskCalculator
