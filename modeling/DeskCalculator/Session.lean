import DeskCalculator.Calculator
import DeskCalculator.Text.Blank

/-!
# Sessions

A session answers one line after the other. A line that begins with a colon is a command; blanks
around a line do not count.

* `SessionLine` -- the kinds of lines, `SessionLine.ofText` sorts them;
* `Calculator.respond` -- the reply to a line and the calculator afterwards;
* `Calculator.transcript` -- all that a session prints, up to the line that ends it.
-/

namespace DeskCalculator

/-! ## 1. Lines -/

/-- What a line of a session asks for. -/
inductive SessionLine where
  | blank
  | quit
  /-- Asks for all variables. -/
  | listing
  /-- Asks for a new table of variables. -/
  | reset
  /-- Begins with a colon and is no command. -/
  | unknown (command : String)
  | expression (text : String)
  deriving Repr, DecidableEq

/-- The kind of a line. -/
def SessionLine.ofText (line : String) : SessionLine :=
  let trimmed := Text.trim line.toList
  let text := String.ofList trimmed
  if trimmed.isEmpty then blank
  else if text = ":quit" ∨ text = ":q" then quit
  else if text = ":vars" then listing
  else if text = ":reset" then reset
  else if trimmed.head? = some ':' then unknown text
  else expression text

/-! ## 2. Replies -/

/-- What a session says to a line. -/
inductive Reply where
  /-- Nothing is printed. -/
  | silence
  | text (text : String)
  /-- The session ends. -/
  | farewell
  deriving Repr, DecidableEq

/-- A variable with its value. -/
def showBinding (binding : String × Float) : String :=
  binding.1 ++ " = " ++ Number.formatNumber binding.2

namespace Calculator

/-- The reply to a line, and the calculator afterwards. -/
def respond (c : Calculator) (line : String) : Reply × Calculator :=
  match SessionLine.ofText line with
  | .blank => (.silence, c)
  | .quit => (.farewell, c)
  | .listing => (.text ("\n".intercalate (c.memory.toList.map showBinding)), c)
  | .reset => (.text "Variables reset.", { c with memory := .seeded })
  | .unknown command =>
    (.text ("Unknown command '" ++ command ++ "'. Try :vars, :reset or :quit."), c)
  | .expression text =>
    let a := c.evaluate text
    (.text a.reply, a.calculator)

/-- What a session prints, line by line, and the calculator at its end. -/
def transcript (c : Calculator) : List String → List String × Calculator
  | [] => ([], c)
  | line :: rest =>
    match c.respond line with
    | (.farewell, c) => ([], c)
    | (.silence, c) => c.transcript rest
    | (.text text, c) =>
      let (onward, c) := c.transcript rest
      (text :: onward, c)

end Calculator

end DeskCalculator
