import DeskCalculator.Evaluation

/-!
# The calculator

A calculator keeps a table of variables from one expression to the next. An expression that has a
value leaves it as the last answer; one that fails leaves the last answer alone, but the names it
bound before it failed stay bound.

* `Calculator`, `Answer` -- the state, and what a line comes to;
* `Calculator.evaluate` -- one line; `answer` -- one line on a new calculator;
* `Answer.text`, `Answer.reply` -- the value, or the error as well, in words.
-/

namespace DeskCalculator

/-- A table of variables and the settings under which expressions are evaluated. -/
structure Calculator where
  memory : Variables := .seeded
  settings : Settings := {}

/-- What a line comes to. -/
structure Answer where
  result : Except EvalError Float
  /-- The calculator afterwards. -/
  calculator : Calculator
  /-- What happened, in order. -/
  events : List Event

namespace Answer

/-- The value in words. -/
def text (a : Answer) : Except EvalError String := a.result.map Number.formatNumber

/-- The value or the error in words. -/
def reply (a : Answer) : String :=
  match a.text with
  | .ok text => text
  | .error e => e.message

end Answer

namespace Calculator

/-- A finished evaluation of a source seen from the calculator. -/
def conclude (c : Calculator) (source : Source) :
    Except EvalError Float × Evaluation → Answer
  | (.ok value, e) =>
    ⟨.ok value, { c with memory := e.machine.memory.setLastAnswer value },
      (Event.evaluated source.text value :: e.machine.events).reverse⟩
  | (.error error, e) =>
    ⟨.error error, { c with memory := e.machine.memory }, e.machine.events.reverse⟩

/-- The answer to a line. -/
def evaluate (c : Calculator) (line : String) : Answer :=
  match Source.ofLine line with
  | .error e => ⟨.error e, c, []⟩
  | .ok source => c.conclude source (Evaluation.start c.settings c.memory source).complete

/-- **Evaluation leaves the settings alone.** -/
theorem settings_evaluate (c : Calculator) (line : String) :
    (c.evaluate line).calculator.settings = c.settings := by
  unfold evaluate
  split
  · rfl
  · unfold conclude
    split <;> rfl

end Calculator

/-- The value of a line, in words, on a new calculator. -/
def answer (line : String) : Except EvalError String := (({} : Calculator).evaluate line).text

end DeskCalculator
