import DeskCalculator.Text.Blank
import DeskCalculator.Text.LowerCase
import DeskCalculator.Cursor
import DeskCalculator.Error

/-!
# Sources

A line as typed becomes a source in five steps: blanks are trimmed at both ends, terminators are
dropped from the end, spaces are dropped, tabs become blanks, and all is put in lower case. A line
of which nothing is left is no expression.

* `Source` -- what is left, without the terminator that ends it; `Source.text` puts it back;
* `Source.bodyOf`, `Source.ofLine` -- the five steps;
* `Source.start` -- the cursor to read from.
-/

namespace DeskCalculator

/-- A cleaned expression: its characters before the final terminator. -/
structure Source where
  body : List Char
  body_ne_nil : body ≠ []

namespace Source

/-- A space is dropped and a tab becomes a blank. -/
def clean (cs : List Char) : List Char :=
  (cs.filter (· ≠ ' ')).map fun c => if c = '\t' then ' ' else c

/-- What is left of a line. -/
def bodyOf (line : List Char) : List Char :=
  Text.lowercase (clean (Text.dropEndWhile (· = terminator) (Text.trim line)))

/-- The source of a line, if anything is left of it. -/
def ofLine (line : String) : Except EvalError Source :=
  if h : bodyOf line.toList = [] then .error ⟨0, .emptyExpression⟩ else .ok ⟨bodyOf line.toList, h⟩

/-- The source with its final terminator. -/
def text (s : Source) : String := String.ofList (s.body ++ [terminator])

/-- The first place of the source. -/
def start (s : Source) : Cursor := ⟨0, s.body⟩

theorem ofLine_eq_ok_iff {line : String} {s : Source} :
    ofLine line = .ok s ↔ bodyOf line.toList = s.body := by
  unfold ofLine
  split
  · next h =>
    constructor
    · intro e; cases e
    · intro e; exact absurd (e ▸ h) s.body_ne_nil
  · constructor
    · intro e; cases e; rfl
    · intro e; cases s; simp only at e; subst e; rfl

end Source

end DeskCalculator
