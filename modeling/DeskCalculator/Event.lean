import DeskCalculator.Operator
import DeskCalculator.Number.Text

/-!
# Events

What happens during an evaluation, in its order: variables are read, operators are applied, names
are bound, and at last the expression has a value. `Event.record?` is the text an event leaves in
the log; reading a variable leaves none.
-/

namespace DeskCalculator

/-- Something that happened during an evaluation. -/
inductive Event where
  /-- The name that starts at `position` was looked up; `found` is its value, if it had one. -/
  | read (name : String) (position : Nat) (found : Option Float)
  /-- An operator was applied to its operands, left one first; the result is rounded. -/
  | reduced (op : Operator) (operands : List Float) (result : Float)
  | assigned (name : String) (value : Float)
  /-- The expression with this text came to a value. -/
  | evaluated (text : String) (value : Float)

namespace Event

/-- The log record of an event. The text of an expression that has a value holds letters, digits and
    marks only, so it stands between quotes as it is. -/
def record? : Event → Option String
  | read _ _ _ => none
  | reduced op _ result =>
    some ("TRACE reduce '" ++ op.spelling ++ "' -> " ++ Number.logStyle.render result)
  | assigned name value => some ("DEBUG assign " ++ name ++ " = " ++ Number.logStyle.render value)
  | evaluated text value =>
    some ("DEBUG evaluated \"" ++ text ++ "\" = " ++ Number.logStyle.render value)

end Event

end DeskCalculator
