import DeskCalculator.Cursor
import DeskCalculator.Operator

/-!
# Instructions

What reading an expression comes to: a list of instructions for the machine, in the order in which
their causes stand in the source. Each carries the cursor at which it was issued, the place a
failure of it is reported at.
-/

namespace DeskCalculator

/-- A step of the machine. -/
inductive Instruction where
  /-- Stack a value. -/
  | literal (value : Float)
  /-- Stack the value of a variable, whose name starts at `position`. -/
  | read (name : String) (position : Nat)
  /-- Stack an operator after applying what binds at least as tightly. -/
  | operator (op : Operator)
  /-- Stack an operator as it is: a prefix operator waits for its operand. -/
  | hold (op : Operator)
  | openScope
  /-- Remove the scope mark on top. -/
  | closeScope
  /-- Apply every operator above the scope mark. -/
  | settle
  /-- Bind a name to the value on top, which stays. -/
  | assign (name : String)

/-- An instruction with the cursor at which it was issued. -/
structure Issued where
  cursor : Cursor
  instruction : Instruction

/-- A piece of code. -/
abbrev Code := List Issued

end DeskCalculator
