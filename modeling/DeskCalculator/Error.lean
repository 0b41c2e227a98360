import DeskCalculator.Symbol
import DeskCalculator.Number.Text

/-!
# Errors

An evaluation that fails says where and why. This file fixes

* `EvalError` -- a position in the source and a cause, `Cause`, with the two families `Requirement`
  (what had to stand at the position) and `ArithmeticFault` (why an operator could not be applied);
* `ErrorKind` -- the coarse sorting of causes;
* `EvalError.message` -- the one place that holds the wording.
-/

namespace DeskCalculator

/-- What had to stand at a position. -/
inductive Requirement where
  /-- The parenthesis that opens the arguments of a function. -/
  | callOpening (f : Function)
  /-- The comma between two arguments. -/
  | separator
  /-- The parenthesis that closes a group. -/
  | closing
  | endOfExpression
  /-- A symbol that the caller of the reader names. -/
  | described (text : String)
  deriving Repr, DecidableEq

/-- Why the machine could not go on. -/
inductive ArithmeticFault where
  /-- A scope was closed over an operator. -/
  | unreduced (op : Operator)
  /-- A scope was closed on an empty operator stack. -/
  | noScope
  /-- An operator was to be applied, and the operator stack was empty. -/
  | noOperator
  | missingOperand (op : Operator)
  /-- The scope mark was to be applied. -/
  | notApplicable (op : Operator)
  /-- The factorial of a number that has none, in strict mode. -/
  | outsideFactorial (operand : Float)
  /-- A result that is not finite, in strict mode. -/
  | notFinite (op : Operator) (result : Float)
  /-- The operands left at the end are not one. -/
  | notSingle

/-- Why an evaluation failed. -/
inductive Cause where
  | emptyExpression
  | unexpectedToken (token : String)
  | unexpectedEnd
  | expected (requirement : Requirement)
  | unknownVariable (name : String)
  | arithmetic (fault : ArithmeticFault)

/-- A failed evaluation: the cause, and the position in the source. -/
structure EvalError where
  position : Nat
  cause : Cause

/-- The coarse kind of a cause. -/
inductive ErrorKind where
  | emptyExpression
  /-- A token, or the end, where no rule admits it. -/
  | malformed
  | expectedToken
  | unknownVariable
  | arithmetic
  deriving Repr, DecidableEq

/-! ## Wording -/

/-- What was missing, as an error names it. -/
def Requirement.text : Requirement → String
  | callOpening f => "'(' after '" ++ f.name ++ "'"
  | separator => "','"
  | closing => "')'"
  | endOfExpression => "end of expression"
  | described text => text

/-- A failure of the machine in words. -/
def ArithmeticFault.text : ArithmeticFault → String
  | unreduced op => "operator '" ++ op.spelling ++ "' left unreduced"
  | noScope => "operator stack underflow"
  | noOperator => "nothing to reduce"
  | missingOperand op => "missing operand for '" ++ op.spelling ++ "'"
  | notApplicable op => "'" ++ op.spelling ++ "' cannot be applied"
  | outsideFactorial operand => "factorial is not defined for " ++ Number.formatNumber operand
  | notFinite op result => "'" ++ op.spelling ++ "' produced " ++ Number.formatNumber result
  | notSingle => "expression did not reduce to a single value"

/-- A cause in words, without the full stop. -/
def Cause.text : Cause → String
  | emptyExpression => "Expression is empty"
  | unexpectedToken token => "Unexpected token '" ++ token ++ "'"
  | unexpectedEnd => "Unexpected end of expression"
  | expected requirement => requirement.text ++ " expected"
  | unknownVariable name => "Unknown variable '" ++ name ++ "'"
  | arithmetic fault => fault.text

namespace EvalError

/-- The whole complaint: the position, then the cause. -/
def message (e : EvalError) : String :=
  "Error at position " ++ toString e.position ++ ": " ++ e.cause.text ++ "."

/-- The kind that the cause of an error belongs to. -/
def kind (e : EvalError) : ErrorKind :=
  match e.cause with
  | .emptyExpression => .emptyExpression
  | .unexpectedToken _ | .unexpectedEnd => .malformed
  | .expected _ => .expectedToken
  | .unknownVariable _ => .unknownVariable
  | .arithmetic _ => .arithmetic

end EvalError

end DeskCalculator
