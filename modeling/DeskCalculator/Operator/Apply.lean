import DeskCalculator.Operator
import DeskCalculator.Number.CubeRoot
import DeskCalculator.Number.Factorial

/-!
# Applying an operator

The value of an operator on floats, not rounded yet. Outside its domain an operator gives an
infinity or NaN, as the arithmetic of floats has it. Logarithms to the bases two and ten and roots
of index two and three go through the functions that are exact where the result is whole.
-/

namespace DeskCalculator

open Number

/-- The logarithm of `x` to the base `base`. -/
def logarithm (base x : Float) : Float :=
  if base == 2 then x.log2
  else if base == 10 then x.log10
  else x.log / base.log

/-- The root of `radicand` of index `index`. -/
def root (index radicand : Float) : Float :=
  if index == 2 then radicand.sqrt
  else if index == 3 then cubeRoot radicand
  else radicand.pow (1 / index)

/-- The value of an operator on two operands, left one first. -/
def BinaryOp.apply (op : BinaryOp) (left right : Float) : Float :=
  match op with
  | add => left + right
  | sub => left - right
  | mul => left * right
  | div => left / right
  | mod => remainder left right
  | pow => left.pow right
  | log => logarithm left right
  | root => DeskCalculator.root left right

/-- The value of an operator on one operand. -/
def UnaryOp.apply (op : UnaryOp) (x : Float) : Float :=
  match op with
  | negate => -x
  | factorial => Number.factorial x
  | sin => x.sin
  | cos => x.cos
  | tan => x.tan
  | asin => x.asin
  | acos => x.acos
  | atan => x.atan
  | log10 => x.log10
  | ln => x.log
  | exp => x.exp
  | abs => x.abs
  | sqrt => x.sqrt

namespace Operator

/-- The value of an operator on two operands, if it takes two. -/
def applyTwo? (op : Operator) (left right : Float) : Option Float :=
  match op with
  | binary op => some (op.apply left right)
  | scope | unary _ => none

/-- The value of an operator on one operand, if it takes one. -/
def applyOne? (op : Operator) (x : Float) : Option Float :=
  match op with
  | unary op => some (op.apply x)
  | scope | binary _ => none

end Operator

end DeskCalculator
