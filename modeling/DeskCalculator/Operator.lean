/-!
# Operators

What can wait on the operator stack of the machine: operators of two operands, operators of one,
and the mark that bounds a scope. This file fixes

* `BinaryOp`, `UnaryOp`, `Operator` -- the operators, with `arity` and `spelling`;
* `precedence` -- how tightly each binds: sums under negation under products under powers under
  remainders under factorials under calls;
* `Operator.reducesBefore` -- whether a waiting operator is applied before another one is stacked:
  when it binds at least as tightly, except that repeated powers group to the right.
-/

namespace DeskCalculator

/-! ## 1. The operators -/

/-- The operators of two operands. The logarithm takes its base first, the root its index. -/
inductive BinaryOp where
  | add | sub | mul | div | mod | pow | log | root
  deriving Repr, DecidableEq

/-- The operators of one operand. -/
inductive UnaryOp where
  | negate | factorial | sin | cos | tan | asin | acos | atan | log10 | ln | exp | abs | sqrt
  deriving Repr, DecidableEq

/-- An entry of the operator stack. -/
inductive Operator where
  /-- The mark at the bottom of a scope; it is never applied. -/
  | scope
  | binary (op : BinaryOp)
  | unary (op : UnaryOp)
  deriving Repr, DecidableEq

/-! ## 2. Spelling -/

/-- How an operator of two operands is written. -/
def BinaryOp.spelling : BinaryOp → String
  | add => "+"
  | sub => "-"
  | mul => "*"
  | div => "/"
  | mod => "%"
  | pow => "^"
  | log => "log"
  | root => "rt"

/-- How an operator of one operand is written. -/
def UnaryOp.spelling : UnaryOp → String
  | negate => "-"
  | factorial => "!"
  | sin => "sin"
  | cos => "cos"
  | tan => "tan"
  | asin => "asin"
  | acos => "acos"
  | atan => "atan"
  | log10 => "log10"
  | ln => "ln"
  | exp => "exp"
  | abs => "abs"
  | sqrt => "sqrt"

/-! ## 3. Binding -/

/-- Sums bind least, then products, powers, remainders, calls. -/
def BinaryOp.precedence : BinaryOp → Nat
  | add | sub => 4
  | mul | div => 16
  | pow => 24
  | mod => 32
  | log | root => 64

/-- A negation binds less than a product, a factorial more than a remainder. -/
def UnaryOp.precedence : UnaryOp → Nat
  | negate => 8
  | factorial => 48
  | sin | cos | tan | asin | acos | atan | log10 | ln | exp | abs | sqrt => 64

namespace Operator

/-- How an operator is written; the scope mark has a spelling for messages only. -/
def spelling : Operator → String
  | scope => "#"
  | binary op => op.spelling
  | unary op => op.spelling

/-- The number of operands. -/
def arity : Operator → Nat
  | scope => 0
  | binary _ => 2
  | unary _ => 1

/-- How tightly an operator binds. -/
def precedence : Operator → Nat
  | scope => 0
  | binary op => op.precedence
  | unary op => op.precedence

/-- Whether the operator, next to itself, groups to the right. -/
def groupsRight (op : Operator) : Bool := op = binary .pow

/-- Whether `waiting`, on top of the stack, is applied before `incoming` is stacked. -/
def reducesBefore (waiting incoming : Operator) : Bool :=
  if waiting = incoming && waiting.groupsRight then false
  else incoming.precedence ≤ waiting.precedence

end Operator

end DeskCalculator
