import DeskCalculator.Operator

/-!
# Symbols of the language

A symbol is a mark of one character or the name of a function. This file fixes

* `Mark`, with `char` and `ofChar?` -- inverse to each other (`ofChar?_eq_some_iff`);
* `Function`, with `name` and `ofName?` -- likewise (`ofName?_eq_some_iff`): a longer name that
  begins like a function's is a name of its own;
* `Symbol`, and which operator a symbol stands for between two operands, before one, after one, or
  as a call.
-/

namespace DeskCalculator

/-! ## 1. Marks -/

/-- The characters with a meaning of their own. -/
inductive Mark where
  | plus | minus | star | slash | caret | percent | bang
  | leftParen | rightParen | comma | semicolon | equals
  /-- What a tab leaves behind. -/
  | blank
  deriving Repr, DecidableEq

namespace Mark

/-- The character a mark is written with. -/
def char : Mark → Char
  | plus => '+'
  | minus => '-'
  | star => '*'
  | slash => '/'
  | caret => '^'
  | percent => '%'
  | bang => '!'
  | leftParen => '('
  | rightParen => ')'
  | comma => ','
  | semicolon => ';'
  | equals => '='
  | blank => ' '

/-- Every mark. -/
def all : List Mark :=
  [plus, minus, star, slash, caret, percent, bang, leftParen, rightParen, comma, semicolon, equals,
    blank]

/-- The mark a character is. -/
def ofChar? (c : Char) : Option Mark := all.find? (·.char = c)

@[simp] theorem ofChar?_char (m : Mark) : ofChar? m.char = some m := by cases m <;> rfl

theorem ofChar?_eq_some_iff {c : Char} {m : Mark} : ofChar? c = some m ↔ m.char = c := by
  constructor
  · intro h
    simpa using List.find?_some h
  · intro he
    subst he
    exact ofChar?_char m

/-- The operator a mark stands for between two operands. -/
def between? : Mark → Option BinaryOp
  | plus => some .add
  | minus => some .sub
  | star => some .mul
  | slash => some .div
  | percent => some .mod
  | caret => some .pow
  | bang | leftParen | rightParen | comma | semicolon | equals | blank => none

/-- The operator a mark stands for before its operand. -/
def before? : Mark → Option UnaryOp
  | minus => some .negate
  | _ => none

/-- The operator a mark stands for after its operand. -/
def after? : Mark → Option UnaryOp
  | bang => some .factorial
  | _ => none

/-- The marks that structure an expression and stand for no operator. -/
def isStructural : Mark → Bool
  | leftParen | rightParen | comma | semicolon | equals | blank => true
  | plus | minus | star | slash | caret | percent | bang => false

end Mark

/-! ## 2. Functions -/

/-- The functions that can be called by name. -/
inductive Function where
  | log | root
  | sin | cos | tan | asin | acos | atan | log10 | ln | exp | abs | sqrt
  deriving Repr, DecidableEq

namespace Function

/-- The operator that a call stacks. -/
def operator : Function → Operator
  | log => .binary .log
  | root => .binary .root
  | sin => .unary .sin
  | cos => .unary .cos
  | tan => .unary .tan
  | asin => .unary .asin
  | acos => .unary .acos
  | atan => .unary .atan
  | log10 => .unary .log10
  | ln => .unary .ln
  | exp => .unary .exp
  | abs => .unary .abs
  | sqrt => .unary .sqrt

/-- The name to call it by. -/
def name (f : Function) : String := f.operator.spelling

/-- The number of arguments. -/
def arity (f : Function) : Nat := f.operator.arity

/-- Every function. -/
def all : List Function :=
  [log, root, sin, cos, tan, asin, acos, atan, log10, ln, exp, abs, sqrt]

/-- The function of a name: the whole name counts. -/
def ofName? (s : String) : Option Function := all.find? (·.name = s)

@[simp] theorem ofName?_name (f : Function) : ofName? f.name = some f := by cases f <;> rfl

theorem ofName?_eq_some_iff {s : String} {f : Function} : ofName? s = some f ↔ f.name = s := by
  constructor
  · intro h
    simpa using List.find?_some h
  · intro he
    subst he
    exact ofName?_name f

end Function

/-! ## 3. Symbols -/

/-- A lexeme with a meaning of its own. -/
inductive Symbol where
  | mark (m : Mark)
  | function (f : Function)
  deriving Repr, DecidableEq

namespace Symbol

/-- The symbol a single character is. -/
def ofChar? (c : Char) : Option Symbol := (Mark.ofChar? c).map mark

/-- The symbol a whole lexeme is. -/
def ofLexeme? (lexeme : String) : Option Symbol :=
  match lexeme.toList with
  | [c] => ofChar? c
  | _ => (Function.ofName? lexeme).map function

/-- The operator a symbol stands for between two operands. -/
def between? : Symbol → Option Operator
  | mark m => m.between?.map .binary
  | function _ => none

/-- The operator a symbol stands for before its operand: a call of one argument counts. -/
def before? : Symbol → Option Operator
  | mark m => m.before?.map .unary
  | function f => if f.arity = 1 then some f.operator else none

/-- The operator a symbol stands for after its operand. -/
def after? : Symbol → Option Operator
  | mark m => m.after?.map .unary
  | function _ => none

/-- The operator a symbol stands for as a call. -/
def call? : Symbol → Option Operator
  | mark _ => none
  | function f => some f.operator

/-- Whether the symbol stands for an operator of two operands. -/
def isBinary (s : Symbol) : Bool := s.between?.isSome || s.call?.any (·.arity = 2)

/-- Whether the symbol structures an expression and stands for no operator. -/
def isStructural : Symbol → Bool
  | mark m => m.isStructural
  | function _ => false

end Symbol

end DeskCalculator
