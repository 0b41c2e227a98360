import DeskCalculator.Token
import DeskCalculator.Instruction
import DeskCalculator.Error

/-!
# Reading an expression

A reader goes over the tokens from left to right, one at a time, and issues instructions for the
machine. It knows what it waits for and which groups and bindings are still open; values play no
part in it, so the code and the place where reading stops depend on the text alone.

An *operand* is a numeral, a name, a call, or an expression in parentheses, after any number of
minus signs and idle commas; `!` and further operands, multiplied without a sign, belong to it. A
*chain* is a row of operands with operators between them.

* `Reader` -- the state: `Extent`, `Frame`, `Awaiting`;
* `Reader.turn` -- what one token does, case by case in section 3;
* `Reader.finish` -- what the end of the tokens does;
* `Reader.read`, `Reading` -- the code of all tokens and the place, or the refusal, where reading
  stops; `Cursor.readChain` and `Cursor.readOperand` start it.
-/

namespace DeskCalculator

/-! ## 1. What reading comes to -/

/-- Reading that cannot go on: the error, and the cursor it leaves behind. -/
structure Refusal where
  cursor : Cursor
  error : EvalError

/-- The code of what was read, and where reading stopped. -/
structure Reading where
  code : Code
  stop : Except Refusal Cursor

/-! ## 2. The state of a reader -/

/-- How much is to be read. -/
inductive Extent where
  | operand
  | chain
  deriving Repr, DecidableEq

/-- What was opened and is not closed yet. -/
inductive Frame where
  /-- A group that has so many commas still to come. -/
  | group (separators : Nat)
  /-- The value to bind a name to; it reaches as far right as it can. -/
  | binding (name : String)
  deriving Repr, DecidableEq

/-- What a reader waits for. -/
inductive Awaiting where
  | operand
  /-- The parenthesis before the arguments of a function. -/
  | arguments (f : Function)
  /-- After a name, which starts at `start`: an equals sign would bind it. -/
  | binding (name : String) (start : Nat)
  /-- After a whole operand: an operator, or the end of the chain. -/
  | operator
  deriving Repr, DecidableEq

/-- What a reader knows between two tokens. -/
structure Reader where
  extent : Extent
  /-- The open frames, innermost first. -/
  frames : List Frame
  awaiting : Awaiting
  deriving Repr, DecidableEq

/-- How a reader goes on after a token. -/
inductive Move where
  /-- To the next token. -/
  | next (reader : Reader)
  /-- The token does not belong to what was to be read. -/
  | rest
  | refuse (refusal : Refusal)

/-- What a token does: the code it issues and the move it leads to. -/
structure Turn where
  code : Code
  move : Move

/-- The turn with an instruction in front. -/
def Turn.after (issued : Issued) (t : Turn) : Turn := ⟨issued :: t.code, t.move⟩

namespace Reader

/-- The reader waiting for something else. -/
def await (awaiting : Awaiting) (r : Reader) : Reader := { r with awaiting }

/-- The reader inside one more frame, where an operand has to come first. -/
def enter (frame : Frame) (r : Reader) : Reader :=
  { r with frames := frame :: r.frames, awaiting := .operand }

/-! ## 3. The end of a chain -/

/-- The code at the end of a chain, and the innermost open group with what is open around it. The
    bindings whose value ends here are made, innermost first; the chain of each ends here too. -/
def closeChain (extent : Extent) (c : Cursor) : List Frame → Code × Option (Nat × List Frame)
  | [] => (if extent = .chain then [⟨c, .settle⟩] else [], none)
  | .group separators :: frames => ([⟨c, .settle⟩], some (separators, frames))
  | .binding name :: frames =>
    let (code, group) := closeChain extent c frames
    (⟨c, .settle⟩ :: ⟨c, .closeScope⟩ :: ⟨c, .assign name⟩ :: code, group)

/-- What a group with so many commas to come needs next. -/
def groupNeeds (separators : Nat) : Requirement :=
  if separators = 0 then .closing else .separator

/-- The refusal of what stands at `c`, where a group needs something else. -/
def refuseGroup (separators : Nat) (c : Cursor) : Refusal :=
  ⟨c, ⟨c.position, .expected (groupNeeds separators)⟩⟩

/-- A mark that ends a chain: it has to be the one the innermost group needs. -/
def closingTurn (r : Reader) (l : Lexeme) (m : Mark) : Turn :=
  let (code, group) := closeChain r.extent l.start r.frames
  match group with
  | none => ⟨code, .rest⟩
  | some (0, frames) =>
    if m = .rightParen then
      ⟨code ++ [⟨l.stop, .closeScope⟩], .next { r with frames, awaiting := .operator }⟩
    else ⟨code, .refuse (refuseGroup 0 l.start)⟩
  | some (separators + 1, frames) =>
    if m = .comma then
      ⟨code, .next { r with frames := .group separators :: frames, awaiting := .operand }⟩
    else ⟨code, .refuse (refuseGroup (separators + 1) l.start)⟩

/-! ## 4. One token -/

/-- The turn of a token that no rule admits. -/
def refuseToken (l : Lexeme) : Turn :=
  ⟨[], .refuse ⟨l.start, ⟨l.start.position, .unexpectedToken (String.ofList l.token.chars)⟩⟩⟩

/-- A token where an operand has to come. -/
def operandTurn (r : Reader) (l : Lexeme) : Turn :=
  match l.token with
  | .number lexeme =>
    match Number.Numeral.ofText? lexeme.toList with
    | some n => ⟨[⟨l.stop, .literal n.value⟩], .next (r.await .operator)⟩
    | none => ⟨[], .refuse ⟨l.stop, ⟨l.start.position, .unexpectedToken lexeme⟩⟩⟩
  | .name name =>
    match Function.ofName? name with
    | some f =>
      ⟨[⟨l.stop, .operator f.operator⟩],
        .next (r.await (if f.arity = 1 then .operand else .arguments f))⟩
    | none => ⟨[], .next (r.await (.binding name l.start.position))⟩
  | .mark .minus => ⟨[⟨l.start, .hold (.unary .negate)⟩], .next (r.await .operand)⟩
  | .mark .leftParen => ⟨[⟨l.stop, .openScope⟩], .next (r.enter (.group 0))⟩
  | .mark .comma => ⟨[], .next (r.await .operand)⟩
  | .mark _ | .foreign _ => refuseToken l

/-- A token where an operand is multiplied without a sign. -/
def impliedTurn (r : Reader) (l : Lexeme) : Turn :=
  (r.operandTurn l).after ⟨l.start, .operator (.binary .mul)⟩

/-- A token after a whole operand. What can neither follow an operand nor end a chain is taken as
    the start of a further operand. -/
def operatorTurn (r : Reader) (l : Lexeme) : Turn :=
  match l.token with
  | .mark m =>
    match m.after?, m.between? with
    | some op, _ => ⟨[⟨l.start, .operator (.unary op)⟩], .next (r.await .operator)⟩
    | none, some op =>
      if r.extent = .operand ∧ r.frames = [] then ⟨[], .rest⟩
      else ⟨[⟨l.start, .operator (.binary op)⟩], .next (r.await .operand)⟩
    | none, none => if m = .leftParen then r.impliedTurn l else r.closingTurn l m
  | _ => r.impliedTurn l

/-- A token after the name of a function of two arguments. -/
def argumentsTurn (r : Reader) (f : Function) (l : Lexeme) : Turn :=
  if l.token = .mark .leftParen then
    ⟨[⟨l.stop, .openScope⟩], .next (r.enter (.group (f.arity - 1)))⟩
  else ⟨[], .refuse ⟨l.start, ⟨l.start.position, .expected (.callOpening f)⟩⟩⟩

/-- A token after the name of a variable, which is bound if the token is an equals sign and read
    otherwise. -/
def bindingTurn (r : Reader) (name : String) (start : Nat) (l : Lexeme) : Turn :=
  if l.token = .mark .equals then ⟨[⟨l.stop, .openScope⟩], .next (r.enter (.binding name))⟩
  else (r.operatorTurn l).after ⟨l.start, .read name start⟩

/-- What a token does. -/
def turn (r : Reader) (l : Lexeme) : Turn :=
  match r.awaiting with
  | .operand => r.operandTurn l
  | .arguments f => r.argumentsTurn f l
  | .binding name start => r.bindingTurn name start l
  | .operator => r.operatorTurn l

/-! ## 5. The end of the tokens -/

/-- The end of the tokens, at `c`, after a whole operand. -/
def finishChain (r : Reader) (c : Cursor) : Reading :=
  let (code, group) := closeChain r.extent c r.frames
  match group with
  | none => ⟨code, .ok c⟩
  | some (separators, _) => ⟨code, .error (refuseGroup separators c)⟩

/-- The cause of a missing operand at the end of the tokens: a terminator inside the text is a token
    that no rule admits. -/
def missingOperand (c : Cursor) : Cause :=
  if c.atEnd then .unexpectedEnd else .unexpectedToken (String.ofList [terminator])

/-- The end of the tokens, at `c`. -/
def finish (r : Reader) (c : Cursor) : Reading :=
  match r.awaiting with
  | .operand => ⟨[], .error ⟨c, ⟨c.position, missingOperand c⟩⟩⟩
  | .arguments f => ⟨[], .error ⟨c, ⟨c.position, .expected (.callOpening f)⟩⟩⟩
  | .binding name start =>
    let ending := r.finishChain c
    ⟨⟨c, .read name start⟩ :: ending.code, ending.stop⟩
  | .operator => r.finishChain c

/-! ## 6. All tokens -/

/-- The reading of tokens that end at `halt`. -/
def read (halt : Cursor) : Reader → List Lexeme → Reading
  | r, [] => r.finish halt
  | r, l :: ls =>
    let t := r.turn l
    match t.move with
    | .next r' =>
      let onward := read halt r' ls
      ⟨t.code ++ onward.code, onward.stop⟩
    | .rest => ⟨t.code, .ok l.start⟩
    | .refuse refusal => ⟨t.code, .error refusal⟩

end Reader

namespace Cursor

/-- The reading of as much as `extent` says from the cursor on. -/
def reading (extent : Extent) (c : Cursor) : Reading :=
  Reader.read c.halt ⟨extent, [], .operand⟩ c.lexemes

/-- The reading of one operand with all that belongs to it. -/
def readOperand (c : Cursor) : Reading := c.reading .operand

/-- The reading of a chain. -/
def readChain (c : Cursor) : Reading := c.reading .chain

end Cursor

end DeskCalculator
