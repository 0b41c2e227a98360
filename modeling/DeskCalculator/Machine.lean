import DeskCalculator.Instruction
import DeskCalculator.Error
import DeskCalculator.Event
import DeskCalculator.Settings
import DeskCalculator.Variables
import DeskCalculator.Operator.Apply
import DeskCalculator.Number.Rounding

/-!
# The machine

Two stacks, one of operands and one of operators, a table of variables, and the events so far. This
file fixes

* `Outcome` -- the state after a step that succeeded or failed: a step that fails keeps what it
  already took from the stacks;
* `Machine.applyOperator`, `Machine.reduce` -- an operator and its operands give way to the rounded
  result;
* `Machine.reduceWhile` -- as long as the operators on top satisfy a test;
* `Machine.step` -- one instruction.

A step is told the position in the source that its errors carry.
-/

namespace DeskCalculator

/-! ## 1. Outcomes -/

/-- The state after a step, with the error if the step failed. -/
inductive Outcome (σ : Type) where
  | ok (state : σ)
  | failed (error : EvalError) (state : σ)

namespace Outcome

variable {σ τ : Type}

/-- The state, whether the step succeeded or not. -/
def state : Outcome σ → σ
  | ok s => s
  | failed _ s => s

/-- The error of a step that failed. -/
def error? : Outcome σ → Option EvalError
  | ok _ => none
  | failed e _ => some e

/-- A second step, unless the first one failed. -/
def andThen (o : Outcome σ) (next : σ → Outcome σ) : Outcome σ :=
  match o with
  | ok s => next s
  | failed e s => failed e s

/-- The outcome seen as a state of another kind. -/
def map (f : σ → τ) : Outcome σ → Outcome τ
  | ok s => ok (f s)
  | failed e s => failed e (f s)

@[simp] theorem ok_andThen (s : σ) (next : σ → Outcome σ) : (ok s).andThen next = next s := rfl

@[simp] theorem failed_andThen (e : EvalError) (s : σ) (next : σ → Outcome σ) :
    (failed e s).andThen next = failed e s := rfl

theorem andThen_assoc (o : Outcome σ) (f g : σ → Outcome σ) :
    (o.andThen f).andThen g = o.andThen fun s => (f s).andThen g := by
  cases o <;> rfl

/-- A step without an error succeeded. -/
theorem exists_ok_of_error? {o : Outcome σ} (h : o.error?.isNone = true) : ∃ s, o = ok s := by
  cases o with
  | ok s => exact ⟨s, rfl⟩
  | failed e s => cases h

end Outcome

/-! ## 2. The state -/

/-- The state that instructions work on. -/
structure Machine where
  /-- The operands, last one first. -/
  operands : List Float
  /-- The operators, last one first. -/
  operators : List Operator
  /-- The values of variables. -/
  memory : Variables
  /-- The events, last one first. -/
  events : List Event

namespace Machine

/-- A machine at the start of an evaluation: the outermost scope is open. -/
def initial (memory : Variables) : Machine := ⟨[], [.scope], memory, []⟩

/-- The machine with one more operand on top. -/
def pushOperand (x : Float) (m : Machine) : Machine := { m with operands := x :: m.operands }

/-- The machine with one more operator on top. -/
def pushOperator (op : Operator) (m : Machine) : Machine :=
  { m with operators := op :: m.operators }

/-- The machine with one more event. -/
def record (e : Event) (m : Machine) : Machine := { m with events := e :: m.events }

/-! ## 3. Applying operators -/

/-- A failure of the arithmetic at `position`. -/
def fault (position : Nat) (f : ArithmeticFault) (m : Machine) : Outcome Machine :=
  .failed ⟨position, .arithmetic f⟩ m

/-- The result of an operator is rounded and stacked; strict evaluation refuses one that is not
    finite. -/
def deliver (s : Settings) (position : Nat) (op : Operator) (operands : List Float) (raw : Float)
    (m : Machine) : Outcome Machine :=
  let result := Number.roundTo raw s.precision
  if s.strict && !result.isFinite then m.fault position (.notFinite op result)
  else .ok ((m.record (.reduced op operands result)).pushOperand result)

/-- Whether strict evaluation refuses to apply `op` to `x`. -/
def refuses (s : Settings) (op : UnaryOp) (x : Float) : Bool :=
  s.strict && op = .factorial && !Number.hasFactorial x

/-- An operator that was taken from the stack takes its operands, the right one first, and leaves
    its result. -/
def applyOperator (s : Settings) (position : Nat) (op : Operator) (m : Machine) :
    Outcome Machine :=
  match op, m.operands with
  | .scope, _ => m.fault position (.notApplicable .scope)
  | .binary f, right :: left :: rest =>
    { m with operands := rest }.deliver s position (.binary f) [left, right] (f.apply left right)
  | .binary f, _ => { m with operands := [] }.fault position (.missingOperand (.binary f))
  | .unary f, x :: rest =>
    if refuses s f x then { m with operands := rest }.fault position (.outsideFactorial x)
    else { m with operands := rest }.deliver s position (.unary f) [x] (f.apply x)
  | .unary f, [] => m.fault position (.missingOperand (.unary f))

/-- The operator on top is taken and applied. -/
def reduce (s : Settings) (position : Nat) (m : Machine) : Outcome Machine :=
  match m.operators with
  | [] => m.fault position .noOperator
  | op :: rest => { m with operators := rest }.applyOperator s position op

/-- `reduce`, so many times. -/
def reduceTimes (s : Settings) (position : Nat) : Nat → Machine → Outcome Machine
  | 0, m => .ok m
  | n + 1, m => (m.reduce s position).andThen (reduceTimes s position n)

/-- `reduce`, as long as the operator on top satisfies `test`. -/
def reduceWhile (s : Settings) (position : Nat) (test : Operator → Bool) (m : Machine) :
    Outcome Machine :=
  m.reduceTimes s position (m.operators.takeWhile test).length

/-- Every operator above the innermost scope mark is applied. -/
def settle (s : Settings) (position : Nat) (m : Machine) : Outcome Machine :=
  m.reduceWhile s position (· ≠ .scope)

/-- An operator is stacked after those in its scope that bind at least as tightly were applied. -/
def stackOperator (s : Settings) (position : Nat) (op : Operator) (m : Machine) :
    Outcome Machine :=
  (m.reduceWhile s position fun top => top ≠ .scope && top.reducesBefore op).andThen
    fun m => .ok (m.pushOperator op)

/-! ## 4. Scopes and variables -/

/-- The innermost scope is closed; all its operators have to be applied by then. -/
def closeScope (position : Nat) (m : Machine) : Outcome Machine :=
  match m.operators with
  | [] => m.fault position .noScope
  | .scope :: rest => .ok { m with operators := rest }
  | op :: rest => { m with operators := rest }.fault position (.unreduced op)

/-- The value of a variable; strict evaluation refuses a name without one, the other takes zero. -/
def lookUp (s : Settings) (position : Nat) (name : String) (m : Machine) :
    Except EvalError Float :=
  match m.memory.get? name with
  | some value => .ok value
  | none => if s.strict then .error ⟨position, .unknownVariable name⟩ else .ok 0

/-- The machine with a name bound to a value, and the event of it. -/
def bindName (name : String) (value : Float) (m : Machine) : Machine :=
  { m.record (.assigned name value) with memory := m.memory.set name value }

/-- The value of a variable is stacked. -/
def read (s : Settings) (position : Nat) (name : String) (m : Machine) : Outcome Machine :=
  match m.lookUp s position name with
  | .ok value => .ok ((m.record (.read name position (m.memory.get? name))).pushOperand value)
  | .error e => .failed e m

/-- A name is bound to the operand on top. -/
def assign (position : Nat) (name : String) (m : Machine) : Outcome Machine :=
  match m.operands with
  | [] => .failed ⟨position, .unexpectedEnd⟩ m
  | value :: _ => .ok (m.bindName name value)

/-! ## 5. One instruction -/

/-- The outcome of an instruction issued at `position`. -/
def step (s : Settings) (position : Nat) (i : Instruction) (m : Machine) : Outcome Machine :=
  match i with
  | .literal value => .ok (m.pushOperand value)
  | .read name start => m.read s start name
  | .operator op => m.stackOperator s position op
  | .hold op => .ok (m.pushOperator op)
  | .openScope => .ok (m.pushOperator .scope)
  | .closeScope => m.closeScope position
  | .settle => m.settle s position
  | .assign name => m.assign position name

end Machine

end DeskCalculator
