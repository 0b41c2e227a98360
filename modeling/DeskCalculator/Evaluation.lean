import DeskCalculator.Machine
import DeskCalculator.Reading
import DeskCalculator.Source

/-!
# Evaluations

An evaluation under way is a cursor in a source and a machine. Reading and running alternate as the
caller likes; the usual course, `Evaluation.complete`, reads one chain up to the end of the source
and takes its value.

* `perform`, `run` -- one instruction at the cursor, and a piece of code, each instruction at its own;
* `follow` -- a reading: its code runs first, and only if all of it succeeds does the place where
  reading stopped count;
* `operand`, `chain`, `expect`, `expectEnd`, `advance` -- the ways to go ahead in the source;
* `takeValue`, `complete` -- the end.
-/

namespace DeskCalculator

/-- A place in a source, with the machine as it is there. -/
structure Evaluation where
  settings : Settings
  cursor : Cursor
  machine : Machine

namespace Evaluation

/-- An evaluation at the start of a source. -/
def start (settings : Settings) (memory : Variables) (source : Source) : Evaluation :=
  ⟨settings, source.start, .initial memory⟩

/-! ## 1. Running code -/

/-- An outcome of the machine as an outcome of the evaluation. -/
def lift (e : Evaluation) (o : Outcome Machine) : Outcome Evaluation :=
  o.map fun machine => { e with machine }

/-- One instruction, at the cursor. -/
def perform (i : Instruction) (e : Evaluation) : Outcome Evaluation :=
  e.lift (e.machine.step e.settings e.cursor.position i)

/-- The operator on top is applied, at the cursor. -/
def reduce (e : Evaluation) : Outcome Evaluation :=
  e.lift (e.machine.reduce e.settings e.cursor.position)

/-- The instructions one after the other, each at its own cursor, until one fails. -/
def run : Code → Evaluation → Outcome Evaluation
  | [], e => .ok e
  | i :: rest, e => (perform i.instruction { e with cursor := i.cursor }).andThen (run rest)

theorem run_append (c d : Code) (e : Evaluation) :
    e.run (c ++ d) = (e.run c).andThen fun e => e.run d := by
  induction c generalizing e with
  | nil => rfl
  | cons i c ih =>
    simp only [List.cons_append, run, Outcome.andThen_assoc]
    congr 1
    funext e'
    exact ih e'

/-- The code of a reading, then its stop. -/
def follow (r : Reading) (e : Evaluation) : Outcome Evaluation :=
  (e.run r.code).andThen fun e =>
    match r.stop with
    | .ok cursor => .ok { e with cursor }
    | .error refusal => .failed refusal.error { e with cursor := refusal.cursor }

/-! ## 2. Going ahead -/

/-- One operand with all that belongs to it. -/
def operand (e : Evaluation) : Outcome Evaluation := e.follow e.cursor.readOperand

/-- A chain of operands; its value is on top afterwards. -/
def chain (e : Evaluation) : Outcome Evaluation := e.follow e.cursor.readChain

/-- The evaluation one character ahead. -/
def advance (e : Evaluation) : Evaluation := { e with cursor := e.cursor.advance }

/-- A symbol that has to stand at the cursor is passed. -/
def expect (symbol : Symbol) (requirement : Requirement) (e : Evaluation) : Outcome Evaluation :=
  if Symbol.ofChar? e.cursor.current = some symbol then .ok e.advance
  else .failed ⟨e.cursor.position, .expected requirement⟩ e

/-- The cursor has to be at the final terminator. -/
def expectEnd (e : Evaluation) : Outcome Evaluation :=
  if e.cursor.atEnd then .ok e
  else .failed ⟨e.cursor.position, .expected .endOfExpression⟩ e

/-! ## 3. The end -/

/-- What still waits is applied; the one operand left is the value. -/
def takeValue (e : Evaluation) : Except EvalError Float × Evaluation :=
  match e.perform .settle with
  | .failed error e => (.error error, e)
  | .ok e =>
    match e.machine.operands with
    | [value] => (.ok value, e)
    | _ => (.error ⟨e.cursor.position, .arithmetic .notSingle⟩, e)

/-- One chain up to the end of the source, and its value. -/
def complete (e : Evaluation) : Except EvalError Float × Evaluation :=
  match e.chain.andThen expectEnd with
  | .failed error e => (.error error, e)
  | .ok e => e.takeValue

end Evaluation

end DeskCalculator
