import DeskCalculator.Proofs.Program

/-!
# Machines that agree

Where in a text its code was issued shows in the places of events and errors only. This file fixes

* `Instruction.unplaced`, `Code.outline` -- instructions without their places;
* `Instruction.Reads` -- the names that code looks up;
* `Machine.Agrees`, `Outcome.Agrees` -- equal stacks, and tables that are equal on some names;
* `get?_exec` -- code leaves alone every name that it does not bind;
* `Alike` -- equal values or errors of one cause, and tables that agree.

Main statements: **code of one outline leads from machines that agree to machines that agree**, if
they agree on what it reads (`agrees_exec`); and **lines whose code does so have answers that are
alike** if their readings end alike (`alike_evaluate`).
-/

namespace DeskCalculator

/-! ## 1. Code without places -/

namespace Instruction

/-- The instruction without the place of a name. -/
def unplaced : Instruction → Instruction
  | read name _ => read name 0
  | i => i

/-- The instruction looks the name up. -/
def Reads (i : Instruction) (name : String) : Prop := ∃ position, i = .read name position

theorem eq_or_reads_of_unplaced {i i' : Instruction} (h : i.unplaced = i'.unplaced) :
    i = i' ∨ ∃ name position position', i = .read name position ∧ i' = .read name position' := by
  cases i <;> cases i' <;> simp_all [unplaced]

theorem reads_unplaced {i : Instruction} {name : String} : i.unplaced.Reads name ↔ i.Reads name := by
  cases i <;> simp [unplaced, Reads]

theorem unplaced_eq_assign_iff {i : Instruction} {name : String} :
    i.unplaced = .assign name ↔ i = .assign name := by
  cases i <;> simp [unplaced]

end Instruction

/-- The instructions of a piece of code without their places. -/
def Code.outline (code : Code) : List Instruction := code.map fun i => i.instruction.unplaced

theorem outline_append (c d : Code) : Code.outline (c ++ d) = c.outline ++ Code.outline d :=
  List.map_append

theorem outline_cons (i : Issued) (c : Code) :
    Code.outline (i :: c) = i.instruction.unplaced :: c.outline := rfl

/-- All names that are looked up satisfy `P`. -/
def ReadsOnly (P : String → Prop) (is : List Instruction) : Prop :=
  ∀ i ∈ is, ∀ name, i.Reads name → P name

theorem readsOnly_settle {P : String → Prop} : ReadsOnly P [.settle] := by
  intro i hi name hreads
  obtain ⟨position, hread⟩ := hreads
  rw [List.mem_singleton.1 hi] at hread
  cases hread

/-! ## 2. Agreement -/

/-- Equal stacks, and equal values of the names with `P`. -/
structure Machine.Agrees (P : String → Prop) (m m' : Machine) : Prop where
  operands : m.operands = m'.operands
  operators : m.operators = m'.operators
  memory : ∀ name, P name → m.memory.get? name = m'.memory.get? name

/-- Both succeed or both fail for one cause, and the machines agree. -/
inductive Outcome.Agrees (P : String → Prop) : Outcome Machine → Outcome Machine → Prop where
  | ok {m m' : Machine} (h : m.Agrees P m') : Agrees P (.ok m) (.ok m')
  | failed {err err' : EvalError} {m m' : Machine} (hcause : err.cause = err'.cause)
      (h : m.Agrees P m') : Agrees P (.failed err m) (.failed err' m')

theorem Machine.Agrees.trans {P : String → Prop} {m₁ m₂ m₃ : Machine} (h : m₁.Agrees P m₂)
    (h' : m₂.Agrees P m₃) : m₁.Agrees P m₃ :=
  ⟨h.operands.trans h'.operands, h.operators.trans h'.operators,
    fun name hname => (h.memory name hname).trans (h'.memory name hname)⟩

theorem Outcome.Agrees.trans {P : String → Prop} {o₁ o₂ o₃ : Outcome Machine}
    (h : o₁.Agrees P o₂) (h' : o₂.Agrees P o₃) : o₁.Agrees P o₃ := by
  cases h with
  | ok h =>
    cases h' with
    | ok h' => exact .ok (h.trans h')
  | failed hcause h =>
    cases h' with
    | failed hcause' h' => exact .failed (hcause.trans hcause') (h.trans h')

/-- Machines that agree on all names agree on some. -/
theorem Outcome.Agrees.mono {P Q : String → Prop} {o o' : Outcome Machine} (h : o.Agrees Q o')
    (hPQ : ∀ name, P name → Q name) : o.Agrees P o' := by
  cases h with
  | ok h => exact .ok ⟨h.operands, h.operators, fun name hname => h.memory name (hPQ name hname)⟩
  | failed hcause h =>
    exact .failed hcause ⟨h.operands, h.operators, fun name hname => h.memory name (hPQ name hname)⟩

theorem Outcome.Agrees.andThen_of_ok {P : String → Prop} {o o' : Outcome Machine}
    {f f' : Machine → Outcome Machine} (h : o.Agrees P o')
    (hf : ∀ m m', o = .ok m → o' = .ok m' → m.Agrees P m' → (f m).Agrees P (f' m')) :
    (o.andThen f).Agrees P (o'.andThen f') := by
  cases h with
  | ok h => exact hf _ _ rfl rfl h
  | failed hcause h => exact .failed hcause h

theorem Outcome.Agrees.andThen {P : String → Prop} {o o' : Outcome Machine}
    {f f' : Machine → Outcome Machine} (h : o.Agrees P o')
    (hf : ∀ m m', m.Agrees P m' → (f m).Agrees P (f' m')) :
    (o.andThen f).Agrees P (o'.andThen f') :=
  h.andThen_of_ok fun m m' _ _ => hf m m'

namespace Machine

variable {P : String → Prop} {s : Settings} {m m' : Machine} {position position' : Nat}

theorem Agrees.refl (P : String → Prop) (m : Machine) : m.Agrees P m := ⟨rfl, rfl, fun _ _ => rfl⟩

theorem Agrees.pushOperand (h : m.Agrees P m') (x : Float) :
    (m.pushOperand x).Agrees P (m'.pushOperand x) :=
  ⟨congrArg (x :: ·) h.operands, h.operators, h.memory⟩

theorem Agrees.pushOperator (h : m.Agrees P m') (op : Operator) :
    (m.pushOperator op).Agrees P (m'.pushOperator op) :=
  ⟨h.operands, congrArg (op :: ·) h.operators, h.memory⟩

theorem Agrees.record (h : m.Agrees P m') (e e' : Event) : (m.record e).Agrees P (m'.record e') :=
  ⟨h.operands, h.operators, h.memory⟩

theorem Agrees.withOperators (h : m.Agrees P m') (ops : List Operator) :
    Agrees P { m with operators := ops } { m' with operators := ops } := ⟨h.operands, rfl, h.memory⟩

theorem Agrees.withOperands (h : m.Agrees P m') (xs : List Float) :
    Agrees P { m with operands := xs } { m' with operands := xs } := ⟨rfl, h.operators, h.memory⟩

theorem Agrees.fault (h : m.Agrees P m') (f : ArithmeticFault) :
    (m.fault position f).Agrees P (m'.fault position' f) := .failed rfl h

theorem agrees_deliver (h : m.Agrees P m') (op : Operator) (operands : List Float) (raw : Float) :
    (m.deliver s position op operands raw).Agrees P
      (m'.deliver s position' op operands raw) := by
  unfold deliver
  simp only
  split
  · exact h.fault _
  · exact .ok ((h.record _ _).pushOperand _)

theorem agrees_applyOperator (h : m.Agrees P m') (op : Operator) :
    (m.applyOperator s position op).Agrees P (m'.applyOperator s position' op) := by
  unfold applyOperator
  rw [← h.operands]
  split
  · exact h.fault _
  · exact agrees_deliver (h.withOperands _) _ _ _
  · exact (h.withOperands _).fault _
  · split
    · exact (h.withOperands _).fault _
    · exact agrees_deliver (h.withOperands _) _ _ _
  · exact h.fault _

theorem agrees_reduceTimes (n : Nat) (h : m.Agrees P m') :
    (m.reduceTimes s position n).Agrees P (m'.reduceTimes s position' n) := by
  induction n generalizing m m' with
  | zero => exact .ok h
  | succ n ih =>
    refine Outcome.Agrees.andThen ?_ fun _ _ h => ih h
    unfold reduce
    rw [← h.operators]
    split
    · exact h.fault _
    · exact agrees_applyOperator (h.withOperators _) _

theorem agrees_reduceWhile (test : Operator → Bool) (h : m.Agrees P m') :
    (m.reduceWhile s position test).Agrees P (m'.reduceWhile s position' test) := by
  unfold reduceWhile
  rw [← h.operators]
  exact agrees_reduceTimes _ h

theorem agrees_read (h : m.Agrees P m') {name : String} (hname : P name) :
    (m.read s position name).Agrees P (m'.read s position' name) := by
  unfold read lookUp
  rw [← h.memory name hname]
  cases m.memory.get? name with
  | some x => exact .ok ((h.record _ _).pushOperand x)
  | none =>
    cases s.strict with
    | true => exact .failed rfl h
    | false => exact .ok ((h.record _ _).pushOperand 0)

theorem agrees_closeScope (h : m.Agrees P m') :
    (m.closeScope position).Agrees P (m'.closeScope position') := by
  unfold closeScope
  rw [← h.operators]
  split
  · exact h.fault _
  · exact .ok (h.withOperators _)
  · exact (h.withOperators _).fault _

theorem agrees_bindName (h : m.Agrees P m') (name : String) (x : Float) :
    (m.bindName name x).Agrees P (m'.bindName name x) := by
  refine ⟨h.operands, h.operators, fun other hother => ?_⟩
  show (m.memory.set name x).get? other = (m'.memory.set name x).get? other
  rw [Variables.get?_set, Variables.get?_set, h.memory other hother]

theorem agrees_assign (h : m.Agrees P m') (name : String) :
    (m.assign position name).Agrees P (m'.assign position' name) := by
  unfold assign
  rw [← h.operands]
  split
  · exact .failed rfl h
  · exact .ok (agrees_bindName h name _)

/-- **One instruction leads on from agreement to agreement**, wherever it was issued. -/
theorem agrees_step (h : m.Agrees P m') {i i' : Instruction} (hi : i.unplaced = i'.unplaced)
    (hreads : ∀ name, i.Reads name → P name) :
    (m.step s position i).Agrees P (m'.step s position' i') := by
  rcases Instruction.eq_or_reads_of_unplaced hi with rfl | ⟨name, start, start', rfl, rfl⟩
  · cases i with
    | literal x => exact .ok (h.pushOperand x)
    | read name start => exact agrees_read h (hreads name ⟨start, rfl⟩)
    | operator op =>
      exact (agrees_reduceWhile _ h).andThen fun m m' h => .ok (h.pushOperator op)
    | hold op => exact .ok (h.pushOperator op)
    | openScope => exact .ok (h.pushOperator .scope)
    | closeScope => exact agrees_closeScope h
    | settle => exact agrees_reduceWhile _ h
    | assign name => exact agrees_assign h name
  · exact agrees_read h (hreads name ⟨start, rfl⟩)

/-- **Code of one outline leads on from agreement to agreement.** -/
theorem agrees_exec {code code' : Code} (h : m.Agrees P m')
    (hcode : code.outline = code'.outline) (hreads : ReadsOnly P code.outline) :
    (m.exec s code).Agrees P (m'.exec s code') := by
  induction code generalizing code' m m' with
  | nil =>
    rw [List.map_eq_nil_iff.1 hcode.symm]
    exact .ok h
  | cons i code ih =>
    cases code' with
    | nil => cases hcode
    | cons i' code' =>
      rw [outline_cons, outline_cons, List.cons.injEq] at hcode
      rw [outline_cons] at hreads
      refine (agrees_step h hcode.1 ?_).andThen fun _ _ h => ih h hcode.2 ?_
      · exact fun name hname =>
          hreads _ List.mem_cons_self name (Instruction.reads_unplaced.2 hname)
      · exact fun j hj => hreads j (List.mem_cons_of_mem _ hj)

/-- On one machine, code of one outline does the same. -/
theorem agrees_exec_self (P : String → Prop) (s : Settings) (m : Machine) {code code' : Code}
    (hcode : code.outline = code'.outline) : (m.exec s code).Agrees P (m.exec s code') :=
  (agrees_exec (Agrees.refl (fun _ => True) m) hcode fun _ _ _ _ => trivial).mono
    fun _ _ => trivial

/-! ## 3. What code leaves alone -/

variable (s : Settings) (position : Nat)

theorem memory_applyOperator (op : Operator) (m : Machine) :
    (m.applyOperator s position op).state.memory = m.memory := by
  unfold applyOperator deliver
  simp only
  split <;> (try split) <;> (try split) <;> rfl

theorem memory_reduceTimes (n : Nat) (m : Machine) :
    (m.reduceTimes s position n).state.memory = m.memory := by
  induction n generalizing m with
  | zero => rfl
  | succ n ih =>
    have hfirst : (m.reduce s position).state.memory = m.memory := by
      unfold reduce
      split
      · rfl
      · exact memory_applyOperator s position _ _
    rw [reduceTimes]
    cases hr : m.reduce s position with
    | ok m₁ =>
      rw [hr] at hfirst
      exact (ih m₁).trans hfirst
    | failed err m₁ =>
      rw [hr] at hfirst
      exact hfirst

/-- **An instruction leaves alone every name that it does not bind.** -/
theorem get?_step {i : Instruction} {name : String}
    (h : ∀ bound, i = .assign bound → foldName bound ≠ foldName name) (m : Machine) :
    (m.step s position i).state.memory.get? name = m.memory.get? name := by
  cases i with
  | literal x => rfl
  | read other start =>
    unfold step read
    simp only
    split <;> rfl
  | operator op =>
    have hreduce := memory_reduceTimes s position
      (m.operators.takeWhile fun top => top ≠ .scope && top.reducesBefore op).length m
    simp only [step, stackOperator, reduceWhile]
    generalize m.reduceTimes s position _ = o at hreduce
    cases o <;> exact congrArg (Variables.get? · name) hreduce
  | hold op => rfl
  | openScope => rfl
  | closeScope =>
    simp only [step, closeScope]
    split <;> rfl
  | settle => exact congrArg (Variables.get? · name) (memory_reduceTimes s position _ m)
  | assign bound =>
    simp only [step, assign]
    split
    · rfl
    · show (m.memory.set bound _).get? name = _
      rw [Variables.get?_set, if_neg (h bound rfl)]

/-- **So does any code.** -/
theorem get?_exec {code : Code} {name : String}
    (h : ∀ bound, .assign bound ∈ code.outline → foldName bound ≠ foldName name) (m : Machine) :
    (m.exec s code).state.memory.get? name = m.memory.get? name := by
  induction code generalizing m with
  | nil => rfl
  | cons i code ih =>
    rw [outline_cons] at h
    have hstep := get?_step s i.cursor.position
      (fun bound hi => h bound (by
        rw [← Instruction.unplaced_eq_assign_iff.2 hi]
        exact List.mem_cons_self)) m
    rw [exec]
    cases hm : m.step s i.cursor.position i.instruction with
    | ok m₁ =>
      rw [hm] at hstep
      exact (ih (fun bound hi => h bound (List.mem_cons_of_mem _ hi)) m₁).trans hstep
    | failed err m₁ =>
      rw [hm] at hstep
      exact hstep

end Machine

/-! ## 4. Evaluations -/

/-- How a reading ends: at the end of the text or before it, or with a refusal. -/
def Reading.fate (r : Reading) : Except Cause Bool :=
  match r.stop with
  | .ok c => .ok c.atEnd
  | .error refusal => .error refusal.error.cause

/-- How a program ends: with the operand that is left, or with an error. -/
def Program.fate (p : Program) : Except Cause Unit :=
  (p.ending.map fun _ => ()).mapError EvalError.cause

/-- Equal values or errors of one cause, and tables that agree on the names with `P`. -/
structure Alike (P : String → Prop) (result result' : Except EvalError Float)
    (memory memory' : Variables) : Prop where
  result : result.mapError EvalError.cause = result'.mapError EvalError.cause
  memory : ∀ name, P name → memory.get? name = memory'.get? name

/-- Both have one value, or both fail for one cause. -/
theorem Alike.ok_or_error {P : String → Prop} {result result' : Except EvalError Float}
    {memory memory' : Variables} (h : Alike P result result' memory memory') :
    (∃ x, result = .ok x ∧ result' = .ok x) ∨
      ∃ err err', result = .error err ∧ result' = .error err' ∧ err.cause = err'.cause := by
  have hresult := h.result
  cases result with
  | error err =>
    cases result' with
    | error err' => exact .inr ⟨err, err', rfl, rfl, Except.error.inj hresult⟩
    | ok x' => cases hresult
  | ok x =>
    cases result' with
    | error err' => cases hresult
    | ok x' => exact .inl ⟨x, rfl, congrArg Except.ok (Except.ok.inj hresult).symm⟩

/-- Both make the same value the last answer, or neither makes any. -/
theorem Alike.concluded {P : String → Prop} {result result' : Except EvalError Float}
    {memory memory' : Variables} (h : Alike P result result' memory memory') (name : String)
    (hname : P name) :
    (memory.concluded result).get? name = (memory'.concluded result').get? name := by
  rcases h.ok_or_error with ⟨x, rfl, rfl⟩ | ⟨err, err', rfl, rfl, -⟩
  · rw [Variables.concluded, Variables.concluded, Variables.setLastAnswer,
      Variables.setLastAnswer, Variables.get?_set, Variables.get?_set, h.memory name hname]
  · exact h.memory name hname

section Evaluations

variable {P : String → Prop} {s : Settings} {m m' : Machine}

/-- **Programs that end alike come to the same** if their code does. -/
theorem Program.alike_outcome {p p' : Program}
    (hexec : (m.exec s p.code).Agrees P (m'.exec s p'.code)) (hfate : p.fate = p'.fate) :
    Alike P (p.outcome s m).1 (p'.outcome s m').1 (p.outcome s m).2.memory
      (p'.outcome s m').2.memory := by
  obtain ⟨code, ending⟩ := p
  obtain ⟨code', ending'⟩ := p'
  unfold outcome
  simp only at hexec ⊢
  generalize m.exec s code = o, m'.exec s code' = o' at hexec
  cases hexec with
  | failed hcause h => exact ⟨congrArg Except.error hcause, h.memory⟩
  | @ok m₁ m₁' h =>
    cases ending with
    | error err =>
      cases ending' with
      | error err' =>
        have hcause : err.cause = err'.cause := Except.error.inj hfate
        exact ⟨congrArg Except.error hcause, h.memory⟩
      | ok n' => cases hfate
    | ok n =>
      cases ending' with
      | error err' => cases hfate
      | ok n' =>
        simp only [← h.operands]
        match m₁.operands with
        | [] => exact ⟨rfl, h.memory⟩
        | [x] => exact ⟨rfl, h.memory⟩
        | _ :: _ :: _ => exact ⟨rfl, h.memory⟩

/-- **Readings that end alike have programs that come to the same** if their code does. -/
theorem Reading.alike_outcome {r r' : Reading}
    (hexec : (m.exec s r.code).Agrees P (m'.exec s r'.code)) (hfate : r.fate = r'.fate) :
    Alike P (r.program.outcome s m).1 (r'.program.outcome s m').1
      (r.program.outcome s m).2.memory (r'.program.outcome s m').2.memory := by
  obtain ⟨code, stop⟩ := r
  obtain ⟨code', stop'⟩ := r'
  cases stop with
  | error refusal =>
    cases stop' with
    | error refusal' =>
      have hcause := Except.error.inj hfate
      exact Program.alike_outcome (p := ⟨code, .error refusal.error⟩) hexec
        (congrArg Except.error hcause)
    | ok c' => cases hfate
  | ok c =>
    cases stop' with
    | error refusal' => cases hfate
    | ok c' =>
      have hend : c.atEnd = c'.atEnd := Except.ok.inj hfate
      simp only [program, ← hend]
      split
      · -- at the end of both texts the stacks are settled once more
        refine Program.alike_outcome ?_ rfl
        simp only [Machine.exec_append]
        exact hexec.andThen fun _ _ h => Machine.agrees_exec h rfl readsOnly_settle
      · exact Program.alike_outcome (p := ⟨code, .error _⟩) hexec rfl

/-- **Lines of such readings have answers that agree.** -/
theorem alike_evaluate {memory memory' : Variables} {line line' : String}
    {source source' : Source} (hs : Source.ofLine line = .ok source)
    (hs' : Source.ofLine line' = .ok source')
    (hexec : ((Machine.initial memory).exec s source.start.readChain.code).Agrees P
      ((Machine.initial memory').exec s source'.start.readChain.code))
    (hfate : source.start.readChain.fate = source'.start.readChain.fate) :
    let answer := Calculator.evaluate ⟨memory, s⟩ line
    let answer' := Calculator.evaluate ⟨memory', s⟩ line'
    Alike P answer.result answer'.result answer.calculator.memory answer'.calculator.memory := by
  have halike := Reading.alike_outcome hexec hfate
  simp only
  rw [memory_of_ofLine hs, memory_of_ofLine hs', result_of_ofLine hs, result_of_ofLine hs']
  exact ⟨halike.result, halike.concluded⟩

end Evaluations

end DeskCalculator
