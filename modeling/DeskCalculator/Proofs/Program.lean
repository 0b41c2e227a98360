import DeskCalculator.Proofs.Completion

/-!
# The program of a source

An evaluation is the run of one piece of code, fixed by the text before any value is known. This file
fixes

* `Machine.exec` -- code on a machine; an evaluation runs its code so (`map_machine_run`);
* `Program`, `Program.outcome` -- all the code of a text with what comes after it, and what a machine
  comes to by it;
* `Reading.program`, `Source.program` -- the program of a reading and of a source;
* `Source.closing` -- the event at the end of an evaluation that has a value.

Main statement: **an evaluation comes to what the program of its source does** (`evaluate_of_outcome`).
-/

namespace DeskCalculator

/-! ## 1. Code on a machine -/

namespace Machine

/-- The instructions one after the other, each at its own place, until one fails. -/
def exec (s : Settings) : Code → Machine → Outcome Machine
  | [], m => .ok m
  | i :: code, m => (m.step s i.cursor.position i.instruction).andThen (exec s code)

theorem exec_append (s : Settings) (c d : Code) (m : Machine) :
    m.exec s (c ++ d) = (m.exec s c).andThen (exec s d) := by
  induction c generalizing m with
  | nil => rfl
  | cons i c ih =>
    rw [List.cons_append, exec, exec, Outcome.andThen_assoc]
    congr 1
    funext m'
    exact ih m'

theorem exec_singleton (s : Settings) (i : Issued) (m : Machine) :
    m.exec s [i] = m.step s i.cursor.position i.instruction := by
  rw [exec]
  cases m.step s i.cursor.position i.instruction <;> rfl

theorem exec_append_of_ok {s : Settings} {c : Code} {m m' : Machine} (h : m.exec s c = .ok m')
    (d : Code) : m.exec s (c ++ d) = m'.exec s d := by
  rw [exec_append, h, Outcome.ok_andThen]

end Machine

/-- **The machine of an evaluation runs the code alone.** -/
theorem Evaluation.map_machine_run (code : Code) (e : Evaluation) :
    (e.run code).map Evaluation.machine = e.machine.exec e.settings code := by
  induction code generalizing e with
  | nil => rfl
  | cons i code ih =>
    obtain ⟨settings, cursor, m⟩ := e
    have hrun : Evaluation.run (i :: code) ⟨settings, cursor, m⟩ =
        ((m.step settings i.cursor.position i.instruction).map fun m' =>
          (⟨settings, i.cursor, m'⟩ : Evaluation)).andThen (Evaluation.run code) := rfl
    rw [hrun, Machine.exec]
    cases m.step settings i.cursor.position i.instruction with
    | ok m' => exact ih ⟨settings, i.cursor, m'⟩
    | failed err m' => rfl

/-- **Running code leaves the settings alone.** -/
theorem Evaluation.settings_run (code : Code) (e : Evaluation) :
    (e.run code).state.settings = e.settings := by
  induction code generalizing e with
  | nil => rfl
  | cons i code ih =>
    obtain ⟨settings, cursor, m⟩ := e
    rw [Evaluation.run, perform, lift]
    cases m.step settings i.cursor.position i.instruction with
    | ok m' => exact ih ⟨settings, i.cursor, m'⟩
    | failed err m' => rfl

/-! ## 2. Programs -/

/-- All the code of a text, and what comes after it: an error, or the end at a position. -/
structure Program where
  code : Code
  ending : Except EvalError Nat

/-- What a machine comes to by a program: an error, or the one operand that is left. -/
def Program.outcome (p : Program) (s : Settings) (m : Machine) :
    Except EvalError Float × Machine :=
  match m.exec s p.code with
  | .failed err m => (.error err, m)
  | .ok m =>
    match p.ending, m.operands with
    | .error err, _ => (.error err, m)
    | .ok _, [x] => (.ok x, m)
    | .ok position, _ => (.error ⟨position, .arithmetic .notSingle⟩, m)

/-- The program of a reading that is to come to the end of the text; what still waits there is
    applied. -/
def Reading.program (r : Reading) : Program :=
  match r.stop with
  | .error refusal => ⟨r.code, .error refusal.error⟩
  | .ok c =>
    if c.atEnd then ⟨r.code ++ [⟨c, .settle⟩], .ok c.position⟩
    else ⟨r.code, .error ⟨c.position, .expected .endOfExpression⟩⟩

/-- The program of a source. -/
def Source.program (source : Source) : Program := source.start.readChain.program

/-- A program is the code of its reading; only what waits at the end is added. -/
theorem Reading.mem_program {r : Reading} {i : Issued} (h : i ∈ r.program.code) :
    i ∈ r.code ∨ i.instruction = .settle := by
  unfold program at h
  split at h
  · exact .inl h
  · split at h
    · rcases List.mem_append.1 h with h | h
      · exact .inl h
      · rw [List.mem_singleton.1 h]
        exact .inr rfl
    · exact .inl h

theorem Reading.program_of_atEnd {r : Reading} {c : Cursor} (h : r.stop = .ok c)
    (hend : c.atEnd = true) : r.program = ⟨r.code ++ [⟨c, .settle⟩], .ok c.position⟩ := by
  rw [program, h]
  exact if_pos hend

section Outcome

variable {p : Program} {s : Settings} {m m' : Machine} {err : EvalError}

theorem Program.outcome_of_failed (h : m.exec s p.code = .failed err m') :
    p.outcome s m = (.error err, m') := by
  rw [outcome, h]

theorem Program.outcome_of_error (h : m.exec s p.code = .ok m') (he : p.ending = .error err) :
    p.outcome s m = (.error err, m') := by
  rw [outcome, h]
  simp only [he]

/-- The machine that a program leaves is the one that its code leaves. -/
theorem Program.snd_outcome (p : Program) (s : Settings) (m : Machine) :
    (p.outcome s m).2 = (m.exec s p.code).state := by
  unfold outcome
  split
  · next h => rw [h, Outcome.state]
  · next h =>
    rw [h, Outcome.state]
    split <;> rfl

/-- **An evaluation completes as the program of its chain says.** -/
theorem Evaluation.complete_eq_outcome (e : Evaluation) :
    (e.complete.1, e.complete.2.machine) =
      e.cursor.readChain.program.outcome e.settings e.machine := by
  have hexec := Evaluation.map_machine_run e.cursor.readChain.code e
  cases hrun : e.run e.cursor.readChain.code with
  | failed err e' =>
    rw [hrun] at hexec
    have hfailed : ∀ code, e.machine.exec e.settings (e.cursor.readChain.code ++ code) =
        .failed err e'.machine := by
      intro code
      rw [Machine.exec_append, ← hexec]
      rfl
    have hcode := hfailed []
    rw [List.append_nil] at hcode
    rw [complete_of_run_failed hrun, Program.outcome_of_failed]
    unfold Reading.program
    split
    · exact hcode
    · split
      · exact hfailed _
      · exact hcode
  | ok e' =>
    rw [hrun] at hexec
    cases hstop : e.cursor.readChain.stop with
    | error refusal =>
      rw [complete_of_refused hrun hstop, Reading.program, hstop,
        Program.outcome_of_error hexec.symm rfl]
    | ok stop =>
      cases hend : stop.atEnd with
      | false =>
        rw [complete_of_beforeEnd hrun hstop hend, Reading.program, hstop]
        simp only [hend, Bool.false_eq_true, if_false]
        rw [Program.outcome_of_error hexec.symm rfl]
      | true =>
        have hsettings := Evaluation.settings_run e.cursor.readChain.code e
        rw [hrun] at hsettings
        have hcomplete : e.complete = Evaluation.takeValue { e' with cursor := stop } := by
          simp only [Evaluation.complete, chain_of_stop hrun hstop, Outcome.ok_andThen,
            Evaluation.expectEnd, hend, if_true]
        rw [hcomplete, Reading.program, hstop]
        simp only [hend, if_true]
        rw [Program.outcome, Machine.exec_append_of_ok hexec.symm, Machine.exec_singleton,
          ← hsettings, Evaluation.takeValue, Evaluation.perform, Evaluation.lift]
        obtain ⟨settings, cursor, m'⟩ := e'
        simp only [Outcome.state]
        cases m'.step settings stop.position .settle with
        | failed err m₁ => rfl
        | ok m₁ =>
          obtain ⟨operands, operators, memory, events⟩ := m₁
          cases operands with
          | nil => rfl
          | cons x rest => cases rest <;> rfl

/-- **An evaluation comes to what the program of its source does**, on a new machine. -/
theorem evaluate_of_outcome {c : Calculator} {line : String} {source : Source}
    (hs : Source.ofLine line = .ok source) :
    ∃ e : Evaluation, e.machine = (source.program.outcome c.settings (.initial c.memory)).2 ∧
      c.evaluate line =
        c.conclude source ((source.program.outcome c.settings (.initial c.memory)).1, e) := by
  have hcomplete : _ = source.program.outcome c.settings (.initial c.memory) :=
    (Evaluation.start c.settings c.memory source).complete_eq_outcome
  rw [← hcomplete]
  exact ⟨_, rfl, evaluate_of_ofLine hs⟩

/-- The event that ends an evaluation with a value. -/
def Source.closing (source : Source) : Except EvalError Float → List Event
  | .ok x => [.evaluated source.text x]
  | .error _ => []

/-- The table after an evaluation: a value becomes the last answer. -/
def Variables.concluded (v : Variables) : Except EvalError Float → Variables
  | .ok x => v.setLastAnswer x
  | .error _ => v

theorem memory_conclude (c : Calculator) (source : Source) (result : Except EvalError Float)
    (e : Evaluation) : (c.conclude source (result, e)).calculator.memory =
      e.machine.memory.concluded result := by
  cases result <;> rfl

theorem events_conclude (c : Calculator) (source : Source) (result : Except EvalError Float)
    (e : Evaluation) : (c.conclude source (result, e)).events =
      e.machine.events.reverse ++ source.closing result := by
  cases result with
  | ok x => exact List.reverse_cons
  | error err => exact (List.append_nil _).symm

/-- **The result of a line is what the program of its source comes to.** -/
theorem result_of_ofLine {c : Calculator} {line : String} {source : Source}
    (hs : Source.ofLine line = .ok source) : (c.evaluate line).result =
      (source.program.outcome c.settings (.initial c.memory)).1 := by
  obtain ⟨e, -, heval⟩ := evaluate_of_outcome (c := c) hs
  rw [heval, result_conclude]

/-- **The table afterwards** is the one that the program leaves, with the result as last answer. -/
theorem memory_of_ofLine {c : Calculator} {line : String} {source : Source}
    (hs : Source.ofLine line = .ok source) : (c.evaluate line).calculator.memory =
      (source.program.outcome c.settings (.initial c.memory)).2.memory.concluded
        (c.evaluate line).result := by
  obtain ⟨e, he, heval⟩ := evaluate_of_outcome (c := c) hs
  rw [heval, memory_conclude, result_conclude, he]

/-- **The events** are those of the program; a value is the last one. -/
theorem events_of_ofLine {c : Calculator} {line : String} {source : Source}
    (hs : Source.ofLine line = .ok source) : (c.evaluate line).events =
      (source.program.outcome c.settings (.initial c.memory)).2.events.reverse ++
        source.closing (c.evaluate line).result := by
  obtain ⟨e, he, heval⟩ := evaluate_of_outcome (c := c) hs
  rw [heval, events_conclude, result_conclude, he]

end Outcome

end DeskCalculator
