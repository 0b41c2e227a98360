import DeskCalculator.Proofs.History

/-!
# Strict evaluation

Strict evaluation is lenient evaluation, stopped at the first event that it forbids. This file fixes

* `Event.Forbidden`, `Refuses` -- the events that strict evaluation forbids, and the error it stops
  with at each;
* `Heeds` -- how a strict outcome answers to the lenient one: they are the same, or the strict one
  stopped at the first forbidden event of the lenient one.

Main statement: **strict evaluation comes to what lenient evaluation does, or stops at its first
forbidden event** (`evaluate_strict`).
-/

namespace DeskCalculator

/-! ## 1. Forbidden events -/

/-- What strict evaluation forbids: to read a name without a value, to take the factorial of a number
    that has none, and a result that is not finite. -/
def Event.Forbidden : Event → Prop
  | read _ _ found => found = none
  | reduced op operands result =>
    (op = .unary .factorial ∧ ∃ x ∈ operands, Number.hasFactorial x = false) ∨
      result.isFinite = false
  | assigned _ _ | evaluated _ _ => False

/-- The error with which strict evaluation stops at an event. An operand is looked at before a
    result. -/
inductive Refuses : Event → EvalError → Prop where
  /-- The error is at the place where the name starts. -/
  | unknown (name : String) (position : Nat) :
      Refuses (.read name position none) ⟨position, .unknownVariable name⟩
  | outside {x : Float} (h : Number.hasFactorial x = false) (result : Float) (position : Nat) :
      Refuses (.reduced (.unary .factorial) [x] result) ⟨position, .arithmetic (.outsideFactorial x)⟩
  | notFinite {op : Operator} {operands : List Float} {result : Float}
      (hx : op = .unary .factorial → ∀ x ∈ operands, Number.hasFactorial x = true)
      (h : result.isFinite = false) (position : Nat) :
      Refuses (.reduced op operands result) ⟨position, .arithmetic (.notFinite op result)⟩

/-- An error is complained of at a forbidden event only. -/
theorem Refuses.forbidden {e : Event} {err : EvalError} (h : Refuses e err) : e.Forbidden := by
  cases h with
  | unknown name position => exact rfl
  | outside h => exact .inl ⟨rfl, _, List.mem_singleton_self _, h⟩
  | notFinite _ h => exact .inr h

/-- Nothing forbidden happened so far. -/
def Machine.Blameless (m : Machine) : Prop := ∀ e ∈ m.events, ¬ e.Forbidden

/-! ## 2. One step, both ways -/

/-- How a strict outcome answers to the lenient one from the same machine: they are the same, and
    nothing forbidden happened; or the strict one stopped at the first forbidden event. -/
inductive Heeds : Outcome Machine → Outcome Machine → Prop where
  | same {o : Outcome Machine} (h : o.state.Blameless) : Heeds o o
  | stopped {o : Outcome Machine} {err : EvalError} {m : Machine} {e : Event}
      (later : List Event) (ho : o.state.events = later ++ e :: m.events) (he : Refuses e err)
      (hm : m.Blameless) : Heeds o (.failed err m)

/-- **Heeding goes on from step to step.** -/
theorem Heeds.andThen {o o' : Outcome Machine} {f g : Machine → Outcome Machine} (h : Heeds o o')
    (hf : ∀ m : Machine, m.Blameless → Heeds (f m) (g m))
    (hleads : ∀ m : Machine, m.Leads (f m).state) : Heeds (o.andThen f) (o'.andThen g) := by
  cases h with
  | same h =>
    cases o with
    | ok m => exact hf m h
    | failed err m => exact .same h
  | @stopped err m e later ho he hm =>
    cases o with
    | failed err' m' => exact .stopped later ho he hm
    | ok m' =>
      obtain ⟨new, hnew, -⟩ := hleads m'
      have ho : m'.events = later ++ e :: m.events := ho
      -- the lenient run goes on alone, and only adds events
      refine .stopped (new ++ later) ?_ he hm
      show (f m').state.events = _
      rw [hnew, ho, List.append_assoc]

namespace Machine

variable {places : Int} {m : Machine}

theorem Blameless.record (h : m.Blameless) {e : Event} (he : ¬ e.Forbidden) :
    ∀ d ∈ e :: m.events, ¬ d.Forbidden := by
  intro d hd
  rcases List.mem_cons.1 hd with rfl | hd
  · exact he
  · exact h d hd

theorem heeds_deliver (position : Nat) (raw : Float) {op : Operator} {operands : List Float}
    (h : m.Blameless)
    (hx : op = .unary .factorial → ∀ x ∈ operands, Number.hasFactorial x = true) :
    Heeds (m.deliver ⟨places, false⟩ position op operands raw)
      (m.deliver ⟨places, true⟩ position op operands raw) := by
  cases hfinite : (Number.roundTo raw places).isFinite with
  | true =>
    have hsame : m.deliver ⟨places, true⟩ position op operands raw =
        m.deliver ⟨places, false⟩ position op operands raw := by
      simp [deliver, hfinite]
    rw [hsame]
    refine .same (h.record (e := .reduced op operands _) ?_)
    intro hforbidden
    rcases hforbidden with ⟨hop, x, hmem, hfact⟩ | hinf
    · exact Bool.false_ne_true (hfact.symm.trans (hx hop x hmem))
    · exact Bool.false_ne_true (hinf.symm.trans hfinite)
  | false =>
    have hfault : m.deliver ⟨places, true⟩ position op operands raw =
        m.fault position (.notFinite op (Number.roundTo raw places)) := by
      simp [deliver, hfinite]
    rw [hfault]
    exact .stopped [] rfl (.notFinite hx hfinite position) h

theorem heeds_applyOperator (position : Nat) (op : Operator) (h : m.Blameless) :
    Heeds (m.applyOperator ⟨places, false⟩ position op)
      (m.applyOperator ⟨places, true⟩ position op) := by
  obtain ⟨operands, operators, memory, events⟩ := m
  match op, operands with
  | .scope, _ => exact .same h
  | .binary f, [] => exact .same h
  | .binary f, [_] => exact .same h
  | .binary f, right :: left :: rest =>
    refine heeds_deliver (m := ⟨rest, operators, memory, events⟩) position _ h ?_
    intro hop
    cases hop
  | .unary f, [] => exact .same h
  | .unary f, x :: rest =>
    have hrest : Blameless ⟨rest, operators, memory, events⟩ := h
    have hlenient : refuses ⟨places, false⟩ f x = false := rfl
    simp only [applyOperator, hlenient, Bool.false_eq_true, if_false]
    split
    · next hr =>
      simp only [refuses, Bool.true_and, Bool.and_eq_true, decide_eq_true_eq,
        Bool.not_eq_true'] at hr
      obtain ⟨rfl, hfact⟩ := hr
      exact .stopped [] rfl (.outside hfact _ position) hrest
    · next hr =>
      refine heeds_deliver position _ hrest ?_
      intro hop y hy
      cases hop
      cases List.mem_singleton.1 hy
      simpa [refuses] using hr

theorem heeds_reduceTimes (position n : Nat) (h : m.Blameless) :
    Heeds (m.reduceTimes ⟨places, false⟩ position n) (m.reduceTimes ⟨places, true⟩ position n) := by
  induction n generalizing m with
  | zero => exact .same h
  | succ n ih =>
    refine Heeds.andThen ?_ (fun m' h' => ih h') (leads_reduceTimes _ position n)
    obtain ⟨operands, operators, memory, events⟩ := m
    match operators with
    | [] => exact .same h
    | op :: rest => exact heeds_applyOperator (m := ⟨operands, rest, memory, events⟩) position op h

/-- **One instruction, both ways.** -/
theorem heeds_step (position : Nat) (i : Instruction) (h : m.Blameless) :
    Heeds (m.step ⟨places, false⟩ position i) (m.step ⟨places, true⟩ position i) := by
  cases i with
  | literal x => exact .same h
  | read name start =>
    simp only [step, read, lookUp]
    cases m.memory.get? name with
    | some x =>
      refine .same (h.record (e := .read name start (some x)) ?_)
      intro hforbidden
      cases hforbidden
    | none => exact .stopped [] rfl (.unknown name start) h
  | operator op =>
    exact (heeds_reduceTimes position _ h).andThen (fun m' h' => .same h')
      fun m' => leads_of_eq rfl rfl
  | hold op => exact .same h
  | openScope => exact .same h
  | closeScope =>
    refine .same ?_
    simp only [step, closeScope]
    split <;> exact h
  | settle => exact heeds_reduceTimes position _ h
  | assign name =>
    refine .same ?_
    simp only [step, assign]
    split
    · exact h
    · exact h.record not_false

/-- **Any code, both ways.** -/
theorem heeds_exec (places : Int) (code : Code) (h : m.Blameless) :
    Heeds (m.exec ⟨places, false⟩ code) (m.exec ⟨places, true⟩ code) := by
  induction code generalizing m with
  | nil => exact .same h
  | cons i code ih =>
    exact (heeds_step i.cursor.position i.instruction h).andThen (fun m' h' => ih h')
      (leads_exec _ code)

end Machine

/-! ## 3. Evaluations -/

/-- **A program, both ways**: the same, without a forbidden event, or strictly stopped at the first
    one. -/
theorem Program.outcome_strict (p : Program) (places : Int) {m : Machine} (h : m.Blameless) :
    (p.outcome ⟨places, true⟩ m = p.outcome ⟨places, false⟩ m ∧
      (p.outcome ⟨places, false⟩ m).2.Blameless) ∨
    ∃ later e err m', p.outcome ⟨places, true⟩ m = (.error err, m') ∧ m'.Blameless ∧
      Refuses e err ∧ (p.outcome ⟨places, false⟩ m).2.events = later ++ e :: m'.events := by
  have hheeds := Machine.heeds_exec places p.code h
  rw [p.snd_outcome]
  generalize hstrict : m.exec ⟨places, true⟩ p.code = o' at hheeds
  cases hheeds with
  | same hm =>
    refine .inl ⟨?_, hm⟩
    rw [outcome, outcome, hstrict]
  | @stopped err m' e later ho he hm =>
    exact .inr ⟨later, e, err, m', p.outcome_of_failed hstrict, hm, he, ho⟩

theorem not_forbidden_of_mem_closing {source : Source} {result : Except EvalError Float}
    {e : Event} (h : e ∈ source.closing result) : ¬ e.Forbidden := by
  cases result with
  | ok x =>
    cases List.mem_singleton.1 h
    exact not_false
  | error err => cases h

/-- **Strict evaluation comes to what lenient evaluation does, or stops at its first forbidden
    event**, after all that came before it and before all that came after. -/
theorem evaluate_strict (memory : Variables) (places : Int) (line : String) :
    let lenient := Calculator.evaluate ⟨memory, ⟨places, false⟩⟩ line
    let strict := Calculator.evaluate ⟨memory, ⟨places, true⟩⟩ line
    ((∀ e ∈ lenient.events, ¬ e.Forbidden) ∧ strict.result = lenient.result ∧
      strict.calculator.memory = lenient.calculator.memory ∧ strict.events = lenient.events) ∨
    ∃ before e after err, lenient.events = before ++ e :: after ∧
      (∀ d ∈ before, ¬ d.Forbidden) ∧ e.Forbidden ∧ Refuses e err ∧
      strict.result = .error err ∧ strict.calculator.memory = memory.after before ∧
      strict.events = before := by
  intro lenient strict
  cases hs : Source.ofLine line with
  | error err =>
    have hempty : ∀ s : Settings,
        Calculator.evaluate ⟨memory, s⟩ line = ⟨.error err, ⟨memory, s⟩, []⟩ := by
      intro s
      unfold Calculator.evaluate
      rw [hs]
    refine .inl ⟨?_, ?_, ?_, ?_⟩ <;> simp [lenient, strict, hempty]
  | ok source =>
    have hnew : (Machine.initial memory).Blameless := fun e he => absurd he List.not_mem_nil
    have hlenient : lenient.events = _ := events_of_ofLine hs
    have hstrict : strict.events = _ := events_of_ofLine hs
    have hresult : strict.result = _ := result_of_ofLine hs
    have hlmemory := memory_evaluate ⟨memory, ⟨places, false⟩⟩ line
    have hsmemory := memory_evaluate ⟨memory, ⟨places, true⟩⟩ line
    rcases source.program.outcome_strict places hnew with
      ⟨hsame, hclean⟩ | ⟨later, e, err, m', hstop, hm', hrefuses, hlater⟩
    · have hvalue : strict.result = lenient.result := by
        rw [hresult, hsame, ← result_of_ofLine (c := ⟨memory, ⟨places, false⟩⟩) hs]
      have hevents : strict.events = lenient.events := by
        rw [hstrict, hlenient, hsame, ← hvalue]
      refine .inl ⟨?_, hvalue, ?_, hevents⟩
      · intro d hd
        rw [hlenient, List.mem_append, List.mem_reverse] at hd
        rcases hd with hd | hd
        · exact hclean d hd
        · exact not_forbidden_of_mem_closing hd
      · rw [hsmemory, hlmemory, hevents]
    · rw [hstop] at hresult hstrict
      have hbefore : strict.events = m'.events.reverse := by
        rw [hstrict, hresult]
        exact List.append_nil _
      refine .inr ⟨m'.events.reverse, e, later.reverse ++ source.closing lenient.result, err, ?_, ?_,
        hrefuses.forbidden, hrefuses, hresult, ?_, hbefore⟩
      · rw [hlenient, hlater]
        simp [lenient]
      · intro d hd
        exact hm' d (List.mem_reverse.1 hd)
      · rw [hsmemory, ← hbefore]

end DeskCalculator
