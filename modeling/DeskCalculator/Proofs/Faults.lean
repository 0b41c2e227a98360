import DeskCalculator.Proofs.Completion

/-!
# The faults that arise

Most arithmetic faults guard against states that no expression leads to. This file fixes

* `ArithmeticFault.Arises` -- which faults an expression can end in, and under what conditions: the
  two of strict evaluation, and a function of one argument without its operand;
* `commaAfterCall_of_borrows` -- a function is overtaken only behind a comma directly after its
  name;
* `Evaluation.ComesTo` -- a run comes to an instruction.

Main statement: **no other fault arises, and no name is bound without a value**
(`arises_of_arithmetic`).
-/

namespace DeskCalculator

open Builder

/-! ## 1. Commas after the names of functions -/

theorem CommaAfterCall.within {ts us : List Token} (h : CommaAfterCall ts) (hi : ts <:+: us) :
    CommaAfterCall us := by
  obtain ⟨f, hf, hin⟩ := h
  exact ⟨f, hf, hin.trans hi⟩

theorem CommaAfterCall.cons {ts : List Token} (h : CommaAfterCall ts) (t : Token) :
    CommaAfterCall (t :: ts) :=
  h.within (List.infix_cons (List.infix_refl ts))

/-- **Behind a function that is overtaken stands a comma**, as two names never stand side by side.
    The induction is on the tokens, with what waits on top: nothing, or the function before them. -/
theorem commaAfterCall_of_borrows (ts : List Token)
    (hc : ts.IsChain fun t u => t.isName = true → u.isName = false) :
    (∀ a : Awaiting, a.borrows false ts = true → CommaAfterCall ts) ∧
      ∀ f : Function, f.arity = 1 → (∀ u ∈ ts.head?, u.isName = false) →
        Awaiting.operand.borrows true ts = true → CommaAfterCall (.name f.name :: ts) := by
  induction ts with
  | nil =>
    refine ⟨fun a h => ?_, fun f _ _ h => ?_⟩
    · rw [Awaiting.borrows_nil] at h
      cases h
    · rw [Awaiting.borrows_nil] at h
      cases h
  | cons t ts ih =>
    obtain ⟨ihNone, ihCall⟩ := ih hc.tail
    have hhead : t.isName = true → ∀ u ∈ ts.head?, u.isName = false := by
      intro ht u hu
      cases ts with
      | nil => cases hu
      | cons u' ts =>
        cases hu
        exact (List.isChain_cons_cons.1 hc).1 ht
    refine ⟨fun a h => ?_, fun f hf hname h => ?_⟩
    · cases a with
      | operator =>
        rw [Awaiting.borrows_operator] at h
        cases h
      | arguments f =>
        simp only [Awaiting.borrows, Bool.and_eq_true] at h
        exact (ihNone .operand h.2).cons t
      | binding name start =>
        simp only [Awaiting.borrows, Bool.and_eq_true] at h
        exact (ihNone .operand h.2).cons t
      | operand =>
        cases t with
        | number lexeme => simp only [Awaiting.borrows, Bool.false_eq_true] at h
        | foreign x => simp only [Awaiting.borrows, Bool.false_eq_true] at h
        | mark m =>
          cases m <;> simp only [Awaiting.borrows, Bool.false_eq_true] at h
          · exact (ihNone .operand h).cons _
          · exact (ihNone .operand h).cons _
          · exact (ihNone .operand h).cons _
        | name name =>
          simp only [Awaiting.borrows, Bool.false_or] at h
          cases hn : Function.ofName? name with
          | none =>
            rw [hn] at h
            exact (ihNone _ h).cons _
          | some f =>
            rw [hn] at h
            by_cases hf : f.arity = 1
            · rw [← Function.ofName?_eq_some_iff.1 hn]
              simp only [hf, if_true] at h
              exact ihCall f hf (hhead rfl) h
            · simp only [hf, if_false] at h
              rw [← Awaiting.borrows_arguments f false] at h
              exact (ihNone _ h).cons _
    · cases t with
      | number lexeme => simp only [Awaiting.borrows, Bool.false_eq_true] at h
      | foreign x => simp only [Awaiting.borrows, Bool.false_eq_true] at h
      | name name => exact absurd (hname _ rfl) (by simp [Token.isName])
      | mark m =>
        cases m <;> simp only [Awaiting.borrows, Bool.false_eq_true] at h
        · exact ((ihNone .operand h).cons _).cons _
        · exact ((ihNone .operand h).cons _).cons _
        · exact ⟨f, hf, [], ts, rfl⟩

/-- The tokens of a source stand at the head of those of its line. -/
theorem tokens_prefix_lineTokens {line : String} {source : Source}
    (h : Source.ofLine line = .ok source) : source.start.tokens <+: lineTokens line := by
  rw [lineTokens_eq h]
  exact List.prefix_append _ _

/-! ## 2. Faults -/

/-- The conditions under which an expression of these tokens can end in a fault. -/
def ArithmeticFault.Arises (s : Settings) (ts : List Token) : ArithmeticFault → Prop
  | outsideFactorial x => s.strict = true ∧ Number.hasFactorial x = false
  | notFinite _ x => s.strict = true ∧ x.isFinite = false
  | missingOperand op => (∃ f : Function, f.arity = 1 ∧ op = f.operator) ∧ CommaAfterCall ts
  | unreduced _ | noScope | noOperator | notApplicable _ | notSingle => False

/-- The run of some code comes to one of its instructions, with `e` as it is there. -/
def Evaluation.ComesTo (start : Evaluation) (code : Code) (i : Issued) (e : Evaluation) : Prop :=
  ∃ before after, code = before ++ i :: after ∧ start.run before = .ok e

/-- What strict evaluation alone complains of arises only in it. -/
theorem ArithmeticFault.arises_of_strictOnly {s : Settings} {f : ArithmeticFault} {ts : List Token}
    (h : (Cause.arithmetic f).StrictOnly s) : f.Arises s ts := by
  cases f with
  | outsideFactorial x => exact h
  | notFinite op x => exact h
  | _ => exact h.elim

/-- A fault that ends an evaluation arises. -/
theorem Completes.arises {s : Settings} {memory : Variables} {c : Cursor} {ts : List Token}
    {err : EvalError} {e : Evaluation} {f : ArithmeticFault}
    (h : Completes s memory c (.error err, e)) (hc : err.cause = .arithmetic f)
    (hts : c.tokens <+: ts) : f.Arises s ts := by
  cases h with
  | @refused refusal _ hstop =>
    refine absurd ?_ (Reader.kind_of_stop hstop)
    rw [EvalError.kind, hc]
  | beforeEnd hstop hend => cases hc
  | strict hs =>
    rw [hc] at hs
    exact ArithmeticFault.arises_of_strictOnly hs
  | @overtaken g _ _ hg hb hcause =>
    rw [hc] at hcause
    cases hcause
    have hcomma := (commaAfterCall_of_borrows c.tokens c.isChain_tokens).1 .operand hb
    exact ⟨⟨g, hg, rfl⟩, hcomma.within hts.isInfix⟩

/-- No code of a chain brings a builder to an instruction that is misplaced. -/
theorem run_readChain_ne_misplaced (c : Cursor) :
    run c.readChain.code.instructions .initial ≠ .error .misplaced := by
  intro hm
  obtain ⟨hok, hover⟩ := Reader.run_read c.halt c.lexemes (balanced_start .chain [])
  by_cases hb : Awaiting.operand.borrows false c.tokens = true
  · obtain ⟨op, -, he⟩ := hover ⟨rfl, hb⟩
    have he : run c.readChain.code.instructions .initial = .error (.missing op) := he
    rw [hm] at he
    cases he
  · obtain ⟨b, hrun, -⟩ := hok fun h => hb h.2
    have hrun : run c.readChain.code.instructions .initial = .ok b := hrun
    rw [hm] at hrun
    cases hrun

/-- **An assignment finds an operand.** -/
theorem operands_ne_nil_of_comesTo {s : Settings} {memory : Variables} {start e : Evaluation}
    {place : Cursor} {name : String} (h : Builder.initial.DescribesEvaluation s memory start)
    (hc : start.ComesTo start.cursor.readChain.code ⟨place, .assign name⟩ e) :
    e.machine.operands ≠ [] := by
  intro hnil
  obtain ⟨before, after, hcode, hrun⟩ := hc
  refine run_readChain_ne_misplaced start.cursor ?_
  rw [hcode, instructions_append, run_append]
  have hfollows := follows_run before h
  rw [hrun] at hfollows
  cases hr : run before.instructions .initial with
  | error flaw =>
    rw [hr] at hfollows
    cases hfollows
    rfl
  | ok b =>
    rw [hr] at hfollows
    cases hfollows with
    | ok hd =>
      have hlen := hd.machine.holds.length_eq
      obtain ⟨trees, scope, outer⟩ := b
      rw [hnil] at hlen
      have htrees : trees = [] := List.length_eq_zero_iff.1 hlen.symm
      rw [htrees]
      rfl

/-! ## 3. Every line -/

/-- **No other fault arises**: an expression ends in an arithmetic error only under the conditions of
    `ArithmeticFault.Arises`, thus in none under lenient settings without a comma directly after the
    name of a function of one argument; and every assignment that its run comes to has a value. -/
theorem arises_of_arithmetic (c : Calculator) (line : String) :
    (∀ err fault, (c.evaluate line).result = .error err → err.cause = .arithmetic fault →
      fault.Arises c.settings (lineTokens line)) ∧
    (c.settings.strict = false → ¬ CommaAfterCall (lineTokens line) →
      ∀ err, (c.evaluate line).result = .error err → err.kind ≠ .arithmetic) ∧
    ∀ source, Source.ofLine line = .ok source → ∀ place name e,
      (Evaluation.start c.settings c.memory source).ComesTo source.start.readChain.code
        ⟨place, .assign name⟩ e → e.machine.operands ≠ [] := by
  have hfault : ∀ err fault, (c.evaluate line).result = .error err →
      err.cause = .arithmetic fault → fault.Arises c.settings (lineTokens line) := by
    intro err fault hr hc
    cases hs : Source.ofLine line with
    | error e =>
      rw [result_of_ofLine_error hs] at hr
      cases hr
      cases hc
    | ok source =>
      have hcomp := completes_start c source
      rw [evaluate_of_ofLine hs, result_conclude] at hr
      generalize (Evaluation.start c.settings c.memory source).complete = done at hr hcomp
      obtain ⟨result, e⟩ := done
      cases hr
      exact hcomp.arises hc (tokens_prefix_lineTokens hs)
  refine ⟨hfault, ?_, fun source _ place name e he => ?_⟩
  · intro hlenient hcomma err hr hkind
    cases hc : err.cause with
    | arithmetic fault =>
      have harises := hfault err fault hr hc
      cases fault with
      | outsideFactorial x => exact Bool.false_ne_true (hlenient.symm.trans harises.1)
      | notFinite op x => exact Bool.false_ne_true (hlenient.symm.trans harises.1)
      | missingOperand op => exact hcomma harises.2
      | _ => exact harises.elim
    | _ =>
      rw [EvalError.kind, hc] at hkind
      cases hkind
  · exact operands_ne_nil_of_comesTo (describes_start c source) he

/-- The operator that an answer complains to have no operand. -/
def Answer.lacking? (a : Answer) : Option Operator :=
  match a.result with
  | .error ⟨_, .arithmetic (.missingOperand op)⟩ => some op
  | _ => none

theorem Answer.error_of_lacking? {a : Answer} {op : Operator} (h : a.lacking? = some op) :
    ∃ err, a.result = .error err ∧ err.cause = .arithmetic (.missingOperand op) := by
  unfold lacking? at h
  split at h
  · next hr =>
    cases h
    exact ⟨_, hr, rfl⟩
  · cases h

/-- The one fault of lenient settings does arise, and where it does a comma stands. -/
theorem arises_of_arithmetic_sin_comma :
    ∃ err, (({} : Calculator).evaluate "sin,cos(0)").result = .error err ∧
      err.cause = .arithmetic (.missingOperand (.unary .sin)) ∧
      CommaAfterCall (lineTokens "sin,cos(0)") := by
  have hlack : (({} : Calculator).evaluate "sin,cos(0)").lacking? = some (.unary .sin) := by
    decide +kernel
  obtain ⟨err, hr, hc⟩ := Answer.error_of_lacking? hlack
  exact ⟨err, hr, hc, ((arises_of_arithmetic {} "sin,cos(0)").1 err _ hr hc).2⟩

end DeskCalculator
