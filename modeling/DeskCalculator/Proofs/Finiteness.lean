import DeskCalculator.Proofs.LastAnswer
import DeskCalculator.Proofs.Range

/-!
# Finite values

Strict evaluation refuses results that are not finite, and all other values come from numerals and
from the table. This file fixes

* `Token.value?`, `FiniteLiterals` -- the value that a token spells, and texts whose numerals all have
  finite values;
* `Variables.Finite`, `Machine.Finite` -- tables and machines that hold finite values only;
* `value?_of_literal` -- the literals of a program are the values that its text spells;
* `finite_step`, `finite_exec` -- strict code keeps a machine finite, even where it fails;
* `finite_evaluate`, `finite_of_mem_answers` -- so does a line, and one line after the other.

Main statement: **strict evaluations of finite numerals, one after the other, have finite values and
keep a finite table finite**, whether they fail or not, and only a long numeral is not finite
(`finite_answers`).
-/

namespace DeskCalculator

/-! ## 1. Literals -/

/-- The value that a token spells. -/
def Token.value? : Token → Option Float
  | number lexeme => (Number.Numeral.ofText? lexeme.toList).map Number.Numeral.value
  | name _ | mark _ | foreign _ => none

/-- All values that the tokens spell are finite. -/
def FiniteLiterals (ts : List Token) : Prop := ∀ t ∈ ts, ∀ x ∈ t.value?, x.isFinite = true

instance (ts : List Token) : Decidable (FiniteLiterals ts) :=
  inferInstanceAs (Decidable (∀ t ∈ ts, ∀ x ∈ t.value?, x.isFinite = true))

namespace Reader

variable {r : Reader} {l : Lexeme} {x : Float}

/-- The literals of some code are spelled by the token. -/
def Spells (t : Token) (code : Code) : Prop :=
  ∀ i ∈ code, ∀ x, i.instruction = .literal x → t.value? = some x

theorem spells_operandTurn (r : Reader) (l : Lexeme) : Spells l.token (r.operandTurn l).code := by
  unfold operandTurn
  split
  · next lexeme hl =>
    split
    · next n hn =>
      intro i hi x hx
      rw [List.mem_singleton.1 hi] at hx
      cases hx
      rw [hl, Token.value?, hn, Option.map_some]
    · simp [Spells]
  · split <;> simp [Spells]
  all_goals simp [Spells, refuseToken]

theorem spells_closeChain (t : Token) (extent : Extent) (c : Cursor) (frames : List Frame) :
    Spells t (closeChain extent c frames).1 := by
  intro i hi x hx
  obtain ⟨-, h | h | ⟨name, -, h⟩⟩ := mem_closeChain i hi <;> cases h.symm.trans hx

theorem spells_closingTurn (r : Reader) (l : Lexeme) (m : Mark) :
    Spells l.token (r.closingTurn l m).code := by
  have hcode := spells_closeChain l.token r.extent l.start r.frames
  unfold closingTurn
  generalize closeChain r.extent l.start r.frames = closed at hcode
  obtain ⟨code, group⟩ := closed
  match group with
  | none => exact hcode
  | some (0, rest) =>
    simp only
    split
    · exact List.forall_mem_append.2 ⟨hcode, by simp⟩
    · exact hcode
  | some (n + 1, rest) =>
    simp only
    split <;> exact hcode

theorem spells_operatorTurn (r : Reader) (l : Lexeme) : Spells l.token (r.operatorTurn l).code := by
  have himplied : Spells l.token (r.impliedTurn l).code :=
    List.forall_mem_cons.2 ⟨by simp, spells_operandTurn r l⟩
  unfold operatorTurn
  split
  · split
    · simp [Spells]
    · split <;> simp [Spells]
    · split
      · exact himplied
      · exact spells_closingTurn r l _
  · exact himplied

/-- **A turn issues no literal but the value that its token spells.** -/
theorem spells_turn (r : Reader) (l : Lexeme) : Spells l.token (r.turn l).code := by
  unfold turn
  split
  · exact spells_operandTurn r l
  · unfold argumentsTurn
    split <;> simp [Spells]
  · unfold bindingTurn
    split
    · simp [Spells]
    · exact List.forall_mem_cons.2 ⟨by simp, spells_operatorTurn r l⟩
  · exact spells_operatorTurn r l

/-- The end of the tokens issues no literal. -/
theorem ne_literal_of_finish (r : Reader) (c : Cursor) :
    ∀ i ∈ (r.finish c).code, i.instruction ≠ .literal x := by
  have hchain : ∀ i ∈ (r.finishChain c).code, i.instruction ≠ .literal x := by
    rw [code_finishChain]
    intro i hi hx
    obtain ⟨-, h | h | ⟨name, -, h⟩⟩ := mem_closeChain i hi <;> cases h.symm.trans hx
  unfold finish
  split
  · simp
  · simp
  · exact List.forall_mem_cons.2 ⟨by simp, hchain⟩
  · exact hchain

/-- **A reading issues no literals but the values that its tokens spell.** -/
theorem value?_of_literal {halt : Cursor} {ls : List Lexeme} {i : Issued}
    (hi : i ∈ (read halt r ls).code) (hx : i.instruction = .literal x) :
    ∃ t ∈ ls.map Lexeme.token, t.value? = some x := by
  induction ls generalizing r with
  | nil => exact absurd hx (ne_literal_of_finish r halt i hi)
  | cons l ls ih =>
    have hturn := spells_turn r l
    rw [read] at hi
    generalize r.turn l = t at hturn hi
    obtain ⟨code, move⟩ := t
    have hspelled : i ∈ code → ∃ t ∈ (l :: ls).map Lexeme.token, t.value? = some x :=
      fun hi => ⟨l.token, List.mem_cons_self, hturn i hi x hx⟩
    cases move with
    | rest => exact hspelled hi
    | refuse refusal => exact hspelled hi
    | next r' =>
      rcases List.mem_append.1 hi with hi | hi
      · exact hspelled hi
      · obtain ⟨t, ht, hvalue⟩ := ih hi
        exact ⟨t, List.mem_cons_of_mem _ ht, hvalue⟩

end Reader

/-- **The literals of a program are finite** if the values that its text spells are. -/
theorem isFinite_of_literal {source : Source} (h : FiniteLiterals source.start.tokens) {i : Issued}
    (hi : i ∈ source.program.code) {x : Float} (hx : i.instruction = .literal x) :
    x.isFinite = true := by
  rcases Reading.mem_program hi with hcode | hsettle
  · obtain ⟨t, ht, hvalue⟩ := Reader.value?_of_literal hcode hx
    exact h t ht x hvalue
  · cases hsettle.symm.trans hx

/-! ## 2. Finite tables -/

namespace Variables

variable {v : Variables} {name : String} {x : Float}

/-- All names are bound to finite values. -/
def Finite (v : Variables) : Prop := ∀ binding ∈ v.toList, binding.2.isFinite = true

instance (v : Variables) : Decidable v.Finite :=
  inferInstanceAs (Decidable (∀ binding ∈ v.toList, binding.2.isFinite = true))

/-- A table has a binding where it has a value. -/
theorem mem_toList_iff {key : String} : (key, x) ∈ v.toList ↔ v.table[key]? = some x :=
  Std.TreeMap.mem_toList_iff_getElem?_eq_some

theorem Finite.isFinite_of_get? (h : v.Finite) (hx : v.get? name = some x) : x.isFinite = true :=
  h (foldName name, x) (mem_toList_iff.2 hx)

/-- **A finite table stays finite when a name gets a finite value.** -/
theorem Finite.set (h : v.Finite) (hx : x.isFinite = true) (name : String) :
    (v.set name x).Finite := by
  rintro ⟨key, y⟩ hy
  have hy := mem_toList_iff.1 hy
  rw [Variables.set, Std.TreeMap.getElem?_insert] at hy
  split at hy
  · cases hy
    exact hx
  · exact h _ (mem_toList_iff.2 hy)

theorem Finite.concluded (h : v.Finite) {result : Except EvalError Float}
    (hx : ∀ x, result = .ok x → x.isFinite = true) : (v.concluded result).Finite := by
  cases result with
  | ok x => exact h.set (hx x rfl) answerName
  | error err => exact h

end Variables

/-! ## 3. Finite machines -/

/-- All operands and all values of variables are finite. -/
structure Machine.Finite (m : Machine) : Prop where
  operands : ∀ x ∈ m.operands, x.isFinite = true
  memory : m.memory.Finite

namespace Machine

variable {s : Settings} {position : Nat} {m : Machine} {x : Float}

theorem Finite.pushOperand (h : m.Finite) (hx : x.isFinite = true) : (m.pushOperand x).Finite :=
  ⟨List.forall_mem_cons.2 ⟨hx, h.operands⟩, h.memory⟩

/-- Operands that are left are finite. -/
theorem Finite.withOperands (h : m.Finite) {xs : List Float} (hxs : xs <:+ m.operands) :
    Finite { m with operands := xs } :=
  ⟨fun x hx => h.operands x (hxs.subset hx), h.memory⟩

theorem Finite.withOperators (h : m.Finite) (ops : List Operator) :
    Finite { m with operators := ops } := ⟨h.operands, h.memory⟩

theorem Finite.record (h : m.Finite) (e : Event) : (m.record e).Finite := ⟨h.operands, h.memory⟩

theorem Finite.andThen {o : Outcome Machine} {f : Machine → Outcome Machine}
    (h : o.state.Finite) (hf : ∀ m : Machine, m.Finite → (f m).state.Finite) :
    (o.andThen f).state.Finite := by
  cases o with
  | ok m => exact hf m h
  | failed err m => exact h

/-- **Strict results are finite.** -/
theorem finite_deliver (hs : s.strict = true) (h : m.Finite) (op : Operator)
    (operands : List Float) (raw : Float) :
    (m.deliver s position op operands raw).state.Finite := by
  unfold deliver
  simp only [hs, Bool.true_and]
  split
  · exact h
  · next hfinite =>
    have hfinite : (Number.roundTo raw s.precision).isFinite = true := by simpa using hfinite
    exact (h.record _).pushOperand hfinite

theorem finite_applyOperator (hs : s.strict = true) (h : m.Finite) (op : Operator) :
    (m.applyOperator s position op).state.Finite := by
  unfold applyOperator
  split
  · exact h
  · next hops => exact finite_deliver hs (h.withOperands (hops ▸ ⟨[_, _], rfl⟩)) _ _ _
  · exact h.withOperands List.nil_suffix
  · next hops =>
    have hrest := h.withOperands (hops ▸ List.suffix_cons _ _)
    split
    · exact hrest
    · exact finite_deliver hs hrest _ _ _
  · exact h

theorem finite_reduceTimes (hs : s.strict = true) (h : m.Finite) (n : Nat) :
    (m.reduceTimes s position n).state.Finite := by
  induction n generalizing m with
  | zero => exact h
  | succ n ih =>
    refine Finite.andThen ?_ fun m h => ih h
    unfold reduce
    split
    · exact h
    · exact finite_applyOperator hs (h.withOperators _) _

/-- **A strict instruction keeps a machine finite**, even if it fails. -/
theorem finite_step (hs : s.strict = true) (h : m.Finite) {i : Instruction}
    (hliteral : ∀ x, i = .literal x → x.isFinite = true) :
    (m.step s position i).state.Finite := by
  cases i with
  | literal x => exact h.pushOperand (hliteral x rfl)
  | read name start =>
    unfold step read lookUp
    simp only
    cases hx : m.memory.get? name with
    | some x =>
      exact (h.record _).pushOperand (h.memory.isFinite_of_get? hx)
    | none =>
      simp only [hs, if_true]
      exact h
  | operator op =>
    exact Finite.andThen (finite_reduceTimes hs h _) fun m h => h.withOperators _
  | hold op => exact h.withOperators _
  | openScope => exact h.withOperators _
  | closeScope =>
    unfold step closeScope
    simp only
    split <;> exact h.withOperators _
  | settle => exact finite_reduceTimes hs h _
  | assign name =>
    unfold step assign
    simp only
    split
    · exact h
    · next hops =>
      exact ⟨h.operands, h.memory.set (h.operands _ (hops ▸ List.mem_cons_self)) name⟩

/-- **So does any strict code** with finite literals. -/
theorem finite_exec (hs : s.strict = true) (h : m.Finite) {code : Code}
    (hliteral : ∀ i ∈ code, ∀ x, i.instruction = .literal x → x.isFinite = true) :
    (m.exec s code).state.Finite := by
  induction code generalizing m with
  | nil => exact h
  | cons i code ih =>
    obtain ⟨hfirst, hrest⟩ := List.forall_mem_cons.1 hliteral
    exact Finite.andThen (finite_step hs h hfirst) fun m h => ih h hrest

end Machine

/-! ## 4. Evaluations -/

/-- A value that a program comes to is an operand that its code left. -/
theorem Program.mem_operands_of_ok {p : Program} {s : Settings} {m : Machine} {x : Float}
    (h : (p.outcome s m).1 = .ok x) : x ∈ (m.exec s p.code).state.operands := by
  unfold outcome at h
  split at h
  · cases h
  · next hexec =>
    split at h
    · cases h
    · next hops =>
      cases h
      rw [hexec, Outcome.state, hops]
      exact List.mem_singleton_self _
    · cases h

/-- **A strict evaluation of finite numerals** has a finite value, if it has one, and leaves a finite
    table. -/
theorem finite_evaluate {c : Calculator} {line : String} (hs : c.settings.strict = true)
    (hc : c.memory.Finite) (hline : FiniteLiterals (lineTokens line)) :
    (∀ x, (c.evaluate line).result = .ok x → x.isFinite = true) ∧
      (c.evaluate line).calculator.memory.Finite := by
  cases hsource : Source.ofLine line with
  | error err =>
    rw [evaluate_of_ofLine_error hsource]
    exact ⟨fun x hx => (by cases hx), hc⟩
  | ok source =>
    have hstart : (Machine.initial c.memory).Finite := ⟨by simp [Machine.initial], hc⟩
    have hliterals : FiniteLiterals source.start.tokens :=
      fun t ht => hline t ((tokens_prefix_lineTokens hsource).subset ht)
    have hexec := Machine.finite_exec hs hstart fun i hi x hx => isFinite_of_literal hliterals hi hx
    have hvalue : ∀ x, (c.evaluate line).result = .ok x → x.isFinite = true := by
      intro x hx
      rw [result_of_ofLine hsource] at hx
      exact hexec.operands x (Program.mem_operands_of_ok hx)
    refine ⟨hvalue, ?_⟩
    rw [memory_of_ofLine hsource, Program.snd_outcome]
    exact hexec.memory.concluded hvalue

/-- **Strict evaluations one after the other** each have a finite value or none, and leave a finite
    table. -/
theorem finite_of_mem_answers {c : Calculator} {calls : List (Settings × String)}
    (hc : c.memory.Finite) (hstrict : ∀ call ∈ calls, call.1.strict = true)
    (hliterals : ∀ call ∈ calls, FiniteLiterals (lineTokens call.2)) :
    ∀ entry ∈ c.answers calls, (∀ x, entry.2.result = .ok x → x.isFinite = true) ∧
      entry.2.calculator.memory.Finite := by
  induction calls generalizing c with
  | nil => exact fun entry hentry => absurd hentry List.not_mem_nil
  | cons call calls ih =>
    obtain ⟨settings, line⟩ := call
    obtain ⟨hsettings, hstrict⟩ := List.forall_mem_cons.1 hstrict
    obtain ⟨hline, hliterals⟩ := List.forall_mem_cons.1 hliterals
    have hfirst := finite_evaluate (c := { c with settings }) hsettings hc hline
    rw [Calculator.answers_cons, List.forall_mem_cons]
    generalize Calculator.evaluate { c with settings } line = answer at hfirst
    exact ⟨hfirst, ih hfirst.2 hstrict hliterals⟩

/-- **Strict evaluation keeps a session finite**: on a finite table, and with finite numerals, each
    of the evaluations one after the other has a finite value or none, and leaves a finite table.
    Only a numeral with more than 308 digits before its point is not finite. -/
theorem finite_answers {c : Calculator} {calls : List (Settings × String)} (hc : c.memory.Finite)
    (hstrict : ∀ call ∈ calls, call.1.strict = true)
    (hliterals : ∀ call ∈ calls, FiniteLiterals (lineTokens call.2)) :
    (∀ entry ∈ c.answers calls, (∀ x, entry.2.result = .ok x → x.isFinite = true) ∧
      entry.2.calculator.memory.Finite) ∧
    ∀ lexeme x, (Token.number lexeme).value? = some x → x.isFinite = false →
      308 < (Number.Numeral.wholePart lexeme.toList).length := by
  refine ⟨finite_of_mem_answers hc hstrict hliterals, fun lexeme x hx hinfinite => ?_⟩
  obtain ⟨n, hn, rfl⟩ := Option.map_eq_some_iff.1 hx
  by_contra hshort
  have hfinite := Number.Numeral.isFinite_value_of_length hn (Nat.le_of_not_lt hshort)
  exact Bool.false_ne_true (hinfinite.symm.trans hfinite)

/-- A line with a value, one that fails after it has bound a name, and one that uses both. -/
theorem finite_answers_division :
    let calls : List (Settings × String) := [({ strict := true }, "1/3"),
      ({ strict := true }, "(x = 2) / 0"), ({ precision := 3, strict := true }, "e x^r!")]
    (∀ call ∈ calls, FiniteLiterals (lineTokens call.2)) ∧
    ∀ entry ∈ ({} : Calculator).answers calls,
      (∀ x, entry.2.result = .ok x → x.isFinite = true) ∧ entry.2.calculator.memory.Finite := by
  intro calls
  have hliterals : ∀ call ∈ calls, FiniteLiterals (lineTokens call.2) := by decide +kernel
  exact ⟨hliterals, (finite_answers (by decide +kernel) (by decide) hliterals).1⟩

end DeskCalculator
