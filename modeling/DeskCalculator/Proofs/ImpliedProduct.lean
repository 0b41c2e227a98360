import DeskCalculator.Proofs.History
import DeskCalculator.Proofs.Spelling

/-!
# Products without a sign

Operands side by side are multiplied. A reader comes to such a product in another way than to one
with a sign: the turn of the second operand issues the operator itself. This file fixes

* `Token.EndsOperand`, `Token.StartsOperand` -- tokens that a sign can be left out between;
* `Reader.afterOperand_of_turn` -- after the first kind a reader has a whole operand;
* `Reader.alike_star` -- there the second kind is read as with a sign before it.

Main statement: **a sign of multiplication may be left out or put in between two such tokens**, in any
context, whatever the line comes to (`evaluate_impliedProduct`).
-/

namespace DeskCalculator

/-! ## 1. Where a sign can be left out -/

namespace Token

/-- The token can end an operand: a number, a name of a variable, a closing parenthesis or an
    exclamation mark. -/
def EndsOperand : Token → Prop
  | number _ => True
  | name s => Function.ofName? s = none
  | mark m => m = .rightParen ∨ m = .bang
  | foreign _ => False

instance : (t : Token) → Decidable t.EndsOperand
  | number _ => inferInstanceAs (Decidable True)
  | name s => inferInstanceAs (Decidable (Function.ofName? s = none))
  | mark m => inferInstanceAs (Decidable (m = .rightParen ∨ m = .bang))
  | foreign _ => inferInstanceAs (Decidable False)

/-- The token is no mark but an opening parenthesis. -/
def StartsOperand : Token → Prop
  | mark m => m = .leftParen
  | number _ | name _ | foreign _ => True

theorem StartsOperand.ne_mark {t : Token} (h : t.StartsOperand) {m : Mark} (hm : m ≠ .leftParen) :
    t ≠ .mark m := by
  rintro rfl
  exact hm h

theorem StartsOperand.factor {t : Token} (h : t.StartsOperand) :
    t = .mark .leftParen ∨ ∀ m, t ≠ .mark m := by
  cases t with
  | mark m =>
    cases h
    exact .inl rfl
  | number lexeme => exact .inr fun m => Token.noConfusion
  | name s => exact .inr fun m => Token.noConfusion
  | foreign c => exact .inr fun m => Token.noConfusion

end Token

/-- A text that begins with no mark but an opening parenthesis has such a first token. -/
theorem exists_startsOperand {x : Char} (hx : Mark.ofChar? x = none ∨ x = '(') (cs : List Char) :
    ∃ t ts, tokenize (x :: cs) = t :: ts ∧ t.StartsOperand := by
  cases hn : Number.isNumeralChar x with
  | true => exact ⟨_, _, tokenize_of_isNumeralChar hn, trivial⟩
  | false =>
    cases hl : x.isLower with
    | true => exact ⟨_, _, tokenize_of_isLower hn hl, trivial⟩
    | false =>
      refine ⟨_, _, tokenize_of_single hn hl, ?_⟩
      rcases hx with hx | rfl
      · rw [Token.single, hx]
        trivial
      · rfl

namespace Reader

variable {r r' : Reader} {l star : Lexeme} {halt : Cursor} {ls : List Lexeme}

/-! ## 2. After an operand -/

/-- A reader that has a whole operand: an operator can follow. -/
def AfterOperand (r : Reader) : Prop :=
  r.awaiting = .operator ∨ ∃ name start, r.awaiting = .binding name start

theorem afterOperand_operandTurn (hl : l.token.EndsOperand)
    (h : (r.operandTurn l).move = .next r') : r'.AfterOperand := by
  unfold operandTurn at h
  split at h
  · split at h
    · cases h
      exact .inl rfl
    · cases h
  · next name hname =>
    have hf : Function.ofName? name = none := by rwa [hname] at hl
    simp only [hf] at h
    cases h
    exact .inr ⟨_, _, rfl⟩
  · next hm =>
    rw [hm] at hl
    exact absurd hl (by decide)
  · next hm =>
    rw [hm] at hl
    exact absurd hl (by decide)
  · next hm =>
    rw [hm] at hl
    exact absurd hl (by decide)
  · cases h
  · cases h

theorem afterOperand_closingTurn (h : (r.closingTurn l .rightParen).move = .next r') :
    r'.AfterOperand := by
  unfold closingTurn at h
  generalize closeChain r.extent l.start r.frames = closed at h
  obtain ⟨code, group⟩ := closed
  match group with
  | none => cases h
  | some (0, frames) =>
    cases h
    exact .inl rfl
  | some (n + 1, frames) => cases h

theorem afterOperand_operatorTurn (hl : l.token.EndsOperand)
    (h : (r.operatorTurn l).move = .next r') : r'.AfterOperand := by
  unfold operatorTurn at h
  split at h
  · next m hm =>
    rw [hm] at hl
    rcases hl with rfl | rfl
    · exact afterOperand_closingTurn h
    · cases h
      exact .inl rfl
  · exact afterOperand_operandTurn hl h

/-- **After a token that ends an operand, a reader that goes on has a whole operand.** -/
theorem afterOperand_of_turn (hl : l.token.EndsOperand) (h : (r.turn l).move = .next r') :
    r'.AfterOperand := by
  unfold turn at h
  split at h
  · exact afterOperand_operandTurn hl h
  · unfold argumentsTurn at h
    split at h
    · next hm =>
      rw [hm] at hl
      exact absurd hl (by decide)
    · cases h
  · unfold bindingTurn at h
    split at h
    · next hm =>
      rw [hm] at hl
      exact absurd hl (by decide)
    · exact afterOperand_operatorTurn hl h
  · exact afterOperand_operatorTurn hl h

/-! ## 3. With a sign and without -/

theorem impliedTurn_eq (r : Reader) (l : Lexeme) :
    r.impliedTurn l = ((r.await .operand).turn l).after ⟨l.start, .operator (.binary .mul)⟩ := rfl

theorem operatorTurn_star (hr : r.extent = .chain) (hstar : star.token = .mark .star) :
    r.operatorTurn star =
      ⟨[⟨star.start, .operator (.binary .mul)⟩], .next (r.await .operand)⟩ := by
  unfold operatorTurn
  rw [hstar]
  simp [Mark.after?, Mark.between?, hr]

/-- **After an operand, a further one is read as with a sign before it.** -/
theorem alike_star (hr : r.extent = .chain) (h : r.AfterOperand) (hl : l.token.StartsOperand)
    (hstar : star.token = .mark .star) (halt : Cursor) (ls : List Lexeme) :
    (read halt r (l :: ls)).Alike (read halt r (star :: l :: ls)) := by
  have hoperator : ∀ r : Reader, r.extent = .chain → r.awaiting = .operator →
      (read halt r (l :: ls)).Alike (read halt r (star :: l :: ls)) := by
    intro r hr hawaiting
    have hturn : ∀ l, r.turn l = r.operatorTurn l := fun l => by rw [turn, hawaiting]
    have himplied :=
      (hturn l).trans ((operatorTurn_eq_impliedTurn hl.factor).trans (impliedTurn_eq r l))
    rw [read_cons_of_after himplied,
      read_cons_of_next ((hturn star).trans (operatorTurn_star hr hstar))]
    exact ⟨rfl, rfl⟩
  rcases h with hawaiting | ⟨name, start, hawaiting⟩
  · exact hoperator r hr hawaiting
  · obtain ⟨hcode, hfate⟩ := hoperator (r.await .operator) hr rfl
    rw [read_cons_of_after (turn_of_binding hawaiting (hl.ne_mark (by decide))),
      read_cons_of_after (turn_of_binding hawaiting (by rw [hstar]; decide))]
    exact ⟨congrArg₂ List.cons rfl hcode, hfate⟩

/-- **So it is wherever the first operand stands**, or reading stops before the second one. -/
theorem alike_append_star (hr : r.extent = .chain) {front : List Lexeme} {last : Lexeme}
    (hlast : front.getLast? = some last) (hends : last.token.EndsOperand)
    (hl : l.token.StartsOperand) (hstar : star.token = .mark .star) :
    (read halt r (front ++ l :: ls)).Alike (read halt r (front ++ star :: l :: ls)) := by
  induction front generalizing r with
  | nil => cases hlast
  | cons first front ih =>
    rw [List.cons_append, List.cons_append]
    cases ht : r.turn first with
    | mk code move =>
      cases move with
      | rest =>
        rw [read, read, ht]
        exact ⟨rfl, rfl⟩
      | refuse refusal =>
        rw [read, read, ht]
        exact ⟨rfl, rfl⟩
      | next r' =>
        have hmove : (r.turn first).move = .next r' := by rw [ht]
        have hr' : r'.extent = .chain := ((goesWithin_turn r first [] r' hmove).1).trans hr
        have honward : (read halt r' (front ++ l :: ls)).Alike
            (read halt r' (front ++ star :: l :: ls)) := by
          cases front with
          | nil =>
            cases hlast
            exact alike_star hr' (afterOperand_of_turn hends hmove) hl hstar halt ls
          | cons next front => exact ih hr' hlast
        rw [read_cons_of_next ht, read_cons_of_next ht]
        exact ⟨by rw [outline_append, outline_append, honward.code], honward.fate⟩

end Reader

/-! ## 4. Both lines -/

/-- **Both texts are read alike.** -/
theorem alike_impliedProduct {source source' : Source} {a b : List Char} {x : Char} {last : Token}
    (hbody : source.body = a ++ x :: b) (hbody' : source'.body = a ++ '*' :: x :: b)
    (hu : ∀ y ∈ source.body, y.isUpper = false)
    (hsplit : tokenize (a ++ x :: b) = tokenize a ++ tokenize (x :: b))
    (hlast : (tokenize a).getLast? = some last) (hends : last.EndsOperand)
    (hx : Mark.ofChar? x = none ∨ x = '(') :
    source.start.readChain.Alike source'.start.readChain := by
  obtain ⟨t, ts, hts, hstarts⟩ := exists_startsOperand hx b
  have hsplit' : tokenize (a ++ '*' :: x :: b) =
      tokenize a ++ .mark .star :: tokenize (x :: b) :=
    tokenize_append_cons (by decide) (by decide) (by decide) _ _
  have hu' : ∀ y ∈ source'.body, y.isUpper = false := by
    rw [hbody] at hu
    rw [hbody']
    intro y hy
    rcases List.mem_append.1 hy with hy | hy
    · exact hu y (List.mem_append_left _ hy)
    · rcases List.mem_cons.1 hy with rfl | hy
      · decide
      · exact hu y (List.mem_append_right _ hy)
  have htokens := source.start.tokens_eq_takeWhile hu
  have htokens' := source'.start.tokens_eq_takeWhile hu'
  have hhalt := source.start.atEnd_halt_eq hu
  have hhalt' := source'.start.atEnd_halt_eq hu'
  have hrest : source.start.rest = a ++ x :: b := hbody
  have hrest' : source'.start.rest = a ++ '*' :: x :: b := hbody'
  rw [hrest, hsplit, hts] at htokens hhalt
  rw [hrest', hsplit', hts] at htokens' hhalt'
  rw [List.takeWhile_append] at htokens htokens'
  have hend : source.start.halt.atEnd = source'.start.halt.atEnd := by
    rw [hhalt, hhalt']
    simp
  have hread := alike_read_loose hend
  have hread' : source'.start.readChain.Alike _ := alike_read_loose rfl
  by_cases hfront :
      ((tokenize a).takeWhile (· ≠ .mark .semicolon)).length = (tokenize a).length
  · -- no terminator stands before the product
    obtain ⟨lexeme, hlexeme, htoken⟩ : ∃ lexeme : Lexeme,
        ((tokenize a).map Token.loose).getLast? = some lexeme ∧ lexeme.token.EndsOperand := by
      rw [List.getLast?_map, hlast]
      exact ⟨_, rfl, hends⟩
    have ht : t ≠ .mark .semicolon := hstarts.ne_mark (by decide)
    rw [if_pos hfront, List.takeWhile_cons_of_pos (by simpa using ht)] at htokens
    rw [if_pos hfront, List.takeWhile_cons_of_pos (by decide),
      List.takeWhile_cons_of_pos (by simpa using ht)] at htokens'
    rw [htokens, List.map_append] at hread
    rw [htokens', List.map_append] at hread'
    exact (hread.trans (Reader.alike_append_star rfl hlexeme htoken hstarts rfl)).trans hread'.symm
  · rw [if_neg hfront] at htokens htokens'
    rw [htokens] at hread
    rw [htokens'] at hread'
    exact hread.trans hread'.symm

/-- **A product without a sign is a product.** Where an operand ends and a further one starts, a text
    and the text with a sign between them have one value or fail for one cause, and leave the same
    table. -/
theorem evaluate_impliedProduct {line line' : String} {a b : List Char} {x : Char} {last : Token}
    (c : Calculator) (hline : Source.bodyOf line.toList = a ++ x :: b)
    (hline' : Source.bodyOf line'.toList = a ++ '*' :: x :: b)
    (hsplit : tokenize (a ++ x :: b) = tokenize a ++ tokenize (x :: b))
    (hlast : (tokenize a).getLast? = some last) (hends : last.EndsOperand)
    (hx : Mark.ofChar? x = none ∨ x = '(') :
    let answer := c.evaluate line
    let answer' := c.evaluate line'
    ((∃ y, answer.result = .ok y ∧ answer'.result = .ok y) ∨
      ∃ err err', answer.result = .error err ∧ answer'.result = .error err' ∧
        err.cause = err'.cause ∧ err.kind = err'.kind) ∧
    answer.calculator.memory.toList = answer'.calculator.memory.toList := by
  obtain ⟨memory, settings⟩ := c
  let source : Source := ⟨a ++ x :: b, by simp⟩
  let source' : Source := ⟨a ++ '*' :: x :: b, by simp⟩
  have hs : Source.ofLine line = .ok source := Source.ofLine_eq_ok_iff.2 hline
  have hs' : Source.ofLine line' = .ok source' := Source.ofLine_eq_ok_iff.2 hline'
  have hu : ∀ y ∈ source.body, y.isUpper = false := by
    intro y hy
    rw [← Source.ofLine_eq_ok_iff.1 hs] at hy
    exact isUpper_of_mem_bodyOf hy
  have hbody' : source'.body = a ++ '*' :: x :: b := rfl
  have hread := alike_impliedProduct rfl hbody' hu hsplit hlast hends hx
  have halike := alike_evaluate hs hs'
    (Machine.agrees_exec_self (fun _ => True) settings (.initial memory) hread.code) hread.fate
  dsimp only at halike ⊢
  constructor
  · rcases halike.ok_or_error with hok | ⟨err, err', herr, herr', hcause⟩
    · exact .inl hok
    · refine .inr ⟨err, err', herr, herr', hcause, ?_⟩
      rw [EvalError.kind, EvalError.kind, hcause]
  · have hmemory := fun name => halike.memory name trivial
    simp only [memory_evaluate] at hmemory ⊢
    exact Variables.toList_after hmemory

/-- A call in a value to bind, before a name that strict evaluation does not know. -/
theorem evaluate_impliedProduct_call :
    let answer := Calculator.evaluate { settings := { strict := true } } "k = (j=2)! log(2, 3)x Y"
    let answer' := Calculator.evaluate { settings := { strict := true } } "k=(j=2)!log(2,3)*xy"
    ((∃ y, answer.result = .ok y ∧ answer'.result = .ok y) ∨
      ∃ err err', answer.result = .error err ∧ answer'.result = .error err' ∧
        err.cause = err'.cause ∧ err.kind = err'.kind) ∧
    answer.calculator.memory.toList = answer'.calculator.memory.toList := by
  have hsplit : tokenize ("k=(j=2)!log(2,3)".toList ++ 'x' :: ['y']) =
      tokenize "k=(j=2)!log(2,3)".toList ++ tokenize ('x' :: ['y']) := by decide +kernel
  have hlast : (tokenize "k=(j=2)!log(2,3)".toList).getLast? = some (.mark .rightParen) := by
    decide +kernel
  exact evaluate_impliedProduct _ (by decide +kernel) (by decide +kernel) hsplit hlast
    (.inl rfl) (.inl rfl)

end DeskCalculator
