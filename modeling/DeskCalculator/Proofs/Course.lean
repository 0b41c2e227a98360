import DeskCalculator.Reading
import DeskCalculator.Proofs.Builder

/-!
# The course of a reading

A chain is read from state to state. This file fixes

* `Reader.Reaches` -- reading comes from one state to another, and issues some instructions on the
  way; `Reaches.trans` joins two ways;
* one lemma for each thing a reader can meet: a numeral, a minus, a comma, an opening parenthesis,
  the two kinds of functions, an assignment, a name where an operand has to come
  (`reaches_number` to `reaches_name`); a factorial, an operator, a further factor and the ends of
  groups and bindings after an operand (`reaches_bang` to `reaches_bind`);
* `Token.EndsChain` -- the tokens that can neither follow an operand nor start one.

The lemmas say nothing of cursors: those are the places of errors, and play no part in the course.
-/

namespace DeskCalculator

namespace Reader

/-! ## 1. Ways -/

/-- Reading comes from one state to another and issues the instructions `is` on the way. -/
def Reaches (halt : Cursor) (r : Reader) (ls : List Lexeme) (is : List Instruction) (r' : Reader)
    (ls' : List Lexeme) : Prop :=
  ∃ code : Code, code.instructions = is ∧
    read halt r ls = ⟨code ++ (read halt r' ls').code, (read halt r' ls').stop⟩

variable {halt : Cursor} {r r' r'' : Reader} {l l' : Lexeme} {ls ls' ls'' : List Lexeme}
  {is is' : List Instruction} {frames : List Frame}

theorem Reaches.refl (halt : Cursor) (r : Reader) (ls : List Lexeme) :
    Reaches halt r ls [] r ls := ⟨[], rfl, rfl⟩

/-- **Two ways make one.** -/
theorem Reaches.trans (h : Reaches halt r ls is r' ls') (h' : Reaches halt r' ls' is' r'' ls'') :
    Reaches halt r ls (is ++ is') r'' ls'' := by
  obtain ⟨code, hi, hr⟩ := h
  obtain ⟨code', hi', hr'⟩ := h'
  refine ⟨code ++ code', ?_, ?_⟩
  · rw [instructions_append, hi, hi']
  · rw [hr, hr', List.append_assoc]

/-- A reading stops where it stops from any state on its way. -/
theorem Reaches.stop_eq (h : Reaches halt r ls is r' ls') :
    (read halt r ls).stop = (read halt r' ls').stop := by
  obtain ⟨code, -, hr⟩ := h
  rw [hr]

theorem Reaches.instructions_eq (h : Reaches halt r ls is r' ls') :
    (read halt r ls).code.instructions = is ++ (read halt r' ls').code.instructions := by
  obtain ⟨code, hi, hr⟩ := h
  rw [hr, instructions_append, hi]

/-- A turn is a way. -/
theorem reaches_of_turn {code : Code} (h : r.turn l = ⟨code, .next r'⟩) :
    Reaches halt r (l :: ls) code.instructions r' ls := by
  refine ⟨code, rfl, ?_⟩
  rw [read, h]

/-- A turn that begins like another one, with an instruction in front. -/
theorem reaches_of_turn_after {issued : Issued} (h : r.turn l = (r'.turn l).after issued) :
    Reaches halt r (l :: ls) [issued.instruction] r' (l :: ls) := by
  refine ⟨[issued], rfl, ?_⟩
  rw [read, read, h]
  generalize r'.turn l = t
  obtain ⟨code, move⟩ := t
  cases move <;> rfl

/-! ## 2. Where an operand has to come -/

theorem reaches_number {lexeme : String} {n : Number.Numeral} (hl : l.token = .number lexeme)
    (hn : Number.Numeral.ofText? lexeme.toList = some n) :
    Reaches halt ⟨.chain, frames, .operand⟩ (l :: ls) [.literal n.value]
      ⟨.chain, frames, .operator⟩ ls := by
  have ht : turn ⟨.chain, frames, .operand⟩ l =
      ⟨[⟨l.stop, .literal n.value⟩], .next ⟨.chain, frames, .operator⟩⟩ := by
    simp only [turn, operandTurn, hl, hn, await]
  exact reaches_of_turn ht

theorem reaches_minus (hl : l.token = .mark .minus) :
    Reaches halt ⟨.chain, frames, .operand⟩ (l :: ls) [.hold (.unary .negate)]
      ⟨.chain, frames, .operand⟩ ls := by
  have ht : turn ⟨.chain, frames, .operand⟩ l =
      ⟨[⟨l.start, .hold (.unary .negate)⟩], .next ⟨.chain, frames, .operand⟩⟩ := by
    simp only [turn, operandTurn, hl, await]
  exact reaches_of_turn ht

theorem reaches_comma (hl : l.token = .mark .comma) :
    Reaches halt ⟨.chain, frames, .operand⟩ (l :: ls) [] ⟨.chain, frames, .operand⟩ ls := by
  have ht : turn ⟨.chain, frames, .operand⟩ l = ⟨[], .next ⟨.chain, frames, .operand⟩⟩ := by
    simp only [turn, operandTurn, hl, await]
  exact reaches_of_turn ht

theorem reaches_leftParen (hl : l.token = .mark .leftParen) :
    Reaches halt ⟨.chain, frames, .operand⟩ (l :: ls) [.openScope]
      ⟨.chain, .group 0 :: frames, .operand⟩ ls := by
  have ht : turn ⟨.chain, frames, .operand⟩ l =
      ⟨[⟨l.stop, .openScope⟩], .next ⟨.chain, .group 0 :: frames, .operand⟩⟩ := by
    simp only [turn, operandTurn, hl, enter]
  exact reaches_of_turn ht

theorem reaches_call {name : String} {f : Function} (hl : l.token = .name name)
    (hf : Function.ofName? name = some f) (ha : f.arity = 1) :
    Reaches halt ⟨.chain, frames, .operand⟩ (l :: ls) [.operator f.operator]
      ⟨.chain, frames, .operand⟩ ls := by
  have ht : turn ⟨.chain, frames, .operand⟩ l =
      ⟨[⟨l.stop, .operator f.operator⟩], .next ⟨.chain, frames, .operand⟩⟩ := by
    simp only [turn, operandTurn, hl, hf, ha, await, if_true]
  exact reaches_of_turn ht

theorem reaches_pair {name : String} {f : Function} (hl : l.token = .name name)
    (hf : Function.ofName? name = some f) (ha : f.arity = 2) (hp : l'.token = .mark .leftParen) :
    Reaches halt ⟨.chain, frames, .operand⟩ (l :: l' :: ls) [.operator f.operator, .openScope]
      ⟨.chain, .group 1 :: frames, .operand⟩ ls := by
  have hne : ¬ f.arity = 1 := by omega
  have ht : turn ⟨.chain, frames, .operand⟩ l =
      ⟨[⟨l.stop, .operator f.operator⟩], .next ⟨.chain, frames, .arguments f⟩⟩ := by
    simp only [turn, operandTurn, hl, hf, hne, await, if_false]
  have ht' : turn ⟨.chain, frames, .arguments f⟩ l' =
      ⟨[⟨l'.stop, .openScope⟩], .next ⟨.chain, .group 1 :: frames, .operand⟩⟩ := by
    simp only [turn, argumentsTurn, hp, if_true, ha, enter]
  exact (reaches_of_turn ht).trans (reaches_of_turn ht')

theorem reaches_assign {name : String} (hl : l.token = .name name)
    (hf : Function.ofName? name = none) (he : l'.token = .mark .equals) :
    Reaches halt ⟨.chain, frames, .operand⟩ (l :: l' :: ls) [.openScope]
      ⟨.chain, .binding name :: frames, .operand⟩ ls := by
  have ht : turn ⟨.chain, frames, .operand⟩ l =
      ⟨[], .next ⟨.chain, frames, .binding name l.start.position⟩⟩ := by
    simp only [turn, operandTurn, hl, hf, await]
  have ht' : turn ⟨.chain, frames, .binding name l.start.position⟩ l' =
      ⟨[⟨l'.stop, .openScope⟩], .next ⟨.chain, .binding name :: frames, .operand⟩⟩ := by
    simp only [turn, bindingTurn, he, if_true, enter]
  exact (reaches_of_turn ht).trans (reaches_of_turn ht')

/-- After a name, what is no equals sign is taken as after any operand. -/
theorem turn_of_binding {name : String} {start : Nat} (h : r.awaiting = .binding name start)
    (hl : l.token ≠ .mark .equals) :
    r.turn l = ((r.await .operator).turn l).after ⟨l.start, .read name start⟩ := by
  unfold turn
  rw [h]
  exact if_neg hl

/-- A pending name that no equals sign follows is read. -/
theorem reaches_pending {name : String} {start : Nat}
    (he : ∀ l ∈ ls.head?, l.token ≠ .mark .equals) :
    Reaches halt ⟨.chain, frames, .binding name start⟩ ls [.read name start]
      ⟨.chain, frames, .operator⟩ ls := by
  cases ls with
  | nil => exact ⟨[⟨halt, .read name start⟩], rfl, rfl⟩
  | cons l ls => exact reaches_of_turn_after (turn_of_binding rfl (he l rfl))

/-- So is a name that no equals sign follows. -/
theorem reaches_name {name : String} (hl : l.token = .name name)
    (hf : Function.ofName? name = none) (he : ∀ l' ∈ ls.head?, l'.token ≠ .mark .equals) :
    Reaches halt ⟨.chain, frames, .operand⟩ (l :: ls) [.read name l.start.position]
      ⟨.chain, frames, .operator⟩ ls := by
  have ht : turn ⟨.chain, frames, .operand⟩ l =
      ⟨[], .next ⟨.chain, frames, .binding name l.start.position⟩⟩ := by
    simp only [turn, operandTurn, hl, hf, await]
  exact (reaches_of_turn ht).trans (reaches_pending he)

/-! ## 3. After an operand -/

theorem reaches_bang (hl : l.token = .mark .bang) :
    Reaches halt ⟨.chain, frames, .operator⟩ (l :: ls) [.operator (.unary .factorial)]
      ⟨.chain, frames, .operator⟩ ls := by
  have ht : turn ⟨.chain, frames, .operator⟩ l =
      ⟨[⟨l.start, .operator (.unary .factorial)⟩], .next ⟨.chain, frames, .operator⟩⟩ := by
    simp only [turn, operatorTurn, hl, Mark.after?, await]
  exact reaches_of_turn ht

theorem reaches_between {m : Mark} {op : BinaryOp} (hl : l.token = .mark m)
    (hm : m.between? = some op) :
    Reaches halt ⟨.chain, frames, .operator⟩ (l :: ls) [.operator (.binary op)]
      ⟨.chain, frames, .operand⟩ ls := by
  have hafter : m.after? = none := by
    cases m <;> first | rfl | cases hm
  have ht : turn ⟨.chain, frames, .operator⟩ l =
      ⟨[⟨l.start, .operator (.binary op)⟩], .next ⟨.chain, frames, .operand⟩⟩ := by
    simp [turn, operatorTurn, hl, hafter, hm, await]
  exact reaches_of_turn ht

end Reader

/-- A token that can neither follow an operand nor start a further one. -/
def Token.EndsChain (t : Token) : Prop :=
  ∃ m : Mark, t = .mark m ∧ m.after? = none ∧ m.between? = none ∧ m ≠ .leftParen

namespace Reader

variable {halt : Cursor} {l : Lexeme} {ls : List Lexeme} {frames : List Frame}

/-- After an operand, what is not a mark is taken for the start of a further one, and so is an opening
    parenthesis. -/
theorem operatorTurn_eq_impliedTurn {r : Reader}
    (hl : l.token = .mark .leftParen ∨ ∀ m, l.token ≠ .mark m) :
    r.operatorTurn l = r.impliedTurn l := by
  rcases hl with hl | hl
  · simp only [operatorTurn, hl, Mark.after?, Mark.between?, if_true]
  · unfold operatorTurn
    split
    · next m hm => exact absurd hm (hl m)
    · rfl

/-- Such a token starts a further factor. -/
theorem reaches_factor (hl : l.token = .mark .leftParen ∨ ∀ m, l.token ≠ .mark m) :
    Reaches halt ⟨.chain, frames, .operator⟩ (l :: ls) [.operator (.binary .mul)]
      ⟨.chain, frames, .operand⟩ (l :: ls) := by
  have ht : turn ⟨.chain, frames, .operator⟩ l =
      (turn ⟨.chain, frames, .operand⟩ l).after ⟨l.start, .operator (.binary .mul)⟩ := by
    simp only [turn, operatorTurn_eq_impliedTurn hl]
    rfl
  exact reaches_of_turn_after ht

theorem operatorTurn_of_endsChain {m : Mark} {r : Reader} (hl : l.token = .mark m)
    (ha : m.after? = none) (hb : m.between? = none) (hp : m ≠ .leftParen) :
    r.operatorTurn l = r.closingTurn l m := by
  simp only [operatorTurn, hl, ha, hb, hp, if_false]

theorem reaches_rightParen (hl : l.token = .mark .rightParen) :
    Reaches halt ⟨.chain, .group 0 :: frames, .operator⟩ (l :: ls) [.settle, .closeScope]
      ⟨.chain, frames, .operator⟩ ls := by
  have ht : turn ⟨.chain, .group 0 :: frames, .operator⟩ l =
      ⟨[⟨l.start, .settle⟩, ⟨l.stop, .closeScope⟩], .next ⟨.chain, frames, .operator⟩⟩ := by
    rw [turn, operatorTurn_of_endsChain hl rfl rfl (by decide)]
    rfl
  exact reaches_of_turn ht

theorem reaches_separator {n : Nat} (hl : l.token = .mark .comma) :
    Reaches halt ⟨.chain, .group (n + 1) :: frames, .operator⟩ (l :: ls) [.settle]
      ⟨.chain, .group n :: frames, .operand⟩ ls := by
  have ht : turn ⟨.chain, .group (n + 1) :: frames, .operator⟩ l =
      ⟨[⟨l.start, .settle⟩], .next ⟨.chain, .group n :: frames, .operand⟩⟩ := by
    rw [turn, operatorTurn_of_endsChain hl rfl rfl (by decide)]
    rfl
  exact reaches_of_turn ht

/-- **A binding ends with its chain.** -/
theorem reaches_bind {name : String} (h : ∀ l ∈ ls.head?, l.token.EndsChain) :
    Reaches halt ⟨.chain, .binding name :: frames, .operator⟩ ls
      [.settle, .closeScope, .assign name] ⟨.chain, frames, .operator⟩ ls := by
  cases ls with
  | nil =>
    refine ⟨[⟨halt, .settle⟩, ⟨halt, .closeScope⟩, ⟨halt, .assign name⟩], rfl, ?_⟩
    simp only [read, finish, finishChain, closeChain]
    cases (closeChain .chain halt frames).2 with
    | none => rfl
    | some group => rfl
  | cons l ls =>
    obtain ⟨m, hl, ha, hb, hp⟩ := h l rfl
    refine ⟨[⟨l.start, .settle⟩, ⟨l.start, .closeScope⟩, ⟨l.start, .assign name⟩], rfl, ?_⟩
    simp only [read, turn, operatorTurn_of_endsChain hl ha hb hp, closingTurn, closeChain]
    generalize closeChain .chain l.start frames = closed
    obtain ⟨code, group⟩ := closed
    match group with
    | none => rfl
    | some (0, rest) =>
      by_cases hm : m = .rightParen
      · simp [hm]
      · simp [hm]
    | some (n + 1, rest) =>
      by_cases hm : m = .comma
      · simp [hm]
      · simp [hm]

end Reader

end DeskCalculator
