import DeskCalculator.Operator.Apply
import DeskCalculator.Number.Rounding
import DeskCalculator.Token
import DeskCalculator.Variables

/-!
# The tree of an expression

What an expression means, said without stacks. This file fixes

* `Tree`, with `Tree.value` -- the value from left to right, each operator's result rounded once;
* `Tree.rank` -- how tightly each operator binds;
* `Tree.climb` -- precedence climbing: the longest tree at the head of the tokens whose operators
  outside parentheses bind at least as tightly as a bound, and the tokens after it. It goes with
  `Tree.operand`, one operand, and `Tree.extend`, which takes in what follows an operand;
* `Tree.ofTokens?` -- the tree of all tokens but the final terminator.

The three functions call each other on ever shorter lists; the equations of section 4 are all that
the rest of the theory uses of them.
-/

namespace DeskCalculator

/-- The tree of an expression. -/
inductive Tree where
  | literal (value : Float)
  | read (name : String)
  | unary (op : UnaryOp) (operand : Tree)
  | binary (op : BinaryOp) (left right : Tree)
  | assign (name : String) (value : Tree)
  deriving DecidableEq

namespace Tree

/-! ## 1. Values -/

/-- The value of a tree, and the variables afterwards. Results of operators are rounded to `places`
    decimal places; a name without a value reads as zero. -/
def value (places : Int) : Tree → Variables → Float × Variables
  | literal x, v => (x, v)
  | read name, v => (v.getD name, v)
  | unary op t, v =>
    let (x, v) := t.value places v
    (Number.roundTo (op.apply x) places, v)
  | binary op t u, v =>
    let (x, v) := t.value places v
    let (y, v) := u.value places v
    (Number.roundTo (op.apply x y) places, v)
  | assign name t, v =>
    let (x, v) := t.value places v
    (x, v.set name x)

/-- The values of a stack of trees, the top one first; the bottom one is evaluated first. -/
def values (places : Int) : List Tree → Variables → List Float × Variables
  | [], v => ([], v)
  | t :: ts, v =>
    let (xs, v) := values places ts v
    let (x, v) := t.value places v
    (x :: xs, v)

theorem length_values (places : Int) (ts : List Tree) (v : Variables) :
    (values places ts v).1.length = ts.length := by
  induction ts with
  | nil => rfl
  | cons t ts ih => simp only [values, List.length_cons, ih]

/-! ## 2. Ranks -/

/-- How tightly an operator between two operands binds; the functions of two arguments are written
    as calls and never stand there. -/
def rank : BinaryOp → Nat
  | .add | .sub => 4
  | .mul | .div => 16
  | .pow => 24
  | .mod => 32
  | .log | .root => 64

/-- How tightly a factorial binds. -/
def factorialRank : Nat := 48

/-- How tightly the operators in the operand of a negation bind at least. -/
def negationBound : Nat := 9

/-- How tightly the operators in the right operand of an operator bind at least: more tightly than
    the operator, so that equals group to the left; a power alone takes a further power. -/
def rightBound : BinaryOp → Nat
  | .pow => rank .pow
  | op => rank op + 1

/-! ## 3. Climbing -/

/-- The tokens after a mark that has to stand at their head. -/
def past? (m : Mark) : (ts : List Token) → Option { rest : List Token // rest.length < ts.length }
  | .mark m' :: rest => if m' = m then some ⟨rest, Nat.lt_succ_self _⟩ else none
  | _ => none

/-- The operator a token stands for between two operands. -/
def between? : Token → Option BinaryOp
  | .mark m => m.between?
  | .number _ | .name _ | .foreign _ => none

/-- Whether a token after a whole operand starts another one, multiplied without a sign. -/
def startsFactor : Token → Bool
  | .number _ | .name _ | .mark .leftParen => true
  | .mark _ | .foreign _ => false

/-- The operator after a whole operand, and the tokens of its right operand with all that
    follows. -/
def join? : (ts : List Token) →
    Option (BinaryOp × { right : List Token // right.length ≤ ts.length })
  | [] => none
  | t :: rest =>
    match between? t with
    | some op => some (op, ⟨rest, Nat.le_succ _⟩)
    | none => if startsFactor t then some (.mul, ⟨t :: rest, Nat.le_refl _⟩) else none

mutual

/-- `operand`, with the bound on the rest that ends the recursion. -/
def operandAux (ts : List Token) : Option (Tree × { rest : List Token // rest.length < ts.length }) :=
  match ts with
  | .number lexeme :: rest =>
    (Number.Numeral.ofText? lexeme.toList).map fun n => (literal n.value, ⟨rest, Nat.lt_succ_self _⟩)
  | .mark .minus :: rest =>
    (climbAux negationBound rest).map fun (t, r) => (unary .negate t, ⟨r.1, Nat.lt_succ_of_lt r.2⟩)
  | .mark .leftParen :: rest =>
    (climbAux 0 rest).bind fun (t, r) =>
      (past? .rightParen r.1).map fun r' =>
        (t, ⟨r'.1, Nat.lt_succ_of_lt (Nat.lt_trans r'.2 r.2)⟩)
  | .name name :: rest =>
    match (Function.ofName? name).map Function.operator with
    | some (.unary op) =>
      (operandAux rest).map fun (t, r) => (unary op t, ⟨r.1, Nat.lt_succ_of_lt r.2⟩)
    | some (.binary op) =>
      (past? .leftParen rest).bind fun r₁ =>
      (climbAux 0 r₁.1).bind fun (t, r₂) =>
      (past? .comma r₂.1).bind fun r₃ =>
      (climbAux 0 r₃.1).bind fun (u, r₄) =>
      (past? .rightParen r₄.1).map fun r₅ =>
        (binary op t u, ⟨r₅.1, by
          have h₁ := r₁.2; have h₂ := r₂.2; have h₃ := r₃.2; have h₄ := r₄.2; have h₅ := r₅.2
          simp only [List.length_cons]
          omega⟩)
    | some .scope => none
    | none =>
      match past? .equals rest with
      | some r =>
        (climbAux 0 r.1).map fun (t, r') =>
          (assign name t, ⟨r'.1, Nat.lt_succ_of_lt (Nat.lt_trans r'.2 r.2)⟩)
      | none => some (read name, ⟨rest, Nat.lt_succ_self _⟩)
  | _ => none
  termination_by 4 * ts.length

/-- `climb`, with the bound on the rest. -/
def climbAux (bound : Nat) (ts : List Token) :
    Option (Tree × { rest : List Token // rest.length < ts.length }) :=
  (operandAux ts).bind fun (t, r) =>
    (extendAux bound t r.1).map fun (t', r') => (t', ⟨r'.1, Nat.lt_of_le_of_lt r'.2 r.2⟩)
  termination_by 4 * ts.length + 1

/-- `extend`, with the bound on the rest. -/
def extendAux (bound : Nat) (left : Tree) (ts : List Token) :
    Option (Tree × { rest : List Token // rest.length ≤ ts.length }) :=
  match ts with
  | .mark .bang :: rest =>
    if bound ≤ factorialRank then
      (extendAux bound (unary .factorial left) rest).map fun (t, r) =>
        (t, ⟨r.1, Nat.le_succ_of_le r.2⟩)
    else some (left, ⟨.mark .bang :: rest, Nat.le_refl _⟩)
  | ts =>
    match join? ts with
    | some (op, right) =>
      if bound ≤ rank op then
        (climbAux (rightBound op) right.1).bind fun (u, r) =>
          (extendAux bound (binary op left u) r.1).map fun (t, r') =>
            (t, ⟨r'.1, Nat.le_trans r'.2 (Nat.le_of_lt (Nat.lt_of_lt_of_le r.2 right.2))⟩)
      else some (left, ⟨ts, Nat.le_refl _⟩)
    | none => some (left, ⟨ts, Nat.le_refl _⟩)
  termination_by 4 * ts.length + 2

end

/-- One operand at the head of the tokens, and the tokens after it. -/
def operand (ts : List Token) : Option (Tree × List Token) :=
  (operandAux ts).map fun (t, r) => (t, r.1)

/-- The longest tree at the head of the tokens whose operators outside parentheses bind at least as
    tightly as `bound`, and the tokens after it. -/
def climb (bound : Nat) (ts : List Token) : Option (Tree × List Token) :=
  (climbAux bound ts).map fun (t, r) => (t, r.1)

/-- `left` with all that follows it and binds at least as tightly as `bound`. -/
def extend (bound : Nat) (left : Tree) (ts : List Token) : Option (Tree × List Token) :=
  (extendAux bound left ts).map fun (t, r) => (t, r.1)

/-- The tree of a text that ends in its only terminator. -/
def ofTokens? (ts : List Token) : Option Tree :=
  match climb 0 ts with
  | some (t, [.mark .semicolon]) => some t
  | _ => none

/-! ## 4. Equations -/

/-- The recursion of `operand`, without the bounds. -/
theorem operand_eq (ts : List Token) : operand ts =
    match ts with
    | .number lexeme :: rest =>
      (Number.Numeral.ofText? lexeme.toList).map fun n => (literal n.value, rest)
    | .mark .minus :: rest => (climb negationBound rest).map fun (t, r) => (unary .negate t, r)
    | .mark .leftParen :: rest =>
      (climb 0 rest).bind fun (t, r) => (past? .rightParen r).map fun r' => (t, r'.1)
    | .name name :: rest =>
      match (Function.ofName? name).map Function.operator with
      | some (.unary op) => (operand rest).map fun (t, r) => (unary op t, r)
      | some (.binary op) =>
        (past? .leftParen rest).bind fun r₁ =>
        (climb 0 r₁.1).bind fun (t, r₂) =>
        (past? .comma r₂).bind fun r₃ =>
        (climb 0 r₃.1).bind fun (u, r₄) =>
        (past? .rightParen r₄).map fun r₅ => (binary op t u, r₅.1)
      | some .scope => none
      | none =>
        match past? .equals rest with
        | some r => (climb 0 r.1).map fun (t, r') => (assign name t, r')
        | none => some (read name, rest)
    | _ => none := by
  unfold operand climb
  rw [operandAux.eq_def]
  split
  · simp only [Option.map_map, Function.comp_def]
  · simp only [Option.map_map, Function.comp_def]
  · simp only [Option.map_bind, Option.map_map, Option.bind_map, Function.comp_def]
  · next name rest =>
    simp only
    cases (Function.ofName? name).map Function.operator with
    | none =>
      cases past? .equals rest with
      | none => rfl
      | some r => simp only [Option.map_map, Function.comp_def]
    | some op =>
      cases op with
      | unary op => simp only [Option.map_map, Function.comp_def]
      | binary op =>
        simp only [Option.map_bind, Option.map_map, Option.bind_map, Function.comp_def]
      | scope => rfl
  · rfl

/-- That of `climb`: one operand, then what follows it. -/
theorem climb_eq (bound : Nat) (ts : List Token) :
    climb bound ts = (operand ts).bind fun (t, rest) => extend bound t rest := by
  unfold climb operand extend
  rw [climbAux]
  simp only [Option.map_bind, Option.map_map, Option.bind_map, Function.comp_def]

section Equations

variable {ts rest : List Token} {t u left : Tree} {name : String} {bound : Nat}

theorem climbAux_of_climb (h : climb bound ts = some (t, rest)) :
    ∃ hlt, climbAux bound ts = some (t, ⟨rest, hlt⟩) := by
  simp only [climb, Option.map_eq_some_iff] at h
  obtain ⟨⟨t', r⟩, hc, he⟩ := h
  cases he
  exact ⟨r.2, hc⟩

theorem past?_cons (m : Mark) (ts : List Token) :
    past? m (.mark m :: ts) = some ⟨ts, Nat.lt_succ_self _⟩ := by
  simp [past?]

theorem operand_number {lexeme : String} {n : Number.Numeral}
    (h : Number.Numeral.ofText? lexeme.toList = some n) :
    operand (.number lexeme :: ts) = some (literal n.value, ts) := by
  rw [operand_eq]
  simp only [h, Option.map_some]

theorem operand_minus (h : climb negationBound ts = some (t, rest)) :
    operand (.mark .minus :: ts) = some (unary .negate t, rest) := by
  rw [operand_eq]
  simp only [h, Option.map_some]

theorem operand_leftParen (h : climb 0 ts = some (t, .mark .rightParen :: rest)) :
    operand (.mark .leftParen :: ts) = some (t, rest) := by
  rw [operand_eq]
  simp only [h, Option.bind_some, past?_cons, Option.map_some]

theorem operand_unary {f : Function} {op : UnaryOp} (hf : Function.ofName? name = some f)
    (ho : f.operator = .unary op) (h : operand ts = some (t, rest)) :
    operand (.name name :: ts) = some (unary op t, rest) := by
  rw [operand_eq]
  simp only [hf, Option.map_some, ho, h]

theorem operand_binary {f : Function} {op : BinaryOp} {mid : List Token}
    (hf : Function.ofName? name = some f) (ho : f.operator = .binary op)
    (ht : climb 0 ts = some (t, .mark .comma :: mid))
    (hu : climb 0 mid = some (u, .mark .rightParen :: rest)) :
    operand (.name name :: .mark .leftParen :: ts) = some (binary op t u, rest) := by
  rw [operand_eq]
  simp only [hf, Option.map_some, ho, past?_cons, Option.bind_some, ht, hu]

theorem operand_assign (hf : Function.ofName? name = none) (h : climb 0 ts = some (t, rest)) :
    operand (.name name :: .mark .equals :: ts) = some (assign name t, rest) := by
  rw [operand_eq]
  simp only [hf, Option.map_none, past?_cons, h, Option.map_some]

theorem operand_read (hf : Function.ofName? name = none)
    (h : ts.head? ≠ some (.mark .equals)) : operand (.name name :: ts) = some (read name, ts) := by
  have hp : past? .equals ts = none := by
    unfold past?
    split
    · next m _ =>
      rw [if_neg]
      intro he
      subst he
      exact h rfl
    · rfl
  rw [operand_eq]
  simp only [hf, Option.map_none, hp]

theorem climb_of_operand (h : operand ts = some (t, rest)) :
    climb bound ts = extend bound t rest := by
  rw [climb_eq, h]
  rfl

theorem extend_bang (h : bound ≤ factorialRank) :
    extend bound left (.mark .bang :: ts) = extend bound (unary .factorial left) ts := by
  rw [extend, extendAux, if_pos h, Option.map_map, extend]
  rfl

theorem extend_join {op : BinaryOp} {right : { right : List Token // right.length ≤ ts.length }}
    (hj : join? ts = some (op, right)) (hb : bound ≤ rank op)
    (h : climb (rightBound op) right.1 = some (u, rest)) :
    extend bound left ts = extend bound (binary op left u) rest := by
  obtain ⟨_, hc⟩ := climbAux_of_climb h
  have hbang : ∀ us, ts ≠ .mark .bang :: us := by
    intro us he
    subst he
    simp [join?, between?, Mark.between?, startsFactor] at hj
  rw [extend, extendAux]
  · simp only [hj, if_pos hb, hc, Option.bind_some, Option.map_map]
    rfl
  · exact hbang

theorem extend_of_lt (hbang : ts.head? ≠ some (.mark .bang))
    (h : ∀ op right, join? ts = some (op, right) → rank op < bound) :
    extend bound left ts = some (left, ts) := by
  rw [extend, extendAux]
  · split
    · next op right hj =>
      rw [if_neg (Nat.not_le_of_lt (h op right hj))]
      rfl
    · rfl
  · intro us he
    subst he
    exact hbang rfl

end Equations

end Tree

end DeskCalculator
