import DeskCalculator.Evaluation
import DeskCalculator.Proofs.Course
import DeskCalculator.Proofs.Outline
import DeskCalculator.Proofs.Places
import DeskCalculator.Proofs.Progress
import DeskCalculator.Proofs.Walks

/-!
# A reader retraces the descent

A reader with open frames goes over the text once; the descent reads passages within passages. Both
come to the same reading. This file fixes

* `Reader.readAt` -- what a reader comes to from a cursor on;
* `Reader.closed` -- what a reader with frames comes to behind a chain that ends at the cursor;
* `Passage.Retraced` -- how a reader in any frames goes over a passage;
* `operand_reads_iff`, `chain_reads_iff` -- an operand and a chain are what the descent reads;
* `Evaluation.follow_andThen` -- readings in a row are followed one after the other.

Main statements: **a reader retraces the descent** (`Reads.retraced`), and what holds of the descent
holds of an evaluation that follows it: **it goes ahead and stops at a boundary**
(`advances_to_boundary`).
-/

namespace DeskCalculator

/-! ## 1. A reader at a cursor -/

namespace Reader

/-- What a reader comes to from a cursor on. -/
def readAt (r : Reader) (c : Cursor) : Reading := read c.halt r c.lexemes

variable {r r' : Reader} {c c' : Cursor} {t : Token} {code : Code} {extent : Extent}
  {frames : List Frame}

/-- A turn that leads on. -/
theorem readAt_of_next (ht : c.next? = some (t, c')) (h : r.turn ⟨c, t, c'⟩ = ⟨code, .next r'⟩) :
    r.readAt c = ⟨code ++ (r'.readAt c').code, (r'.readAt c').stop⟩ := by
  rw [readAt, Cursor.lexemes_of_next? ht, read_cons_of_next h, readAt, Cursor.halt_of_next? ht]

/-- A turn that is refused. -/
theorem readAt_of_refuse {refusal : Refusal} (ht : c.next? = some (t, c'))
    (h : r.turn ⟨c, t, c'⟩ = ⟨code, .refuse refusal⟩) : r.readAt c = ⟨code, .error refusal⟩ := by
  rw [readAt, Cursor.lexemes_of_next? ht, read, h]

/-- A turn that leaves the token to others. -/
theorem readAt_of_rest (ht : c.next? = some (t, c')) (h : r.turn ⟨c, t, c'⟩ = ⟨code, .rest⟩) :
    r.readAt c = ⟨code, .ok c⟩ := by
  rw [readAt, Cursor.lexemes_of_next? ht, read, h]

/-- A turn that begins like another one, with an instruction in front. -/
theorem readAt_of_after {issued : Issued} (ht : c.next? = some (t, c'))
    (h : r.turn ⟨c, t, c'⟩ = (r'.turn ⟨c, t, c'⟩).after issued) :
    r.readAt c = (r'.readAt c).after issued := by
  rw [readAt, readAt, Cursor.lexemes_of_next? ht, read_cons_of_after h]
  rfl

/-- The end of the tokens. -/
theorem readAt_of_none (ht : c.next? = none) : r.readAt c = r.finish c := by
  have hhalt : c.halt = c := by
    rw [Cursor.halt, Cursor.collect_of_stop (.inl (Cursor.next?_eq_none_iff.1 ht))]
  rw [readAt, Cursor.lexemes_of_next?_eq_none ht, hhalt, read]

/-! ## 2. Behind a chain -/

/-- What a reader comes to behind a chain that ends at `c`: its innermost group is closed or goes
    on, or its innermost name is bound. -/
def closed (extent : Extent) (c : Cursor) : List Frame → Reading
  | [] => .stay c
  | .group 0 :: frames => c.closing.andThen (readAt ⟨extent, frames, .operator⟩)
  | .group (separators + 1) :: frames =>
    (c.expecting .comma .separator).andThen (readAt ⟨extent, .group separators :: frames, .operand⟩)
  | .binding name :: frames => (c.binding name).andThen (readAt ⟨extent, frames, .operator⟩)

/-- The end of the tokens behind a chain. -/
theorem finishChain_eq (ht : c.next? = none) (he : frames ≠ [] ∨ extent = .chain) :
    finishChain ⟨extent, frames, .operator⟩ c = (closed extent c frames).after ⟨c, .settle⟩ := by
  have hmark := Cursor.mark?_of_next?_eq_none ht
  match frames with
  | [] =>
    have he : extent = .chain := he.resolve_left fun h => h rfl
    subst he
    rfl
  | .group 0 :: frames =>
    rw [closed, Cursor.closing, Cursor.expecting, if_neg (by rw [hmark]; decide)]
    rfl
  | .group (separators + 1) :: frames =>
    rw [closed, Cursor.expecting, if_neg (by rw [hmark]; decide)]
    rfl
  | .binding name :: frames =>
    have hrest : readAt ⟨extent, frames, .operator⟩ c = finishChain ⟨extent, frames, .operator⟩ c :=
      readAt_of_none ht
    rw [closed, Reading.andThen_of_ok rfl, hrest]
    unfold finishChain
    simp only [closeChain]
    cases (closeChain extent c frames).2 <;> rfl

/-- A mark that ends the chain of a binding binds the name before it ends what lies around. -/
theorem closingTurn_binding (extent : Extent) (frames : List Frame) (name : String) (l : Lexeme)
    (m : Mark) : closingTurn ⟨extent, .binding name :: frames, .operator⟩ l m =
      (((closingTurn ⟨extent, frames, .operator⟩ l m).after ⟨l.start, .assign name⟩).after
        ⟨l.start, .closeScope⟩).after ⟨l.start, .settle⟩ := by
  simp only [closingTurn, closeChain]
  generalize closeChain extent l.start frames = closed
  rcases closed with ⟨code, _ | ⟨_ | separators, rest⟩⟩
  · rfl
  · by_cases hm : m = .rightParen
    · simp [hm, Turn.after]
    · simp [hm, Turn.after]
  · by_cases hm : m = .comma
    · simp [hm, Turn.after]
    · simp [hm, Turn.after]

/-- A mark that ends a chain is no operator, and opens nothing. -/
theorem turn_of_endsChain {m : Mark} (hends : m.endsChain = true) (extent : Extent)
    (frames : List Frame) (c c' : Cursor) :
    turn ⟨extent, frames, .operator⟩ ⟨c, .mark m, c'⟩ =
      closingTurn ⟨extent, frames, .operator⟩ ⟨c, .mark m, c'⟩ m := by
  have hm : m.after? = none ∧ m.between? = none ∧ m ≠ .leftParen := by
    revert hends
    cases m <;> decide
  exact operatorTurn_of_endsChain (l := ⟨c, .mark m, c'⟩) rfl hm.1 hm.2.1 hm.2.2

/-- **Where a chain ends, a reader settles it** and goes on behind it. -/
theorem readAt_of_endsChain (hc : c.EndsChain) (he : frames ≠ [] ∨ extent = .chain) :
    readAt ⟨extent, frames, .operator⟩ c = (closed extent c frames).after ⟨c, .settle⟩ := by
  obtain ⟨m, hm, hends⟩ := hc
  by_cases hterminator : m = .semicolon
  · subst hterminator
    have ht : c.next? = none := Cursor.next?_eq_none_iff.2 (Mark.ofChar?_eq_some_iff.1 hm).symm
    exact (readAt_of_none ht).trans (finishChain_eq ht he)
  · have ht := Cursor.next?_of_mark? hm hterminator
    have hturn := fun frames => turn_of_endsChain hends extent frames c c.advance
    match frames with
    | [] =>
      have he : extent = .chain := he.resolve_left fun h => h rfl
      subst he
      exact readAt_of_rest ht ((hturn []).trans rfl)
    | .group 0 :: frames =>
      rw [closed, Cursor.closing, Cursor.expecting]
      by_cases hparen : m = .rightParen
      · subst hparen
        rw [if_pos hm]
        exact readAt_of_next ht ((hturn (.group 0 :: frames)).trans rfl)
      · rw [if_neg fun h => hparen (Option.some.inj (hm.symm.trans h))]
        refine readAt_of_refuse ht ((hturn (.group 0 :: frames)).trans ?_)
        simp only [closingTurn, closeChain, if_neg hparen]
        rfl
    | .group (separators + 1) :: frames =>
      rw [closed, Cursor.expecting]
      by_cases hcomma : m = .comma
      · subst hcomma
        rw [if_pos hm]
        exact readAt_of_next ht ((hturn (.group (separators + 1) :: frames)).trans rfl)
      · rw [if_neg fun h => hcomma (Option.some.inj (hm.symm.trans h))]
        refine readAt_of_refuse ht ((hturn (.group (separators + 1) :: frames)).trans ?_)
        simp only [closingTurn, closeChain, if_neg hcomma]
        rfl
    | .binding name :: frames =>
      have hbind : readAt ⟨extent, .binding name :: frames, .operator⟩ c =
          (((readAt ⟨extent, frames, .operator⟩ c).after ⟨c, .assign name⟩).after
            ⟨c, .closeScope⟩).after ⟨c, .settle⟩ := by
        simp only [readAt, Cursor.lexemes_of_next? ht, read, hturn, closingTurn_binding]
        generalize closingTurn ⟨extent, frames, .operator⟩ _ m = closing
        obtain ⟨code, move⟩ := closing
        cases move <;> rfl
      rw [hbind, closed, Reading.andThen_of_ok rfl]
      rfl

/-- An operand on its own ends where its reader stops. -/
theorem readAt_of_endsOperand (hc : c.EndsOperand) :
    readAt ⟨.operand, [], .operator⟩ c = .stay c := by
  obtain ⟨m, hm, hends⟩ := hc
  by_cases hterminator : m = .semicolon
  · subst hterminator
    exact readAt_of_none
      (Cursor.next?_eq_none_iff.2 (Mark.ofChar?_eq_some_iff.1 hm).symm)
  · refine readAt_of_rest (Cursor.next?_of_mark? hm hterminator) ?_
    cases m <;> first | rfl | cases hends

end Reader

/-! ## 3. Passages in frames -/

namespace Passage

open Reader

/-- **How a reader in any frames goes over a passage** and on behind it. -/
def Retraced (extent : Extent) (frames : List Frame) (c : Cursor) (r : Reading) : Passage → Prop
  | operand => readAt ⟨extent, frames, .operand⟩ c = r.andThen (readAt ⟨extent, frames, .operator⟩)
  | trail => readAt ⟨extent, frames, .operator⟩ c = r.andThen (readAt ⟨extent, frames, .operator⟩)
  | name => ∀ name c', c.next? = some (.name name, c') →
      readAt ⟨extent, frames, .operand⟩ c = r.andThen (readAt ⟨extent, frames, .operator⟩)
  | arguments f => readAt ⟨extent, frames, if f.arity = 1 then .operand else .arguments f⟩ c =
      r.andThen (readAt ⟨extent, frames, .operator⟩)
  | group separators =>
      (readAt ⟨extent, .group separators :: frames, .operand⟩ c.advance).after
        ⟨c.advance, .openScope⟩ = r.andThen (readAt ⟨extent, frames, .operator⟩)
  | members separators => readAt ⟨extent, .group separators :: frames, .operand⟩ c =
      (r.andThen Cursor.closing).andThen (readAt ⟨extent, frames, .operator⟩)
  | chain => frames ≠ [] ∨ extent = .chain →
      readAt ⟨extent, frames, .operand⟩ c = r.andThen fun c' => closed extent c' frames
  | links => frames ≠ [] ∨ extent = .chain → c.EndsOperand →
      readAt ⟨extent, frames, .operator⟩ c = r.andThen fun c' => closed extent c' frames

variable {p : Passage} {c c' : Cursor} {r : Reading} {extent : Extent} {frames : List Frame}

/-- Where no operand can begin, a reader that waits for one is refused. -/
theorem retraced_unopened (ht : ∀ t c', c.next? = some (t, c') → t.opensOperand = false) :
    operand.Retraced extent frames c (.refused c c.unexpected) := by
  cases hnext : c.next? with
  | none =>
    have hcurrent := Cursor.next?_eq_none_iff.1 hnext
    rw [Retraced, readAt_of_none hnext, Cursor.unexpected, hcurrent]
    rfl
  | some next =>
    obtain ⟨t, c'⟩ := next
    obtain ⟨hchars, hend⟩ := Cursor.chars_of_not_opensOperand hnext (ht t c' hnext)
    refine readAt_of_refuse hnext ?_
    have hrefuse : turn ⟨extent, frames, .operand⟩ ⟨c, t, c'⟩ = refuseToken ⟨c, t, c'⟩ := by
      have hopens := ht t c' hnext
      cases t with
      | number lexeme => cases hopens
      | name name => cases hopens
      | foreign x => rfl
      | mark m => cases m <;> first | rfl | cases hopens
    rw [hrefuse, refuseToken, hchars, Cursor.unexpected, hend, if_neg Bool.false_ne_true]

/-- **A reader retraces the descent**, whatever its frames. -/
theorem Reads.retraced (h : p.Reads c r) (extent : Extent) (frames : List Frame) :
    p.Retraced extent frames c r := by
  induction h generalizing frames with
  | @number c c' lexeme n r ht hn _ ih =>
    have hturn : turn ⟨extent, frames, .operand⟩ ⟨c, .number lexeme, c'⟩ =
        ⟨[⟨c', .literal n.value⟩], .next ⟨extent, frames, .operator⟩⟩ := by
      simp only [turn, operandTurn, hn, await]
    rw [Retraced, readAt_of_next ht hturn, ih frames, Reading.after_andThen]
    rfl
  | @malformed c c' lexeme ht hn =>
    refine readAt_of_refuse ht ?_
    simp only [turn, operandTurn, hn]
  | named ht _ ih => exact ih frames _ _ ht
  | @minus c c' r ht _ ih =>
    have hturn : turn ⟨extent, frames, .operand⟩ ⟨c, .mark .minus, c'⟩ =
        ⟨[⟨c, .hold (.unary .negate)⟩], .next ⟨extent, frames, .operand⟩⟩ := rfl
    rw [Retraced, readAt_of_next ht hturn, ih frames, Reading.after_andThen]
    rfl
  | @comma c c' r ht _ ih =>
    have hturn : turn ⟨extent, frames, .operand⟩ ⟨c, .mark .comma, c'⟩ =
        ⟨[], .next ⟨extent, frames, .operand⟩⟩ := rfl
    rw [Retraced, readAt_of_next ht hturn]
    exact ih frames
  | @grouped c c' r next ht _ _ ih ih' =>
    obtain ⟨-, rfl, -⟩ := Cursor.mark?_of_next? ht
    have hturn : turn ⟨extent, frames, .operand⟩ ⟨c, .mark .leftParen, c.advance⟩ =
        ⟨[⟨c.advance, .openScope⟩], .next ⟨extent, .group 0 :: frames, .operand⟩⟩ := rfl
    rw [Retraced, readAt_of_next ht hturn, Reading.andThen_assoc]
    exact (ih frames).trans (Reading.andThen_congr fun c₁ hc₁ => ih' c₁ hc₁ frames)
  | unopened ht => exact retraced_unopened ht
  | @factorial c c' r ht _ ih =>
    have hturn : turn ⟨extent, frames, .operator⟩ ⟨c, .mark .bang, c'⟩ =
        ⟨[⟨c, .operator (.unary .factorial)⟩], .next ⟨extent, frames, .operator⟩⟩ := rfl
    rw [Retraced, readAt_of_next ht hturn, ih frames, Reading.after_andThen]
    rfl
  | ended _ => rfl
  | @factor c c' t r ht hs _ ih =>
    have hturn : turn ⟨extent, frames, .operator⟩ ⟨c, t, c'⟩ =
        (turn ⟨extent, frames, .operand⟩ ⟨c, t, c'⟩).after ⟨c, .operator (.binary .mul)⟩ :=
      operatorTurn_eq_impliedTurn hs
    rw [Retraced, readAt_of_after ht hturn, ih frames, Reading.after_andThen]
  | @call c c' cs f r hc hf _ ih =>
    intro name c₁ ht
    cases hc.symm.trans (Cursor.collect_of_name ht)
    rw [String.ofList_toList] at hf
    have hturn : turn ⟨extent, frames, .operand⟩ ⟨c, .name name, c'⟩ =
        ⟨[⟨c', .operator f.operator⟩],
          .next ⟨extent, frames, if f.arity = 1 then .operand else .arguments f⟩⟩ := by
      simp only [turn, operandTurn, hf, await]
    rw [readAt_of_next ht hturn, ih frames, Reading.after_andThen]
    rfl
  | @bound c c' cs r hc hf he _ ih =>
    intro name c₁ ht
    cases hc.symm.trans (Cursor.collect_of_name ht)
    rw [String.ofList_toList] at hf ⊢
    have hname : turn ⟨extent, frames, .operand⟩ ⟨c, .name name, c'⟩ =
        ⟨[], .next ⟨extent, frames, .binding name c.position⟩⟩ := by
      simp only [turn, operandTurn, hf, await]
    have hequals : turn ⟨extent, frames, .binding name c.position⟩
        ⟨c', .mark .equals, c'.advance⟩ =
          ⟨[⟨c'.advance, .openScope⟩], .next ⟨extent, .binding name :: frames, .operand⟩⟩ := rfl
    rw [readAt_of_next ht hname, readAt_of_next (Cursor.next?_of_mark? he (by decide)) hequals,
      ih (.binding name :: frames) (.inl (List.cons_ne_nil _ _)), Reading.andThen_assoc,
      Reading.after_andThen]
    rfl
  | @read c c' cs r hc hf he _ ih =>
    intro name c₁ ht
    cases hc.symm.trans (Cursor.collect_of_name ht)
    rw [String.ofList_toList] at hf ⊢
    have hname : turn ⟨extent, frames, .operand⟩ ⟨c, .name name, c'⟩ =
        ⟨[], .next ⟨extent, frames, .binding name c.position⟩⟩ := by
      simp only [turn, operandTurn, hf, await]
    have hread : readAt ⟨extent, frames, .binding name c.position⟩ c' =
        (readAt ⟨extent, frames, .operator⟩ c').after ⟨c', .read name c.position⟩ := by
      cases ht' : c'.next? with
      | none =>
        rw [readAt_of_none ht', readAt_of_none ht']
        rfl
      | some next =>
        obtain ⟨t, c₂⟩ := next
        refine readAt_of_after ht' (turn_of_binding rfl fun hl => he ?_)
        have hl : t = .mark .equals := hl
        subst hl
        exact (Cursor.mark?_of_next? ht').1
    rw [readAt_of_next ht hname, hread, ih frames, Reading.after_andThen]
    rfl
  | single ha _ ih =>
    rw [Retraced, if_pos ha]
    exact ih frames
  | @several c f r next ha hp _ _ ih ih' =>
    have hturn : turn ⟨extent, frames, .arguments f⟩ ⟨c, .mark .leftParen, c.advance⟩ =
        ⟨[⟨c.advance, .openScope⟩],
          .next ⟨extent, .group (f.arity - 1) :: frames, .operand⟩⟩ := by
      simp only [turn, argumentsTurn, if_true, enter]
    rw [Retraced, if_neg ha, readAt_of_next (Cursor.next?_of_mark? hp (by decide)) hturn,
      Reading.andThen_assoc]
    exact (ih frames).trans (Reading.andThen_congr fun c₁ hc₁ => ih' c₁ hc₁ frames)
  | @bare c f ha hp =>
    rw [Retraced, if_neg ha]
    cases ht : c.next? with
    | none => exact readAt_of_none ht
    | some next =>
      obtain ⟨t, c'⟩ := next
      refine readAt_of_refuse ht ?_
      have hne : t ≠ .mark .leftParen := by
        intro he
        subst he
        exact hp (Cursor.mark?_of_next? ht).1
      simp only [turn, argumentsTurn, if_neg hne]
  | group _ ih =>
    rw [Retraced, ih frames, ← Reading.after_andThen, ← Reading.after_andThen]
  | last _ ih =>
    rw [Retraced, ih (.group 0 :: frames) (.inl (List.cons_ne_nil _ _)), Reading.andThen_assoc]
    rfl
  | @further c separators r next _ _ ih ih' =>
    have hnext : ∀ c₁, (r.andThen (Cursor.expecting .comma .separator)).stop = .ok c₁ →
        readAt ⟨extent, .group separators :: frames, .operand⟩ c₁ =
          ((next c₁).andThen Cursor.closing).andThen (readAt ⟨extent, frames, .operator⟩) :=
      fun c₁ hc₁ => ih' c₁ hc₁ frames
    calc readAt ⟨extent, .group (separators + 1) :: frames, .operand⟩ c
        = r.andThen fun c' => closed extent c' (.group (separators + 1) :: frames) :=
          ih (.group (separators + 1) :: frames) (.inl (List.cons_ne_nil _ _))
      _ = (r.andThen (Cursor.expecting .comma .separator)).andThen
            (readAt ⟨extent, .group separators :: frames, .operand⟩) :=
          (Reading.andThen_assoc _ _ _).symm
      _ = (r.andThen (Cursor.expecting .comma .separator)).andThen fun c₁ =>
            ((next c₁).andThen Cursor.closing).andThen (readAt ⟨extent, frames, .operator⟩) :=
          Reading.andThen_congr hnext
      _ = _ := by rw [Reading.andThen_assoc _ next, Reading.andThen_assoc _ _ (readAt _)]
  | @chain c r next h _ ih ih' =>
    intro he
    rw [ih frames, Reading.andThen_assoc]
    exact Reading.andThen_congr fun c₁ hc₁ =>
      ih' c₁ hc₁ frames he (h.ends Passage.noConfusion hc₁)
  | @link c m op r next hc hm h _ ih ih' =>
    intro he _
    have hne : ¬ (extent = .operand ∧ frames = []) := by
      rintro ⟨rfl, rfl⟩
      exact he.elim (fun h => h rfl) Extent.noConfusion
    have hturn : turn ⟨extent, frames, .operator⟩ ⟨c, .mark m, c.advance⟩ =
        ⟨[⟨c, .operator (.binary op)⟩], .next ⟨extent, frames, .operand⟩⟩ := by
      have hafter : m.after? = none := by
        cases m <;> first | rfl | cases hm
      simp only [turn, operatorTurn, hafter, hm, if_neg hne, await]
    have hterminator : m ≠ .semicolon := by
      intro hm'
      subst hm'
      cases hm
    rw [readAt_of_next (Cursor.next?_of_mark? hc hterminator) hturn, ih frames,
      Reading.after_andThen, Reading.andThen_assoc]
    exact congrArg (Reading.after _) (Reading.andThen_congr fun c₁ hc₁ =>
      ih' c₁ hc₁ frames he (h.ends Passage.noConfusion hc₁))
  | settled hc =>
    intro he hend
    obtain ⟨m, hm, hends⟩ := hend
    rw [readAt_of_endsChain ⟨m, hm, Mark.endsChain_of_endsOperand hends (hc m hm)⟩ he]
    rfl

/-! ## 4. Operands and chains -/

theorem Reads.eq_readOperand (h : Passage.operand.Reads c r) : r = c.readOperand :=
  calc r = r.andThen .stay := (Reading.andThen_stay r).symm
    _ = r.andThen (readAt ⟨.operand, [], .operator⟩) := Reading.andThen_congr fun _ hc' =>
        (readAt_of_endsOperand (h.ends Passage.noConfusion hc')).symm
    _ = c.readOperand := (h.retraced .operand []).symm

theorem Reads.eq_readChain (h : Passage.chain.Reads c r) : r = c.readChain :=
  calc r = r.andThen .stay := (Reading.andThen_stay r).symm
    _ = c.readChain := (h.retraced .chain [] (.inr rfl)).symm

/-- **An operand is what the descent reads.** -/
theorem operand_reads_iff : operand.Reads c r ↔ r = c.readOperand := by
  refine ⟨Reads.eq_readOperand, fun he => ?_⟩
  obtain ⟨r', hr'⟩ := exists_reads operand c
  rwa [he, ← hr'.eq_readOperand]

/-- **So is a chain.** -/
theorem chain_reads_iff : chain.Reads c r ↔ r = c.readChain := by
  refine ⟨Reads.eq_readChain, fun he => ?_⟩
  obtain ⟨r', hr'⟩ := exists_reads chain c
  rwa [he, ← hr'.eq_readChain]

end Passage

/-! ## 5. Evaluations -/

namespace Evaluation

variable {e e' : Evaluation} {r : Reading}

/-- Code that fails leaves the cursor at the instruction that failed. -/
theorem cursor_of_run_failed {code : Code} {err : EvalError} (h : e.run code = .failed err e') :
    e'.cursor ∈ code.map Issued.cursor := by
  induction code generalizing e with
  | nil => cases h
  | cons i code ih =>
    rw [run, perform, lift] at h
    cases hstep : e.machine.step e.settings i.cursor.position i.instruction with
    | failed err₁ m =>
      rw [hstep] at h
      cases h
      exact List.mem_cons_self
    | ok m =>
      rw [hstep] at h
      exact List.mem_cons_of_mem _ (ih h)

/-- **An evaluation that follows a reading leaves the cursor at one of the reading.** -/
theorem cursor_follow_mem (r : Reading) (e : Evaluation) :
    (e.follow r).state.cursor ∈ r.cursors := by
  rw [follow]
  cases hrun : e.run r.code with
  | failed err e₁ => exact List.mem_append_left _ (cursor_of_run_failed hrun)
  | ok e₁ =>
    refine List.mem_append_right _ (List.mem_singleton.2 ?_)
    rw [Reading.last, Outcome.ok_andThen]
    cases r.stop <;> rfl

/-- An evaluation that goes on ran all the code and stands where the reading stopped. -/
theorem exists_run_of_follow_ok (h : e.follow r = .ok e') :
    ∃ e₁, e.run r.code = .ok e₁ ∧ r.stop = .ok e'.cursor ∧
      e' = { e₁ with cursor := e'.cursor } := by
  rw [follow] at h
  cases hrun : e.run r.code with
  | failed err e₁ =>
    rw [hrun] at h
    cases h
  | ok e₁ =>
    rw [hrun, Outcome.ok_andThen] at h
    cases hstop : r.stop with
    | error refusal =>
      rw [hstop] at h
      cases h
    | ok c =>
      rw [hstop] at h
      cases h
      exact ⟨e₁, rfl, rfl, rfl⟩

/-- Where an evaluation stood before does not matter to a reading that it follows. -/
theorem follow_withCursor (r : Reading) (e : Evaluation) (c : Cursor) :
    follow r { e with cursor := c } = e.follow r := by
  obtain ⟨code, stop⟩ := r
  cases code with
  | nil => cases stop <;> rfl
  | cons i code => rfl

/-- **Readings in a row are followed one after the other.** -/
theorem follow_andThen (r : Reading) (next : Cursor → Reading) (e : Evaluation) :
    e.follow (r.andThen next) = (e.follow r).andThen fun e' => e'.follow (next e'.cursor) := by
  cases hstop : r.stop with
  | error refusal =>
    rw [Reading.andThen_of_error hstop, follow, Outcome.andThen_assoc, hstop]
    cases e.run r.code <;> rfl
  | ok c =>
    rw [Reading.andThen_of_ok hstop, follow, follow, run_append, hstop, Outcome.andThen_assoc,
      Outcome.andThen_assoc]
    cases e.run r.code with
    | failed err e₁ => rfl
    | ok e₁ => exact (follow_withCursor (next c) e₁ c).symm

end Evaluation

namespace Cursor

variable {c c' : Cursor}

/-- What is left behind a passage that is not empty starts further on. -/
theorem ReachedFrom.position_lt (h : c'.ReachedFrom c) (hlt : c'.rest.length < c.rest.length) :
    c.position < c'.position := by
  have hsum := h.position_add
  omega

theorem current_of_mark? {m : Mark} (h : c.mark? = some m) : c.current = m.char :=
  (Mark.ofChar?_eq_some_iff.1 h).symm

theorem EndsChain.current_mem (h : c.EndsChain) : c.current ∈ [')', ',', ';', '=', ' '] := by
  obtain ⟨m, hm, he⟩ := h
  exact current_of_mark? hm ▸ Mark.endsChain_iff.1 he

theorem EndsOperand.current_mem (h : c.EndsOperand) :
    c.current ∈ ['+', '-', '*', '/', '^', '%'] ∨ c.current ∈ [')', ',', ';', '=', ' '] := by
  obtain ⟨m, hm, he⟩ := h
  rw [current_of_mark? hm]
  exact (Mark.endsOperand_iff.1 he).imp Mark.isSome_between?_iff.1 Mark.endsChain_iff.1

end Cursor

/-- **An evaluation goes ahead and stops at a boundary.** Wherever it stands, each passage has one
    reading, which a reader with any frames retraces, and its operand and its chain are the readings
    of theirs. While it goes over a passage, the cursor never goes back, nor past the first
    terminator. An operand or a chain that is read with success moves it on; behind an operand there
    is an operator between two operands or the end of a chain, and behind a chain its end. -/
theorem advances_to_boundary (e : Evaluation) :
    (∀ p : Passage, ∃! r, p.Reads e.cursor r) ∧
    Passage.operand.Reads e.cursor e.cursor.readOperand ∧
    Passage.chain.Reads e.cursor e.cursor.readChain ∧
    (∀ p r, Passage.Reads p e.cursor r →
      (∀ extent frames, p.Retraced extent frames e.cursor r) ∧
      r.GoesAhead e.cursor ∧ (e.follow r).state.cursor ∈ r.cursors ∧
      ∀ c ∈ r.cursors, e.cursor.position ≤ c.position ∧
        c.position ≤ e.cursor.position + (e.cursor.rest ++ [terminator]).idxOf terminator) ∧
    (∀ e', e.operand = .ok e' → e.cursor.position < e'.cursor.position ∧
      (e'.cursor.current ∈ ['+', '-', '*', '/', '^', '%'] ∨
        e'.cursor.current ∈ [')', ',', ';', '=', ' '])) ∧
    ∀ e', e.chain = .ok e' → e.cursor.position < e'.cursor.position ∧
      e'.cursor.current ∈ [')', ',', ';', '=', ' '] := by
  have hoperand : Passage.operand.Reads e.cursor e.cursor.readOperand :=
    Passage.operand_reads_iff.2 rfl
  have hchain : Passage.chain.Reads e.cursor e.cursor.readChain := Passage.chain_reads_iff.2 rfl
  refine ⟨fun p => ?_, hoperand, hchain, fun p r h => ?_, fun e' he => ?_, fun e' he => ?_⟩
  · obtain ⟨r, hr⟩ := Passage.exists_reads p e.cursor
    exact ⟨r, hr, fun r' hr' => hr'.unique hr⟩
  · refine ⟨h.retraced, h.goesAhead, e.cursor_follow_mem r, fun c hc => ?_⟩
    have hreached := h.goesAhead.reached c hc
    exact ⟨hreached.position_le, hreached.position_le_idxOf⟩
  · obtain ⟨-, -, hstop, -⟩ := Evaluation.exists_run_of_follow_ok he
    exact ⟨(hoperand.stop_reached hstop).position_lt (hoperand.operand_lt hstop),
      Cursor.EndsOperand.current_mem (hoperand.ends Passage.noConfusion hstop)⟩
  · obtain ⟨-, -, hstop, -⟩ := Evaluation.exists_run_of_follow_ok he
    exact ⟨(hchain.stop_reached hstop).position_lt (hchain.chain_lt hstop),
      Cursor.EndsChain.current_mem (hchain.ends Passage.noConfusion hstop)⟩

/-- Further factors without a sign, and a terminator inside the text. -/
theorem advances_to_boundary_factors :
    let e : Evaluation := ⟨{}, ⟨0, "2sqrt4!(pi)+1;9".toList⟩, .initial .seeded⟩
    (∃ e', e.operand = .ok e' ∧ 0 < e'.cursor.position ∧
      (e'.cursor.current ∈ ['+', '-', '*', '/', '^', '%'] ∨
        e'.cursor.current ∈ [')', ',', ';', '=', ' '])) ∧
    (∃ e', e.chain = .ok e' ∧ 0 < e'.cursor.position ∧
      e'.cursor.current ∈ [')', ',', ';', '=', ' ']) ∧
    ∀ c ∈ e.cursor.readChain.cursors, 0 ≤ c.position ∧ c.position ≤ 13 := by
  intro e
  obtain ⟨-, -, hchain, hbounds, hoperand, hends⟩ := advances_to_boundary e
  have hsucceeds : e.operand.error?.isNone = true ∧ e.chain.error?.isNone = true := by
    decide +kernel
  refine ⟨?_, ?_, ?_⟩
  · obtain ⟨e', he⟩ := Outcome.exists_ok_of_error? hsucceeds.1
    exact ⟨e', he, hoperand e' he⟩
  · obtain ⟨e', he⟩ := Outcome.exists_ok_of_error? hsucceeds.2
    exact ⟨e', he, hends e' he⟩
  · exact (hbounds .chain _ hchain).2.2.2

end DeskCalculator
