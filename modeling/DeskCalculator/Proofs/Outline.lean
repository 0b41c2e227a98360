import DeskCalculator.Proofs.Acceptance
import DeskCalculator.Proofs.Naming

/-!
# Readings without places

What is read depends on the tokens; where they stand shows in places only. What opens a group goes
on inside it as it would on its own. This file fixes

* `Reader.Alike`, `Turn.Alike`, `Reading.Alike` -- readers, turns and readings that differ in places
  only;
* `Token.loose`, `Reader.scan` -- a token at no place in particular, and the reading of such tokens;
* `Reader.within` -- a reader with further frames around its own;
* `Reader.LeadsTo`, `Reader.StopsIn` -- what the first tokens of a text come to, whatever follows;
* `Reader.afterParen` -- what a closing parenthesis comes to.

Main statements: **a chain is read like its loose tokens** (`alike_readChain`), and **what is a chain
of its own is one in parentheses as well** (`scan_within`).
-/

namespace DeskCalculator

/-! ## 1. Readers and turns that are alike -/

/-- What is waited for, without the place of a name. -/
def Awaiting.unplaced : Awaiting → Awaiting
  | binding name _ => binding name 0
  | a => a

/-- Two readers differ in the place of a name only. -/
structure Reader.Alike (r r' : Reader) : Prop where
  extent : r.extent = r'.extent
  frames : r.frames = r'.frames
  awaiting : r.awaiting.unplaced = r'.awaiting.unplaced

theorem Reader.Alike.refl (r : Reader) : r.Alike r := ⟨rfl, rfl, rfl⟩

/-- Two moves go on alike, stop both, or refuse for one cause. -/
inductive Move.Alike : Move → Move → Prop where
  | next {r r' : Reader} (h : r.Alike r') : Alike (.next r) (.next r')
  | rest : Alike .rest .rest
  | refuse {refusal refusal' : Refusal} (h : refusal.error.cause = refusal'.error.cause) :
      Alike (.refuse refusal) (.refuse refusal')

/-- Two turns have code of one outline and moves that are alike. -/
structure Turn.Alike (t t' : Turn) : Prop where
  code : t.code.outline = t'.code.outline
  move : t.move.Alike t'.move

theorem Turn.Alike.after {t t' : Turn} (h : t.Alike t') {i i' : Issued}
    (hi : i.instruction.unplaced = i'.instruction.unplaced) : (t.after i).Alike (t'.after i') :=
  ⟨congrArg₂ List.cons hi h.code, h.move⟩

namespace Reader

variable {r r' : Reader} {l l' : Lexeme}

/-- Where an operand has to come, a reader does not look at what it waits for. -/
theorem alike_operandTurn (he : r.extent = r'.extent) (hf : r.frames = r'.frames)
    (hl : l.token = l'.token) : (r.operandTurn l).Alike (r'.operandTurn l') := by
  obtain ⟨extent, frames, awaiting⟩ := r
  obtain ⟨extent', frames', awaiting'⟩ := r'
  obtain ⟨start, token, stop⟩ := l
  obtain ⟨start', token', stop'⟩ := l'
  cases he
  cases hf
  cases hl
  have hnext : ∀ (awaiting : Awaiting), Move.Alike (.next ⟨extent, frames, awaiting⟩)
      (.next ⟨extent, frames, awaiting⟩) := fun awaiting => .next (.refl _)
  have hrefuse : (refuseToken ⟨start, token, stop⟩).Alike (refuseToken ⟨start', token, stop'⟩) :=
    ⟨rfl, .refuse rfl⟩
  cases token with
  | number lexeme =>
    simp only [operandTurn]
    cases Number.Numeral.ofText? lexeme.toList with
    | some n => exact ⟨rfl, hnext _⟩
    | none => exact ⟨rfl, .refuse rfl⟩
  | name name =>
    simp only [operandTurn]
    cases Function.ofName? name with
    | some f => exact ⟨rfl, hnext _⟩
    | none => exact ⟨rfl, .next ⟨rfl, rfl, rfl⟩⟩
  | foreign x => exact hrefuse
  | mark m =>
    cases m with
    | minus | comma => exact ⟨rfl, hnext _⟩
    | leftParen => exact ⟨rfl, .next (.refl _)⟩
    | plus | star | slash | caret | percent | bang | rightParen | semicolon | equals | blank =>
      exact hrefuse

/-- The end of a chain issues the same code everywhere, and finds the same group. -/
theorem alike_closeChain (extent : Extent) (c c' : Cursor) (frames : List Frame) :
    (closeChain extent c frames).1.outline = (closeChain extent c' frames).1.outline ∧
      (closeChain extent c frames).2 = (closeChain extent c' frames).2 := by
  induction frames with
  | nil =>
    unfold closeChain
    split <;> exact ⟨rfl, rfl⟩
  | cons frame frames ih =>
    cases frame with
    | group separators => exact ⟨rfl, rfl⟩
    | binding name =>
      refine ⟨?_, ih.2⟩
      simp only [closeChain, outline_cons]
      rw [ih.1]

theorem alike_closingTurn (m : Mark) (he : r.extent = r'.extent) (hf : r.frames = r'.frames) :
    (r.closingTurn l m).Alike (r'.closingTurn l' m) := by
  obtain ⟨hcode, hgroup⟩ := alike_closeChain r.extent l.start l'.start r.frames
  unfold closingTurn
  rw [← he, ← hf]
  generalize closeChain r.extent l.start r.frames = closed,
    closeChain r.extent l'.start r.frames = closed' at hcode hgroup
  obtain ⟨code, group⟩ := closed
  obtain ⟨code', group'⟩ := closed'
  cases hgroup
  match group with
  | none => exact ⟨hcode, .rest⟩
  | some (0, frames) =>
    simp only
    split
    · refine ⟨?_, .next (.refl _)⟩
      rw [outline_append, outline_append, hcode]
      rfl
    · exact ⟨hcode, .refuse rfl⟩
  | some (separators + 1, frames) =>
    simp only
    split
    · exact ⟨hcode, .next (.refl _)⟩
    · exact ⟨hcode, .refuse rfl⟩

theorem alike_operatorTurn (he : r.extent = r'.extent) (hf : r.frames = r'.frames)
    (hl : l.token = l'.token) : (r.operatorTurn l).Alike (r'.operatorTurn l') := by
  have himplied : (r.impliedTurn l).Alike (r'.impliedTurn l') :=
    (alike_operandTurn he hf hl).after rfl
  unfold operatorTurn
  rw [← hl, ← he, ← hf]
  split
  · next m _ =>
    split
    · exact ⟨rfl, .next ⟨he, hf, rfl⟩⟩
    · split
      · exact ⟨rfl, .rest⟩
      · exact ⟨rfl, .next ⟨he, hf, rfl⟩⟩
    · split
      · exact himplied
      · exact alike_closingTurn m he hf
  · exact himplied

/-- **Turns of one token are alike.** -/
theorem alike_turn (h : r.Alike r') (hl : l.token = l'.token) : (r.turn l).Alike (r'.turn l') := by
  have ha := h.awaiting
  unfold turn
  cases hr : r.awaiting with
  | operand =>
    cases hr' : r'.awaiting <;> rw [hr, hr'] at ha <;> cases ha
    exact alike_operandTurn h.extent h.frames hl
  | operator =>
    cases hr' : r'.awaiting <;> rw [hr, hr'] at ha <;> cases ha
    exact alike_operatorTurn h.extent h.frames hl
  | arguments f =>
    cases hr' : r'.awaiting <;> rw [hr, hr'] at ha <;> cases ha
    simp only [argumentsTurn, ← hl]
    split
    · refine ⟨rfl, .next ⟨h.extent, ?_, rfl⟩⟩
      simp only [enter, h.frames]
    · exact ⟨rfl, .refuse rfl⟩
  | binding name start =>
    cases hr' : r'.awaiting <;> rw [hr, hr'] at ha <;> cases ha
    simp only [bindingTurn, ← hl]
    split
    · refine ⟨rfl, .next ⟨h.extent, ?_, rfl⟩⟩
      simp only [enter, h.frames]
    · exact (alike_operatorTurn h.extent h.frames hl).after rfl

end Reader

/-! ## 2. Readings that are alike -/

namespace Reader

variable {r r' : Reader} {l : Lexeme}

theorem read_cons_of_next {code : Code} (h : r.turn l = ⟨code, .next r'⟩) (halt : Cursor)
    (ls : List Lexeme) :
    read halt r (l :: ls) = ⟨code ++ (read halt r' ls).code, (read halt r' ls).stop⟩ := by
  rw [read, h]

theorem read_cons_of_after {issued : Issued} (h : r.turn l = (r'.turn l).after issued)
    (halt : Cursor) (ls : List Lexeme) : read halt r (l :: ls) =
      ⟨issued :: (read halt r' (l :: ls)).code, (read halt r' (l :: ls)).stop⟩ := by
  rw [read, read, h]
  generalize r'.turn l = turn
  obtain ⟨code, move⟩ := turn
  cases move <;> rfl

end Reader

/-- Two readings have code of one outline and end alike. -/
structure Reading.Alike (r r' : Reading) : Prop where
  code : r.code.outline = r'.code.outline
  fate : r.fate = r'.fate

theorem Reading.Alike.symm {r r' : Reading} (h : r.Alike r') : r'.Alike r :=
  ⟨h.code.symm, h.fate.symm⟩

theorem Reading.Alike.trans {r r' r'' : Reading} (h : r.Alike r') (h' : r'.Alike r'') :
    r.Alike r'' := ⟨h.code.trans h'.code, h.fate.trans h'.fate⟩

namespace Reader

variable {r r' : Reader} {halt halt' : Cursor}

theorem alike_finishChain (he : r.extent = r'.extent) (hf : r.frames = r'.frames)
    (hend : halt.atEnd = halt'.atEnd) : (r.finishChain halt).Alike (r'.finishChain halt') := by
  obtain ⟨hcode, hgroup⟩ := alike_closeChain r.extent halt halt' r.frames
  unfold finishChain
  rw [← he, ← hf]
  generalize closeChain r.extent halt r.frames = closed,
    closeChain r.extent halt' r.frames = closed' at hcode hgroup
  obtain ⟨code, group⟩ := closed
  obtain ⟨code', group'⟩ := closed'
  cases hgroup
  cases group with
  | none => exact ⟨hcode, congrArg Except.ok hend⟩
  | some group => exact ⟨hcode, rfl⟩

theorem alike_finish (h : r.Alike r') (hend : halt.atEnd = halt'.atEnd) :
    (r.finish halt).Alike (r'.finish halt') := by
  have ha := h.awaiting
  have hchain := alike_finishChain h.extent h.frames hend
  unfold finish
  cases hr : r.awaiting <;> cases hr' : r'.awaiting <;> rw [hr, hr'] at ha <;> cases ha
  case operand =>
    refine ⟨rfl, ?_⟩
    simp only [Reading.fate, missingOperand, hend]
  case arguments => exact ⟨rfl, rfl⟩
  case operator => exact hchain
  case binding => exact ⟨congrArg₂ List.cons rfl hchain.code, hchain.fate⟩

/-- **Readings of the same tokens are alike**, wherever they stand. -/
theorem alike_read (h : r.Alike r') (hend : halt.atEnd = halt'.atEnd) {ls ls' : List Lexeme}
    (htokens : ls.map Lexeme.token = ls'.map Lexeme.token) (hls : ∀ l ∈ ls, l.start.atEnd = false)
    (hls' : ∀ l ∈ ls', l.start.atEnd = false) : (read halt r ls).Alike (read halt' r' ls') := by
  induction ls generalizing r r' ls' with
  | nil =>
    rw [List.map_eq_nil_iff.1 htokens.symm]
    exact alike_finish h hend
  | cons l ls ih =>
    cases ls' with
    | nil => cases htokens
    | cons l' ls' =>
      obtain ⟨hl, hrest⟩ := List.cons.inj htokens
      obtain ⟨hcode, hmove⟩ := alike_turn h hl
      obtain ⟨hstart, hls⟩ := List.forall_mem_cons.1 hls
      obtain ⟨hstart', hls'⟩ := List.forall_mem_cons.1 hls'
      rw [read, read]
      generalize r.turn l = t, r'.turn l' = t' at hcode hmove
      obtain ⟨code, move⟩ := t
      obtain ⟨code', move'⟩ := t'
      cases hmove with
      | next h =>
        obtain ⟨hcode', hfate⟩ := ih h hrest hls hls'
        refine ⟨?_, hfate⟩
        simp only [outline_append]
        exact congrArg₂ (· ++ ·) hcode hcode'
      | rest => exact ⟨hcode, congrArg Except.ok (hstart.trans hstart'.symm)⟩
      | refuse hcause => exact ⟨hcode, congrArg Except.error hcause⟩

end Reader

/-! ## 3. Tokens at no place in particular -/

/-- No place in particular, before the end of a text. -/
def nowhere : Cursor := ⟨0, [' ']⟩

/-- The token at no place in particular. -/
def Token.loose (t : Token) : Lexeme := ⟨nowhere, t, nowhere⟩

theorem map_token_loose (ts : List Token) : (ts.map Token.loose).map Lexeme.token = ts := by
  rw [List.map_map]
  exact List.map_id ts

namespace Reader

/-- The reading of loose tokens up to the end of a text. -/
def scan (r : Reader) (ts : List Token) : Reading := r.read ⟨0, []⟩ (ts.map Token.loose)

theorem scan_cons_of_next {r r' : Reader} {t : Token} {code : Code}
    (h : r.turn t.loose = ⟨code, .next r'⟩) (ts : List Token) :
    r.scan (t :: ts) = ⟨code ++ (r'.scan ts).code, (r'.scan ts).stop⟩ :=
  read_cons_of_next h _ _

theorem scan_cons_of_after {r r' : Reader} {t : Token} {issued : Issued}
    (h : r.turn t.loose = (r'.turn t.loose).after issued) (ts : List Token) :
    r.scan (t :: ts) = ⟨issued :: (r'.scan (t :: ts)).code, (r'.scan (t :: ts)).stop⟩ :=
  read_cons_of_after h _ _

end Reader

/-- **A chain is read like its loose tokens** that end likewise. -/
theorem alike_read_loose {c halt : Cursor} (hend : c.halt.atEnd = halt.atEnd) :
    c.readChain.Alike
      (Reader.read halt ⟨.chain, [], .operand⟩ (c.tokens.map Token.loose)) := by
  refine Reader.alike_read (.refl _) hend ?_ (fun l hl => (c.proper_of_mem_lexemes l hl).atEnd) ?_
  · rw [map_token_loose]
    rfl
  · intro l hl
    obtain ⟨t, -, rfl⟩ := List.mem_map.1 hl
    rfl

/-- So it is at the end of the text, if no terminator stands inside. -/
theorem alike_readChain {c : Cursor} (hend : c.halt.atEnd = true) :
    c.readChain.Alike (Reader.scan ⟨.chain, [], .operand⟩ c.tokens) := alike_read_loose hend

/-! ## 4. Further frames around those of a reader -/

namespace Reader

/-- The reader with further frames around its own. -/
def within (frames : List Frame) (r : Reader) : Reader := { r with frames := r.frames ++ frames }

/-- If the first turn leads on, it does not change how much is to be read, and the second one leads
    on likewise, within further frames. -/
def GoesWithin (frames : List Frame) (r : Reader) (t t' : Turn) : Prop :=
  ∀ r', t.move = .next r' → r'.extent = r.extent ∧ t' = ⟨t.code, .next (r'.within frames)⟩

variable {r r' : Reader} {frames : List Frame} {l : Lexeme}

theorem GoesWithin.after {t t' : Turn} (h : GoesWithin frames r t t') (issued : Issued) :
    GoesWithin frames r (t.after issued) (t'.after issued) := by
  intro r' hnext
  obtain ⟨hextent, ht⟩ := h r' hnext
  exact ⟨hextent, congrArg (Turn.after issued) ht⟩

theorem goesWithin_operandTurn (r : Reader) (l : Lexeme) (frames : List Frame) :
    GoesWithin frames r (r.operandTurn l) ((r.within frames).operandTurn l) := by
  intro r' hnext
  unfold operandTurn at hnext ⊢
  split at hnext
  · split at hnext
    · cases hnext
      exact ⟨rfl, rfl⟩
    · cases hnext
  · split at hnext <;> cases hnext <;> exact ⟨rfl, rfl⟩
  · cases hnext
    exact ⟨rfl, rfl⟩
  · cases hnext
    exact ⟨rfl, rfl⟩
  · cases hnext
    exact ⟨rfl, rfl⟩
  · cases hnext
  · cases hnext

/-- A chain that ends in a group ends in the same group within further frames. -/
theorem closeChain_append {extent : Extent} {c : Cursor} {own rest : List Frame} {code : Code}
    {n : Nat} (h : closeChain extent c own = (code, some (n, rest))) (frames : List Frame) :
    closeChain extent c (own ++ frames) = (code, some (n, rest ++ frames)) := by
  induction own generalizing code with
  | nil => cases h
  | cons frame own ih =>
    cases frame with
    | group separators =>
      cases h
      rfl
    | binding name =>
      rw [closeChain] at h
      obtain ⟨hcode, hgroup⟩ := Prod.mk.inj h
      rw [List.cons_append, closeChain, ih (Prod.ext rfl hgroup)]
      exact Prod.ext hcode rfl

theorem goesWithin_closingTurn (r : Reader) (l : Lexeme) (m : Mark) (frames : List Frame) :
    GoesWithin frames r (r.closingTurn l m) ((r.within frames).closingTurn l m) := by
  have hwithin := fun code n rest => @closeChain_append r.extent l.start r.frames rest code n
  unfold closingTurn within
  simp only
  generalize closeChain r.extent l.start r.frames = closed at hwithin
  obtain ⟨code, group⟩ := closed
  match group with
  | none =>
    intro r' hnext
    cases hnext
  | some (0, rest) =>
    rw [hwithin code 0 rest rfl frames]
    simp only
    by_cases hm : m = .rightParen
    · rw [if_pos hm, if_pos hm]
      intro r' hnext
      cases hnext
      exact ⟨rfl, rfl⟩
    · rw [if_neg hm, if_neg hm]
      intro r' hnext
      cases hnext
  | some (n + 1, rest) =>
    rw [hwithin code (n + 1) rest rfl frames]
    simp only
    by_cases hm : m = .comma
    · rw [if_pos hm, if_pos hm]
      intro r' hnext
      cases hnext
      exact ⟨rfl, rfl⟩
    · rw [if_neg hm, if_neg hm]
      intro r' hnext
      cases hnext

theorem goesWithin_operatorTurn (r : Reader) (l : Lexeme) (frames : List Frame) :
    GoesWithin frames r (r.operatorTurn l) ((r.within frames).operatorTurn l) := by
  have himplied : GoesWithin frames r (r.impliedTurn l) ((r.within frames).impliedTurn l) :=
    (goesWithin_operandTurn r l frames).after _
  unfold operatorTurn
  cases l.token with
  | number lexeme => exact himplied
  | name name => exact himplied
  | foreign x => exact himplied
  | mark m =>
    simp only
    cases m.after? with
    | some op =>
      intro r' hnext
      cases hnext
      exact ⟨rfl, rfl⟩
    | none =>
      cases m.between? with
      | some op =>
        simp only
        by_cases hend : r.extent = .operand ∧ r.frames = []
        · rw [if_pos hend]
          intro r' hnext
          cases hnext
        · -- an operator that does not end the chain alone does not end it within further frames
          have hend' : ¬ ((r.within frames).extent = .operand ∧ (r.within frames).frames = []) :=
            fun h => hend ⟨h.1, (List.append_eq_nil_iff.1 h.2).1⟩
          rw [if_neg hend, if_neg hend']
          intro r' hnext
          cases hnext
          exact ⟨rfl, rfl⟩
      | none =>
        simp only
        by_cases hm : m = .leftParen
        · rw [if_pos hm, if_pos hm]
          exact himplied
        · rw [if_neg hm, if_neg hm]
          exact goesWithin_closingTurn r l m frames

/-- **A turn that leads on leads on within further frames.** -/
theorem goesWithin_turn (r : Reader) (l : Lexeme) (frames : List Frame) :
    GoesWithin frames r (r.turn l) ((r.within frames).turn l) := by
  obtain ⟨extent, own, awaiting⟩ := r
  cases awaiting with
  | operand => exact goesWithin_operandTurn _ l frames
  | operator => exact goesWithin_operatorTurn _ l frames
  | arguments f =>
    simp only [turn, argumentsTurn, within]
    by_cases hl : l.token = .mark .leftParen
    · rw [if_pos hl, if_pos hl]
      intro r' hnext
      cases hnext
      exact ⟨rfl, rfl⟩
    · rw [if_neg hl]
      intro r' hnext
      cases hnext
  | binding name start =>
    simp only [turn, bindingTurn, within]
    by_cases hl : l.token = .mark .equals
    · rw [if_pos hl, if_pos hl]
      intro r' hnext
      cases hnext
      exact ⟨rfl, rfl⟩
    · rw [if_neg hl, if_neg hl]
      exact (goesWithin_operatorTurn ⟨extent, own, .binding name start⟩ l frames).after _

end Reader

/-! ## 5. The first tokens of a text -/

namespace Reader

variable {r r' r'' : Reader} {ts us : List Token} {code code' : Code} {reading : Reading}

/-- The tokens lead to another state, whatever follows. -/
def LeadsTo (r : Reader) (ts : List Token) (code : Code) (r' : Reader) : Prop :=
  ∀ us, r.scan (ts ++ us) = ⟨code ++ (r'.scan us).code, (r'.scan us).stop⟩

/-- Reading stops at one of the tokens, whatever follows. -/
def StopsIn (r : Reader) (ts : List Token) (reading : Reading) : Prop :=
  ∀ us, r.scan (ts ++ us) = reading

theorem LeadsTo.trans (h : r.LeadsTo ts code r') (h' : r'.LeadsTo us code' r'') :
    r.LeadsTo (ts ++ us) (code ++ code') r'' := by
  intro vs
  rw [List.append_assoc, h, h', List.append_assoc]

theorem LeadsTo.stopsIn (h : r.LeadsTo ts code r') (h' : r'.StopsIn us reading) :
    r.StopsIn (ts ++ us) ⟨code ++ reading.code, reading.stop⟩ := by
  intro vs
  rw [List.append_assoc, h, h']

theorem leadsTo_of_turn {t : Token} (h : r.turn t.loose = ⟨code, .next r'⟩) :
    r.LeadsTo [t] code r' := fun us => scan_cons_of_next h us

/-- **The first tokens of a text lead to another state, or reading stops at one of them.** -/
theorem leadsTo_or_stopsIn (r : Reader) (ts : List Token) :
    (∃ code r', r'.extent = r.extent ∧ r.LeadsTo ts code r') ∨
      ∃ reading, r.StopsIn ts reading := by
  induction ts generalizing r with
  | nil => exact .inl ⟨[], r, rfl, fun us => rfl⟩
  | cons t ts ih =>
    cases ht : r.turn t.loose with
    | mk code move =>
      cases move with
      | next r' =>
        have hfirst := leadsTo_of_turn ht
        have hextent := (goesWithin_turn r t.loose [] r' (by rw [ht])).1
        rcases ih r' with ⟨code', r'', hextent', h⟩ | ⟨reading, h⟩
        · exact .inl ⟨_, r'', hextent'.trans hextent, hfirst.trans h⟩
        · exact .inr ⟨_, hfirst.stopsIn h⟩
      | rest =>
        refine .inr ⟨⟨code, .ok nowhere⟩, fun us => ?_⟩
        rw [List.cons_append, scan, List.map_cons, read, ht]
        rfl
      | refuse refusal =>
        refine .inr ⟨⟨code, .error refusal⟩, fun us => ?_⟩
        rw [List.cons_append, scan, List.map_cons, read, ht]

/-- **An opening parenthesis opens a group and a scope in every state.** -/
theorem leadsTo_leftParen (r : Reader) : ∃ code n,
    r.LeadsTo [.mark .leftParen] (code ++ [⟨nowhere, .openScope⟩])
      ⟨r.extent, .group n :: r.frames, .operand⟩ := by
  obtain ⟨extent, frames, awaiting⟩ := r
  cases awaiting with
  | operand => exact ⟨[], 0, leadsTo_of_turn rfl⟩
  | arguments f => exact ⟨[], f.arity - 1, leadsTo_of_turn rfl⟩
  | operator => exact ⟨[⟨nowhere, .operator (.binary .mul)⟩], 0, leadsTo_of_turn rfl⟩
  | binding name start =>
    exact ⟨[⟨nowhere, .read name start⟩, ⟨nowhere, .operator (.binary .mul)⟩], 0,
      leadsTo_of_turn rfl⟩

/-! ## 6. A text in parentheses -/

/-- A closing parenthesis closes the innermost group, or is refused if the group needs a comma. -/
def afterParen (n : Nat) (frames : List Frame) (us : List Token) : Reading :=
  if n = 0 then
    let onward := scan ⟨.chain, frames, .operator⟩ us
    ⟨⟨nowhere, .closeScope⟩ :: onward.code, onward.stop⟩
  else ⟨[], .error (refuseGroup n nowhere)⟩

/-- The end of a chain of its own issues the same code in a group, and comes to that group. -/
theorem closeChain_within {c : Cursor} {own : List Frame} (h : (closeChain .chain c own).2 = none)
    (n : Nat) (frames : List Frame) (c' : Cursor) :
    (closeChain .chain c' (own ++ .group n :: frames)).1.outline =
        (closeChain .chain c own).1.outline ∧
      (closeChain .chain c' (own ++ .group n :: frames)).2 = some (n, frames) := by
  induction own with
  | nil => exact ⟨rfl, rfl⟩
  | cons frame own ih =>
    cases frame with
    | group separators => cases h
    | binding name =>
      obtain ⟨hcode, hgroup⟩ := ih h
      refine ⟨?_, hgroup⟩
      simp only [List.cons_append, closeChain, outline_cons]
      rw [hcode]

/-- A closing parenthesis where a chain of its own could end. -/
theorem scan_rightParen (n : Nat) {own : List Frame} (frames : List Frame) {c : Cursor}
    (h : (closeChain .chain c own).2 = none) :
    ∃ code : Code, code.outline = (closeChain .chain c own).1.outline ∧ ∀ us,
      scan ⟨.chain, own ++ .group n :: frames, .operator⟩ (.mark .rightParen :: us) =
        ⟨code ++ (afterParen n frames us).code, (afterParen n frames us).stop⟩ := by
  obtain ⟨hcode, hgroup⟩ := closeChain_within h n frames nowhere
  refine ⟨_, hcode, fun us => ?_⟩
  have hturn : turn ⟨.chain, own ++ .group n :: frames, .operator⟩ (Token.loose (.mark .rightParen)) =
      closingTurn ⟨.chain, own ++ .group n :: frames, .operator⟩
        (Token.loose (.mark .rightParen)) .rightParen := rfl
  rw [scan, List.map_cons, read, hturn, closingTurn]
  simp only [Token.loose]
  generalize closeChain .chain nowhere (own ++ .group n :: frames) = closed at hgroup
  obtain ⟨code, group⟩ := closed
  cases hgroup
  cases n with
  | zero => simp [afterParen, scan]
  | succ n => simp [afterParen]

/-- **What is a chain of its own is one in parentheses as well.** -/
theorem scan_within {r : Reader} {ts : List Token} (n : Nat) (frames : List Frame)
    (hr : r.extent = .chain) (h : r.Ends ⟨0, []⟩ (ts.map Token.loose)) :
    ∃ code : Code, code.outline = (r.scan ts).code.outline ∧ ∀ us,
      (r.within (.group n :: frames)).scan (ts ++ .mark .rightParen :: us) =
        ⟨code ++ (afterParen n frames us).code, (afterParen n frames us).stop⟩ := by
  -- the frames that the text opens come and go; the group lies below them all the while
  induction ts generalizing r with
  | nil =>
    obtain ⟨extent, own, awaiting⟩ := r
    cases hr
    obtain ⟨stop, hstop, -⟩ := h
    have hchain : (finishChain ⟨.chain, own, awaiting⟩ ⟨0, []⟩).stop = .ok stop →
        (closeChain .chain ⟨0, []⟩ own).2 = none ∧
          (finishChain ⟨.chain, own, awaiting⟩ ⟨0, []⟩).code =
            (closeChain .chain ⟨0, []⟩ own).1 := by
      unfold finishChain
      generalize closeChain .chain ⟨0, []⟩ own = closed
      obtain ⟨code, group⟩ := closed
      cases group with
      | none => exact fun _ => ⟨rfl, rfl⟩
      | some group => exact fun h => nomatch h
    cases awaiting with
    | operand => cases hstop
    | arguments f => cases hstop
    | operator =>
      obtain ⟨hgroup, hcode⟩ := hchain hstop
      obtain ⟨code, houtline, hscan⟩ := scan_rightParen n frames hgroup
      exact ⟨code, houtline.trans (congrArg Code.outline hcode.symm), hscan⟩
    | binding name start =>
      obtain ⟨hgroup, hcode⟩ := hchain hstop
      obtain ⟨code, houtline, hscan⟩ := scan_rightParen n frames hgroup
      -- the pending name is looked up at the parenthesis, as it is at the end of a text
      refine ⟨⟨nowhere, .read name start⟩ :: code, ?_, fun us => ?_⟩
      · exact congrArg₂ List.cons rfl (houtline.trans (congrArg Code.outline hcode.symm))
      · have hturn : turn ⟨.chain, own ++ .group n :: frames, .binding name start⟩
            (Token.loose (.mark .rightParen)) =
              (turn ⟨.chain, own ++ .group n :: frames, .operator⟩
                (Token.loose (.mark .rightParen))).after ⟨nowhere, .read name start⟩ := rfl
        rw [List.nil_append, within, scan_cons_of_after hturn, hscan]
        rfl
  | cons t ts ih =>
    obtain ⟨r', hnext, hends⟩ := h.exists_next_of_start rfl
    obtain ⟨hextent, hwithin⟩ := goesWithin_turn r t.loose (.group n :: frames) r' hnext
    obtain ⟨code, houtline, hscan⟩ := ih (hextent.trans hr) hends
    have hown : r.turn t.loose = ⟨(r.turn t.loose).code, .next r'⟩ := by rw [← hnext]
    refine ⟨(r.turn t.loose).code ++ code, ?_, fun us => ?_⟩
    · rw [scan_cons_of_next hown, outline_append, outline_append, houtline]
    · rw [List.cons_append, scan_cons_of_next hwithin, hscan, List.append_assoc]

end Reader

end DeskCalculator
