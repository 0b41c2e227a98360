import DeskCalculator.Proofs.Spelling
import DeskCalculator.Proofs.Tables

/-!
# The first foreign character

No rule of the reader admits a character outside the alphabet of expressions, and nothing behind the
first one is ever looked at. This file fixes

* `Code.placed`, `Reading.seen`, `Turn.seen` -- what a machine can see of code, of a reading and of a
  turn: positions in the place of cursors;
* `Reader.seen_turn`, `Reader.seen_read` -- the same tokens at the same positions look the same,
  whatever stands behind them;
* `Cursor.tokens_of_foreign` -- the tokens of a text up to a foreign character.

Main statement: **two texts that agree up to and including the first foreign character both fail, and
leave everything behind alike** (`evaluate_eq_of_foreign`).
-/

namespace DeskCalculator

/-! ## 1. What can be seen of a reading -/

/-- The instructions with the positions at which they were issued. -/
def Code.placed (code : Code) : List (Nat × Instruction) :=
  code.map fun i => (i.cursor.position, i.instruction)

theorem placed_append (code code' : Code) :
    Code.placed (code ++ code') = code.placed ++ code'.placed := List.map_append

theorem placed_concat {code code' : Code} (h : code.placed = code'.placed) {c c' : Cursor}
    (hposition : c.position = c'.position) (i : Instruction) :
    Code.placed (code ++ [⟨c, i⟩]) = Code.placed (code' ++ [⟨c', i⟩]) := by
  rw [placed_append, placed_append, h]
  simp only [Code.placed, List.map_singleton, hposition]

/-- **A machine looks at the positions of instructions only.** -/
theorem Machine.exec_of_placed {code code' : Code} (h : code.placed = code'.placed) (s : Settings)
    (m : Machine) : m.exec s code = m.exec s code' := by
  induction code generalizing code' m with
  | nil => rw [List.map_eq_nil_iff.1 h.symm]
  | cons i code ih =>
    cases code' with
    | nil => cases h
    | cons i' code' =>
      obtain ⟨hi, hcode⟩ := List.cons.inj h
      obtain ⟨hposition, hinstruction⟩ := Prod.mk.inj hi
      rw [exec, exec, hposition, hinstruction]
      congr 1
      funext m'
      exact ih hcode m'

/-- Where reading stopped, and whether that is the end of the text. -/
def Reading.seenStop (r : Reading) : Except EvalError (Nat × Bool) :=
  match r.stop with
  | .ok c => .ok (c.position, c.atEnd)
  | .error refusal => .error refusal.error

/-- What can be seen of a reading. -/
def Reading.seen (r : Reading) : List (Nat × Instruction) × Except EvalError (Nat × Bool) :=
  (r.code.placed, r.seenStop)

theorem Program.outcome_of_placed {p p' : Program} (hcode : p.code.placed = p'.code.placed)
    (hending : p.ending = p'.ending) (s : Settings) (m : Machine) :
    p.outcome s m = p'.outcome s m := by
  rw [outcome, outcome, Machine.exec_of_placed hcode, hending]

/-- **Readings that look the same come to the same.** -/
theorem Reading.outcome_of_seen {r r' : Reading} (h : r.seen = r'.seen) (s : Settings)
    (m : Machine) : r.program.outcome s m = r'.program.outcome s m := by
  obtain ⟨hcode, hstop⟩ := Prod.mk.inj h
  suffices r.program.code.placed = r'.program.code.placed ∧ r.program.ending = r'.program.ending
    from Program.outcome_of_placed this.1 this.2 s m
  unfold seenStop at hstop
  unfold program
  cases hr : r.stop with
  | error refusal =>
    cases hr' : r'.stop with
    | error refusal' =>
      rw [hr, hr'] at hstop
      exact ⟨hcode, congrArg Except.error (Except.error.inj hstop)⟩
    | ok c' =>
      rw [hr, hr'] at hstop
      cases hstop
  | ok c =>
    cases hr' : r'.stop with
    | error refusal' =>
      rw [hr, hr'] at hstop
      cases hstop
    | ok c' =>
      rw [hr, hr'] at hstop
      obtain ⟨hposition, hend⟩ := Prod.mk.inj (Except.ok.inj hstop)
      simp only [hposition, hend]
      split
      · exact ⟨placed_concat hcode hposition _, rfl⟩
      · exact ⟨hcode, rfl⟩

/-! ## 2. Turns -/

/-- A token with the positions before and after it. -/
def Lexeme.placed (l : Lexeme) : Nat × Token × Nat :=
  (l.start.position, l.token, l.stop.position)

/-- The reader that a move leads to, or else the error if there is one. -/
def Move.seen : Move → Except (Option EvalError) Reader
  | .next r => .ok r
  | .rest => .error none
  | .refuse refusal => .error (some refusal.error)

/-- What can be seen of a turn. -/
def Turn.seen (t : Turn) : List (Nat × Instruction) × Except (Option EvalError) Reader :=
  (t.code.placed, t.move.seen)

theorem Turn.seen_after {t t' : Turn} (h : t.seen = t'.seen) {c c' : Cursor}
    (hposition : c.position = c'.position) (i : Instruction) :
    (t.after ⟨c, i⟩).seen = (t'.after ⟨c', i⟩).seen := by
  obtain ⟨hcode, hmove⟩ := Prod.mk.inj h
  refine Prod.ext ?_ hmove
  show (c.position, i) :: t.code.placed = (c'.position, i) :: t'.code.placed
  rw [hposition, hcode]

namespace Reader

variable {l l' : Lexeme}

theorem seen_operandTurn (h : l.placed = l'.placed) (r : Reader) :
    (r.operandTurn l).seen = (r.operandTurn l').seen := by
  obtain ⟨⟨start, _⟩, token, ⟨stop, _⟩⟩ := l
  obtain ⟨⟨start', _⟩, token', ⟨stop', _⟩⟩ := l'
  cases h
  cases token with
  | number lexeme =>
    simp only [operandTurn]
    cases Number.Numeral.ofText? lexeme.toList <;> rfl
  | name name =>
    simp only [operandTurn]
    cases Function.ofName? name <;> rfl
  | mark m => cases m <;> rfl
  | foreign x => rfl

theorem seen_closeChain (extent : Extent) {c c' : Cursor} (h : c.position = c'.position)
    (frames : List Frame) :
    (closeChain extent c frames).1.placed = (closeChain extent c' frames).1.placed ∧
      (closeChain extent c frames).2 = (closeChain extent c' frames).2 := by
  induction frames with
  | nil =>
    unfold closeChain
    split <;> simp [Code.placed, h]
  | cons frame frames ih =>
    cases frame with
    | group separators => simp [closeChain, Code.placed, h]
    | binding name =>
      refine ⟨?_, ih.2⟩
      have hcode := ih.1
      simp only [Code.placed] at hcode
      simp only [closeChain, Code.placed, List.map_cons, h, hcode]

theorem seen_closingTurn (h : l.placed = l'.placed) (r : Reader) (m : Mark) :
    (r.closingTurn l m).seen = (r.closingTurn l' m).seen := by
  obtain ⟨hstart, hrest⟩ := Prod.mk.inj h
  obtain ⟨-, hstop⟩ := Prod.mk.inj hrest
  obtain ⟨hcode, hgroup⟩ := seen_closeChain r.extent hstart r.frames
  unfold closingTurn
  generalize closeChain r.extent l.start r.frames = closed,
    closeChain r.extent l'.start r.frames = closed' at hcode hgroup
  obtain ⟨code, group⟩ := closed
  obtain ⟨code', group'⟩ := closed'
  cases hgroup
  match group with
  | none => exact Prod.ext hcode rfl
  | some (0, frames) =>
    simp only
    split
    · exact Prod.ext (placed_concat hcode hstop _) rfl
    · refine Prod.ext hcode ?_
      simp only [Turn.seen, Move.seen, refuseGroup, hstart]
  | some (separators + 1, frames) =>
    simp only
    split
    · exact Prod.ext hcode rfl
    · refine Prod.ext hcode ?_
      simp only [Turn.seen, Move.seen, refuseGroup, hstart]

theorem seen_impliedTurn (h : l.placed = l'.placed) (r : Reader) :
    (r.impliedTurn l).seen = (r.impliedTurn l').seen :=
  Turn.seen_after (seen_operandTurn h r) (Prod.mk.inj h).1 _

theorem seen_operatorTurn (h : l.placed = l'.placed) (r : Reader) :
    (r.operatorTurn l).seen = (r.operatorTurn l').seen := by
  obtain ⟨hstart, hrest⟩ := Prod.mk.inj h
  obtain ⟨htoken, -⟩ := Prod.mk.inj hrest
  unfold operatorTurn
  rw [← htoken]
  split
  · next m _ =>
    split
    · simp only [Turn.seen, Code.placed, List.map_cons, List.map_nil, hstart]
    · split
      · rfl
      · simp only [Turn.seen, Code.placed, List.map_cons, List.map_nil, hstart]
    · split
      · exact seen_impliedTurn h r
      · exact seen_closingTurn h r m
  · exact seen_impliedTurn h r

/-- **A token at the same place does the same.** -/
theorem seen_turn (h : l.placed = l'.placed) (r : Reader) :
    (r.turn l).seen = (r.turn l').seen := by
  obtain ⟨hstart, hrest⟩ := Prod.mk.inj h
  obtain ⟨htoken, hstop⟩ := Prod.mk.inj hrest
  unfold turn
  cases r.awaiting with
  | operand => exact seen_operandTurn h r
  | operator => exact seen_operatorTurn h r
  | arguments f =>
    simp only [argumentsTurn, ← htoken]
    split <;> simp only [Turn.seen, Move.seen, Code.placed, List.map_cons, List.map_nil, hstart, hstop]
  | binding name start =>
    simp only [bindingTurn, ← htoken]
    split
    · simp only [Turn.seen, Code.placed, List.map_cons, List.map_nil, hstop]
    · exact Turn.seen_after (seen_operatorTurn h r) hstart _

/-! ## 3. Readings -/

variable {halt halt' : Cursor} {ls ls' tail tail' : List Lexeme}

theorem seen_finishChain (hposition : halt.position = halt'.position)
    (hend : halt.atEnd = halt'.atEnd) (r : Reader) :
    (r.finishChain halt).seen = (r.finishChain halt').seen := by
  obtain ⟨hcode, hgroup⟩ := seen_closeChain r.extent hposition r.frames
  unfold finishChain
  generalize closeChain r.extent halt r.frames = closed,
    closeChain r.extent halt' r.frames = closed' at hcode hgroup
  obtain ⟨code, group⟩ := closed
  obtain ⟨code', group'⟩ := closed'
  cases hgroup
  cases group with
  | none =>
    refine Prod.ext hcode ?_
    simp only [Reading.seen, Reading.seenStop, hposition, hend]
  | some group =>
    refine Prod.ext hcode ?_
    simp only [Reading.seen, Reading.seenStop, refuseGroup, hposition]

/-- The end of the tokens at the same place does the same. -/
theorem seen_finish (hposition : halt.position = halt'.position) (hend : halt.atEnd = halt'.atEnd)
    (r : Reader) : (r.finish halt).seen = (r.finish halt').seen := by
  have hchain := seen_finishChain hposition hend r
  unfold finish
  cases r.awaiting with
  | operand =>
    simp only [Reading.seen, Reading.seenStop, missingOperand, hposition, hend]
  | arguments f =>
    simp only [Reading.seen, Reading.seenStop, hposition]
  | operator => exact hchain
  | binding name start =>
    obtain ⟨hcode, hstop⟩ := Prod.mk.inj hchain
    refine Prod.ext ?_ hstop
    show (halt.position, Instruction.read name start) :: (r.finishChain halt).code.placed =
      (halt'.position, Instruction.read name start) :: (r.finishChain halt').code.placed
    rw [hposition, hcode]

/-- **A reading looks like its first turn, and then like what it goes on with.** -/
theorem seen_read_cons (hl : l.placed = l'.placed) (hstart : l.start.atEnd = false)
    (hstart' : l'.start.atEnd = false) {r : Reader}
    (hnext : ∀ r', (r.turn l).move = .next r' →
      (read halt r' ls).seen = (read halt' r' ls').seen) :
    (read halt r (l :: ls)).seen = (read halt' r (l' :: ls')).seen := by
  obtain ⟨hcode, hmove⟩ := Prod.mk.inj (seen_turn hl r)
  rw [read, read]
  generalize r.turn l = t, r.turn l' = t' at hcode hmove hnext
  obtain ⟨code, move⟩ := t
  obtain ⟨code', move'⟩ := t'
  have hposition : l.start.position = l'.start.position := (Prod.mk.inj hl).1
  cases move with
  | next r' =>
    cases move' with
    | next r'' =>
      cases hmove
      obtain ⟨honward, hstop⟩ := Prod.mk.inj (hnext r' rfl)
      refine Prod.ext ?_ hstop
      simp only [Reading.seen, placed_append]
      rw [hcode, honward]
    | _ => cases hmove
  | rest =>
    cases move' with
    | rest =>
      refine Prod.ext hcode ?_
      simp only [Reading.seen, Reading.seenStop, hposition, hstart, hstart']
    | _ => cases hmove
  | refuse refusal =>
    cases move' with
    | refuse refusal' =>
      refine Prod.ext hcode ?_
      exact congrArg Except.error (Option.some.inj (Except.error.inj hmove))
    | _ => cases hmove

/-- **The same tokens at the same places, and then what looks the same.** -/
theorem seen_read (hls : ls.map Lexeme.placed = ls'.map Lexeme.placed)
    (hstarts : ∀ l ∈ ls, l.start.atEnd = false) (hstarts' : ∀ l ∈ ls', l.start.atEnd = false)
    (htail : ∀ r, (read halt r tail).seen = (read halt' r tail').seen) (r : Reader) :
    (read halt r (ls ++ tail)).seen = (read halt' r (ls' ++ tail')).seen := by
  induction ls generalizing ls' r with
  | nil =>
    rw [List.map_eq_nil_iff.1 hls.symm]
    exact htail r
  | cons l ls ih =>
    cases ls' with
    | nil => cases hls
    | cons l' ls' =>
      obtain ⟨hl, hls⟩ := List.cons.inj hls
      obtain ⟨hstart, hstarts⟩ := List.forall_mem_cons.1 hstarts
      obtain ⟨hstart', hstarts'⟩ := List.forall_mem_cons.1 hstarts'
      exact seen_read_cons hl hstart hstart' fun r' _ => ih hls hstarts hstarts' r'

end Reader

/-! ## 4. Tokens at positions -/

/-- **The same tokens from one position on stand at the same places**, and so does what follows. -/
theorem Lexeme.Tiles.placed_eq {position : Nat} {ls ls' tail tail' : List Lexeme}
    {halt halt' : Cursor} (h : Tiles position (ls ++ tail) halt)
    (h' : Tiles position (ls' ++ tail') halt')
    (htokens : ls.map Lexeme.token = ls'.map Lexeme.token) :
    ls.map Lexeme.placed = ls'.map Lexeme.placed ∧
      ∃ q, Tiles q tail halt ∧ Tiles q tail' halt' := by
  induction ls generalizing position ls' with
  | nil =>
    rw [List.map_eq_nil_iff.1 htokens.symm] at h' ⊢
    exact ⟨rfl, position, h, h'⟩
  | cons l ls ih =>
    cases ls' with
    | nil => cases htokens
    | cons l' ls' =>
      obtain ⟨hl, hrest⟩ := List.cons.inj htokens
      obtain ⟨hstart, hstop, htiles⟩ := h
      obtain ⟨hstart', hstop', htiles'⟩ := h'
      have hstops : l'.stop.position = l.stop.position := by rw [hstop, hstop', hl]
      obtain ⟨hplaced, hfollowing⟩ := ih htiles (hstops ▸ htiles') hrest
      refine ⟨?_, hfollowing⟩
      rw [List.map_cons, List.map_cons, hplaced, Lexeme.placed, Lexeme.placed, hstart, hstart', hl,
        hstops]

/-! ## 5. Foreign characters -/

section Foreign

variable {x : Char}

/-- **A foreign character is a token of its own that no rule admits.** -/
theorem single_of_notMem_alphabet (hx : x ∉ alphabet) :
    (∃ c, Token.single x = .foreign c) ∨ Token.single x = .mark .blank ∨
      Token.single x = .mark .semicolon := by
  have hall : ∀ m ∈ [Mark.plus, .minus, .star, .slash, .caret, .percent, .bang, .leftParen,
      .rightParen, .comma, .equals], m.char ∈ alphabet := by decide +kernel
  unfold Token.single
  split
  · next m hm =>
    rw [← Mark.ofChar?_eq_some_iff.1 hm] at hx
    cases m with
    | blank => exact .inr (.inl rfl)
    | semicolon => exact .inr (.inr rfl)
    | _ => exact absurd (hall _ (by decide)) hx
  · exact .inl ⟨x, rfl⟩

/-- Nor does it belong to a number or to a name. -/
theorem alone_of_notMem_alphabet (hx : x ∉ alphabet) (hu : x.isUpper = false) :
    Number.isNumeralChar x = false ∧ isNameChar x = false ∧ x.isLower = false := by
  have hplain : ¬ (x.isLower = true ∨ x.isDigit = true) :=
    fun h => hx (mem_alphabet_of_isLower_or_isDigit h)
  have hlower : x.isLower = false := Bool.eq_false_iff.2 fun h => hplain (.inl h)
  have hdigit : x.isDigit = false := Bool.eq_false_iff.2 fun h => hplain (.inr h)
  refine ⟨Bool.eq_false_iff.2 fun hn => ?_, ?_, hlower⟩
  · by_cases hpoint : x = '.'
    · rw [hpoint] at hx
      exact hx (by decide +kernel)
    · exact hplain (.inr (isDigit_of_isNumeralChar hn hpoint))
  · show (x.isUpper || x.isLower || x.isDigit) = false
    rw [hu, hlower, hdigit]
    rfl

/-- The characters of tokens are those of the text. -/
theorem mem_of_mem_tokenize {cs : List Char} {t : Token} (ht : t ∈ tokenize cs) :
    ∀ x ∈ t.chars, x ∈ cs := by
  intro x hx
  obtain ⟨before, behind, hsplit⟩ := List.append_of_mem ht
  obtain ⟨ds, rfl, hds, -⟩ := tokenize_eq_append hsplit
  obtain ⟨-, es, rfl, -⟩ := tokenize_eq_cons hds
  exact List.mem_append_right _ (List.mem_append_left _ hx)

/-- A text in the alphabet holds no terminator. -/
theorem semicolon_notMem_tokenize {front : List Char} (hfront : ∀ y ∈ front, y ∈ alphabet) :
    .mark .semicolon ∉ tokenize front := by
  have hterminator : ';' ∉ alphabet := by decide +kernel
  exact fun h => hterminator (hfront _ (mem_of_mem_tokenize h _ (List.mem_singleton_self _)))

variable {front rest : List Char} {c : Cursor}

/-- **The tokens up to a foreign character**: a terminator ends them before the end of the text, and
    any other one is a token itself. -/
theorem Cursor.tokens_of_foreign (hc : c.rest = front ++ x :: rest)
    (hu : ∀ y ∈ c.rest, y.isUpper = false) (hfront : ∀ y ∈ front, y ∈ alphabet)
    (hx : x ∉ alphabet) :
    (x = terminator ∧ c.tokens = tokenize front ∧ c.halt.atEnd = false) ∨
      x ≠ terminator ∧ ∃ us, c.tokens = tokenize front ++ Token.single x :: us := by
  have hxu : x.isUpper = false := hu x (by rw [hc]; exact List.mem_append_right _ List.mem_cons_self)
  obtain ⟨hn, hname, hlower⟩ := alone_of_notMem_alphabet hx hxu
  have htokens := c.tokens_eq_takeWhile hu
  have hend := c.atEnd_halt_eq hu
  have hall : ∀ t ∈ tokenize front, decide (t ≠ .mark .semicolon) = true :=
    fun t ht => decide_eq_true fun he => semicolon_notMem_tokenize hfront (he ▸ ht)
  rw [hc, tokenize_append_cons hn hname hlower] at htokens hend
  rw [List.takeWhile_append_of_pos hall] at htokens
  by_cases hterminator : x = terminator
  · left
    have hsingle : Token.single x = .mark .semicolon := by
      rw [hterminator]
      rfl
    rw [hsingle] at htokens hend
    refine ⟨hterminator, ?_, ?_⟩
    · rw [htokens, List.takeWhile_cons_of_neg (by simp), List.append_nil]
    · rw [hend, decide_eq_false_iff_not, not_not]
      exact List.mem_append_right _ List.mem_cons_self
  · right
    have hsingle : Token.single x ≠ .mark .semicolon := by
      intro he
      have hchars := congrArg Token.chars he
      rw [Token.chars_single] at hchars
      exact hterminator (List.singleton_inj.1 hchars)
    refine ⟨hterminator, (tokenize rest).takeWhile (· ≠ .mark .semicolon), ?_⟩
    rw [htokens]
    exact congrArg _ (List.takeWhile_cons_of_pos (decide_eq_true hsingle))

variable {rest' : List Char} {c' : Cursor}

/-- **Texts that agree up to a foreign character are read alike.** -/
theorem Cursor.seen_readChain (hposition : c.position = c'.position)
    (hc : c.rest = front ++ x :: rest) (hc' : c'.rest = front ++ x :: rest')
    (hu : ∀ y ∈ c.rest, y.isUpper = false) (hu' : ∀ y ∈ c'.rest, y.isUpper = false)
    (hfront : ∀ y ∈ front, y ∈ alphabet) (hx : x ∉ alphabet) :
    c.readChain.seen = c'.readChain.seen := by
  have hends : ∀ c : Cursor, ∀ l ∈ c.lexemes, l.start.atEnd = false :=
    fun c l hl => (c.proper_of_mem_lexemes l hl).atEnd
  have htiles := c.tiles_lexemes
  have htiles' := c'.tiles_lexemes
  rw [← hposition] at htiles'
  unfold readChain reading
  rcases tokens_of_foreign hc hu hfront hx with ⟨rfl, htokens, hend⟩ | ⟨hne, us, htokens⟩
  · obtain ⟨-, htokens', hend'⟩ : _ ∧ _ :=
      (tokens_of_foreign hc' hu' hfront hx).resolve_right fun h => h.1 rfl
    rw [← List.append_nil c.lexemes] at htiles ⊢
    rw [← List.append_nil c'.lexemes] at htiles' ⊢
    obtain ⟨hplaced, q, hhalt, hhalt'⟩ := htiles.placed_eq htiles' (htokens.trans htokens'.symm)
    refine Reader.seen_read hplaced (hends c) (hends c') (fun r => ?_) _
    exact Reader.seen_finish (hhalt.trans hhalt'.symm) (hend.trans hend'.symm) r
  · obtain ⟨-, us', htokens'⟩ : _ ∧ _ :=
      (tokens_of_foreign hc' hu' hfront hx).resolve_left fun h => hne h.1
    obtain ⟨ls, tail, hlexemes, hls, htail⟩ := List.map_eq_append_iff.1 htokens
    obtain ⟨ls', tail', hlexemes', hls', htail'⟩ := List.map_eq_append_iff.1 htokens'
    obtain ⟨l, tail, rfl, hl, -⟩ := List.map_eq_cons_iff.1 htail
    obtain ⟨l', tail', rfl, hl', -⟩ := List.map_eq_cons_iff.1 htail'
    have hstarts := hends c
    have hstarts' := hends c'
    rw [hlexemes] at htiles hstarts ⊢
    rw [hlexemes'] at htiles' hstarts' ⊢
    obtain ⟨hstarts, hstart, -⟩ := List.forall_mem_append.1 hstarts |>.imp_right List.forall_mem_cons.1
    obtain ⟨hstarts', hstart', -⟩ :=
      List.forall_mem_append.1 hstarts' |>.imp_right List.forall_mem_cons.1
    obtain ⟨hplaced, q, htile, htile'⟩ := htiles.placed_eq htiles' (hls.trans hls'.symm)
    have hplace : l.placed = l'.placed := by
      rw [Lexeme.placed, Lexeme.placed, htile.1, htile'.1, htile.2.1, htile'.2.1, hl, hl']
    -- no reader goes over the foreign token
    have hstuck : ∀ r r' : Reader, (r.turn l).move ≠ .next r' := by
      intro r r'
      refine Reader.turn_ne_next ?_
      rw [hl]
      exact single_of_notMem_alphabet hx
    exact Reader.seen_read hplaced hstarts hstarts' (fun r => Reader.seen_read_cons hplace hstart
      hstart' fun r' hnext => absurd hnext (hstuck r r')) _

/-- **A text with a foreign character has no value.** -/
theorem Cursor.not_ends_of_foreign (hc : c.rest = front ++ x :: rest)
    (hu : ∀ y ∈ c.rest, y.isUpper = false) (hfront : ∀ y ∈ front, y ∈ alphabet)
    (hx : x ∉ alphabet) : ¬ Reader.start.Ends c.halt c.lexemes := by
  intro hends
  have hproper := c.proper_of_mem_lexemes
  have hend := (Reader.derivable_of_ends hends hproper).1
  rcases tokens_of_foreign hc hu hfront hx with ⟨-, -, hinside⟩ | ⟨-, us, htokens⟩
  · rw [hend] at hinside
    cases hinside
  · have hmem : Token.single x ∈ c.lexemes.map Lexeme.token := by
      show Token.single x ∈ c.tokens
      rw [htokens]
      exact List.mem_append_right _ List.mem_cons_self
    exact Reader.notMem_of_ends hends hproper (single_of_notMem_alphabet hx) hmem

end Foreign

/-! ## 6. Evaluations -/

/-- **Nothing behind the first foreign character matters**: two texts that agree up to and including
    it both fail, with one error, and leave the same table and the same events behind, under all
    settings. -/
theorem evaluate_eq_of_foreign (c : Calculator) {line line' : String} {front rest rest' : List Char}
    {x : Char} (h : Source.bodyOf line.toList = front ++ x :: rest)
    (h' : Source.bodyOf line'.toList = front ++ x :: rest') (hfront : ∀ y ∈ front, y ∈ alphabet)
    (hx : x ∉ alphabet) :
    ∃ err, (c.evaluate line).result = .error err ∧ c.evaluate line' = c.evaluate line := by
  have hne : ∀ rest, front ++ x :: rest ≠ [] := fun rest => by simp
  have hs : Source.ofLine line = .ok ⟨front ++ x :: rest, hne rest⟩ :=
    Source.ofLine_eq_ok_iff.2 h
  have hs' : Source.ofLine line' = .ok ⟨front ++ x :: rest', hne rest'⟩ :=
    Source.ofLine_eq_ok_iff.2 h'
  have hu : ∀ y ∈ front ++ x :: rest, y.isUpper = false :=
    fun y hy => isUpper_of_mem_bodyOf (h ▸ hy)
  have hu' : ∀ y ∈ front ++ x :: rest', y.isUpper = false :=
    fun y hy => isUpper_of_mem_bodyOf (h' ▸ hy)
  obtain ⟨e, he, heval⟩ := evaluate_of_outcome (c := c) hs
  obtain ⟨e', he', heval'⟩ := evaluate_of_outcome (c := c) hs'
  have hseen : (Source.start ⟨front ++ x :: rest, hne rest⟩).readChain.seen =
      (Source.start ⟨front ++ x :: rest', hne rest'⟩).readChain.seen :=
    Cursor.seen_readChain rfl rfl rfl hu hu' hfront hx
  have houtcome := Reading.outcome_of_seen hseen c.settings (.initial c.memory)
  rw [Source.program] at he heval he' heval'
  rw [← houtcome] at he' heval'
  cases hr : (c.evaluate line).result with
  | ok v =>
    obtain ⟨stop, t, hstop, hend, -⟩ := built_of_ok hs hr
    exact absurd ⟨stop, hstop, hend⟩ (Cursor.not_ends_of_foreign rfl hu hfront hx)
  | error err =>
    refine ⟨err, rfl, ?_⟩
    have hfirst := hr
    rw [heval, result_conclude] at hfirst
    simp only at hfirst
    rw [heval, heval', hfirst, Calculator.conclude, Calculator.conclude, he, he']

/-- A terminator inside the text, behind an assignment that is carried out. -/
theorem evaluate_eq_of_foreign_terminator :
    ∃ err, (({} : Calculator).evaluate "x = 2; log(").result = .error err ∧
      ({} : Calculator).evaluate "X=2 ;7\t+" = ({} : Calculator).evaluate "x = 2; log(" := by
  have hbody : Source.bodyOf "x = 2; log(".toList = "x=2".toList ++ ';' :: "log(".toList := by
    decide +kernel
  have hbody' : Source.bodyOf "X=2 ;7\t+".toList = "x=2".toList ++ ';' :: "7 +".toList := by
    decide +kernel
  have hplain : Plain "x=2" := by decide +kernel
  exact evaluate_eq_of_foreign {} hbody hbody' hplain (by decide +kernel)

end DeskCalculator
