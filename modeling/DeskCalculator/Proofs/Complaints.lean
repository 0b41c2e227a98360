import DeskCalculator.Proofs.Earliest

/-!
# What errors point at

The place of an error is a place of the text, and what stands there is what the error names. This
file fixes

* `TokenAt` -- a token that stands in a text at a place, with what stands behind it;
* `Cause.Concerns`, `Move.Complains` -- what a refusal says of the token that it is about, with one
  lemma for each kind of turn (`complains_turn`) and for the end of the tokens (`complaint_of_finish`);
* `exists_turn_of_mem_read` -- the turn that an instruction comes from; `pending_of_goesOver` -- the
  name that it looks up is the token before;
* `Cause.Fits` -- what an error says of the text at its place.

Main statement: **every error fits the text at its place** (`fits_of_error`).
-/

namespace DeskCalculator

/-! ## 1. Tokens at places -/

/-- The tokens of a text part at the place `p`, and the token there is `u`, with `behind` behind
    it. -/
structure TokenAt (t : List Char) (p : Nat) (u : Token) (behind : List Char) : Prop where
  text : t.drop p = u.chars ++ behind
  chars_ne_nil : u.chars ≠ []
  before : tokenize t = tokenize (t.take p) ++ tokenize (t.drop p)
  token : tokenize (t.drop p) = u :: tokenize behind

/-- **Every token of a text stands at the place up to which the tokens before it reach.** -/
theorem exists_tokenAt {t : List Char} {front rest : List Token} {u : Token}
    (h : tokenize t = front ++ u :: rest) :
    ∃ behind, TokenAt t (span front) u behind ∧ tokenize behind = rest := by
  obtain ⟨ds, ht, hds, -, hfound⟩ := tokenize_eq_append h
  obtain ⟨hne, behind, htext, hrest, -⟩ := tokenize_eq_cons hds
  have hfront : tokenize (front.flatMap Token.chars) = front := by
    have hnil := hfound [] fun u _ x hx => by cases hx
    rwa [List.append_nil, tokenize, List.append_nil] at hnil
  have htake : t.take (span front) = front.flatMap Token.chars := by
    rw [ht, span, List.take_left]
  have hdrop : t.drop (span front) = ds := by
    rw [ht, span, List.drop_left]
  refine ⟨behind, ⟨?_, hne, ?_, ?_⟩, hrest⟩
  · rw [hdrop, htext]
  · rw [htake, hdrop, hfront, hds, h]
  · rw [hdrop, hds, hrest]

/-- A mark is a token of its own. -/
theorem tokenize_mark_cons (m : Mark) (cs : List Char) :
    tokenize (m.char :: cs) = .mark m :: tokenize cs := by
  have hm : Number.isNumeralChar m.char = false ∧ m.char.isLower = false ∧
      Token.single m.char = .mark m := by
    cases m <;> decide
  rw [tokenize_of_single hm.1 hm.2.1, hm.2.2]

namespace TokenAt

variable {t behind : List Char} {p : Nat} {u : Token}

theorem lt_length (h : TokenAt t p u behind) : p < t.length := by
  by_contra hle
  have htext := h.text
  rw [List.drop_eq_nil_of_le (Nat.le_of_not_lt hle)] at htext
  exact h.chars_ne_nil (List.append_eq_nil_iff.1 htext.symm).1

/-- **Where the character of a mark stands, the mark stands.** -/
theorem eq_mark (h : TokenAt t p u behind) {m : Mark} (hm : t[p]? = some m.char) :
    u = .mark m := by
  have htoken := h.token
  cases hdrop : t.drop p with
  | nil =>
    rw [← List.head?_drop, hdrop] at hm
    cases hm
  | cons x rest =>
    rw [← List.head?_drop, hdrop] at hm
    cases hm
    rw [hdrop, tokenize_mark_cons] at htoken
    exact (List.cons.inj htoken).1.symm

theorem getElem?_of_mark {m : Mark} (h : TokenAt t p (.mark m) behind) : t[p]? = some m.char := by
  rw [← List.head?_drop, h.text]
  rfl

end TokenAt

/-! ## 2. What a turn complains of -/

/-- The marks that end a chain before the end of the tokens. -/
def endingMarks : List Mark := [.rightParen, .comma, .equals, .blank]

/-- What a cause says of the token that it is about. -/
def Cause.Concerns (u : Token) : Cause → Prop
  | .unexpectedToken text => text.toList = u.chars
  | .expected (.callOpening _) => u ≠ .mark .leftParen
  | .expected .separator => u ≠ .mark .comma
  | .expected .closing => u ≠ .mark .rightParen
  | .expected .endOfExpression => ∃ m ∈ endingMarks, u = .mark m
  | .expected (.described _) | .emptyExpression | .unexpectedEnd | .unknownVariable _ |
    .arithmetic _ => False

/-- A move that refuses complains of the token, and one that stops a chain would do so if the text
    went on. -/
def Move.Complains (extent : Extent) (u : Token) : Move → Prop
  | .next _ => True
  | .rest => extent = .chain → (Cause.expected .endOfExpression).Concerns u
  | .refuse refusal => refusal.error.cause.Concerns u

namespace Reader

variable {r r' : Reader} {l : Lexeme}

theorem complains_operandTurn (r : Reader) (l : Lexeme) :
    (r.operandTurn l).move.Complains r.extent l.token := by
  have hrefuse : (refuseToken l).move.Complains r.extent l.token := String.toList_ofList
  unfold operandTurn
  split
  · next lexeme hl =>
    split
    · trivial
    · rw [hl]
      rfl
  · split <;> trivial
  · trivial
  · trivial
  · trivial
  · exact hrefuse
  · exact hrefuse

theorem complains_closingTurn {m : Mark} (hl : l.token = .mark m) (hm : m ∈ endingMarks)
    (r : Reader) : (r.closingTurn l m).move.Complains r.extent l.token := by
  unfold closingTurn
  generalize closeChain r.extent l.start r.frames = closed
  obtain ⟨code, group⟩ := closed
  match group with
  | none => exact fun _ => ⟨m, hm, hl⟩
  | some (0, frames) =>
    simp only
    split
    · trivial
    · next hne => exact fun he => hne (Token.mark.inj (hl.symm.trans he))
  | some (separators + 1, frames) =>
    simp only
    split
    · trivial
    · next hne => exact fun he => hne (Token.mark.inj (hl.symm.trans he))

theorem complains_operatorTurn (hl : l.token ≠ .mark .semicolon) (r : Reader) :
    (r.operatorTurn l).move.Complains r.extent l.token := by
  unfold operatorTurn
  split
  · next m hm =>
    split
    · trivial
    · split
      · next hoperand =>
        intro hchain
        rw [hchain] at hoperand
        cases hoperand.1
      · trivial
    · next hafter hbetween =>
      split
      · exact complains_operandTurn r l
      · next hparen =>
        refine complains_closingTurn hm ?_ r
        cases m with
        | leftParen => exact absurd rfl hparen
        | semicolon => exact absurd hm hl
        | bang => cases hafter
        | rightParen | comma | equals | blank => decide
        | plus | minus | star | slash | caret | percent => cases hbetween
  · exact complains_operandTurn r l

/-- **A turn complains of its token.** -/
theorem complains_turn (hl : l.token ≠ .mark .semicolon) (r : Reader) :
    (r.turn l).move.Complains r.extent l.token := by
  unfold turn
  split
  · exact complains_operandTurn r l
  · unfold argumentsTurn
    split
    · trivial
    · next hne => exact hne
  · unfold bindingTurn
    split
    · trivial
    · exact complains_operatorTurn hl r
  · exact complains_operatorTurn hl r

/-- At the end of the tokens a reader complains of the terminator there, or of the end of the
    text. -/
theorem complaint_of_finish {c : Cursor} {refusal : Refusal}
    (h : (r.finish c).stop = .error refusal) : refusal.error.position = c.position ∧
      (refusal.error.cause.Concerns (.mark .semicolon) ∨
        c.atEnd = true ∧ refusal.error.cause = .unexpectedEnd) := by
  have hmarks : ∀ m : Mark, m ≠ .semicolon → Token.mark .semicolon ≠ .mark m :=
    fun m hm he => hm (Token.mark.inj he).symm
  have hchain : (r.finishChain c).stop = .error refusal → refusal.error.position = c.position ∧
      refusal.error.cause.Concerns (.mark .semicolon) := by
    unfold finishChain
    generalize closeChain r.extent c r.frames = closed
    obtain ⟨code, group⟩ := closed
    match group with
    | none => exact fun h => nomatch h
    | some (0, frames) =>
      rintro ⟨⟩
      exact ⟨rfl, hmarks .rightParen (by decide)⟩
    | some (separators + 1, frames) =>
      rintro ⟨⟩
      exact ⟨rfl, hmarks .comma (by decide)⟩
  unfold finish at h
  split at h
  · cases h
    refine ⟨rfl, ?_⟩
    unfold missingOperand
    split
    · next hend => exact .inr ⟨hend, rfl⟩
    · exact .inl rfl
  · cases h
    exact ⟨rfl, .inl (hmarks .leftParen (by decide))⟩
  · exact (hchain h).imp_right .inl
  · exact (hchain h).imp_right .inl

/-! ## 3. Where instructions come from -/

/-- A chain ends at its own cursor. -/
theorem cursor_of_finish {c : Cursor} {i : Issued} (h : i ∈ (r.finish c).code) : i.cursor = c := by
  have hchain : ∀ i ∈ (r.finishChain c).code, i.cursor = c := by
    rw [code_finishChain]
    exact fun i hi => (mem_closeChain i hi).1
  unfold finish at h
  split at h
  · cases h
  · cases h
  · rcases List.mem_cons.1 h with rfl | h
    · rfl
    · exact hchain i h
  · exact hchain i h

/-- The code is issued before the token or behind it. -/
def IssuedAt (l : Lexeme) (code : Code) : Prop := ∀ i ∈ code, i.cursor = l.start ∨ i.cursor = l.stop

theorem issuedAt_operandTurn (r : Reader) (l : Lexeme) : IssuedAt l (r.operandTurn l).code := by
  unfold operandTurn
  split
  · split <;> simp [IssuedAt]
  · split <;> simp [IssuedAt]
  all_goals simp [IssuedAt, refuseToken]

theorem issuedAt_closingTurn (r : Reader) (l : Lexeme) (m : Mark) :
    IssuedAt l (r.closingTurn l m).code := by
  have hcode : IssuedAt l (closeChain r.extent l.start r.frames).1 :=
    fun i hi => .inl (mem_closeChain i hi).1
  unfold closingTurn
  generalize closeChain r.extent l.start r.frames = closed at hcode
  obtain ⟨code, group⟩ := closed
  match group with
  | none => exact hcode
  | some (0, frames) =>
    simp only
    split
    · exact List.forall_mem_append.2 ⟨hcode, by simp⟩
    · exact hcode
  | some (separators + 1, frames) =>
    simp only
    split <;> exact hcode

theorem issuedAt_operatorTurn (r : Reader) (l : Lexeme) : IssuedAt l (r.operatorTurn l).code := by
  have himplied : IssuedAt l (r.impliedTurn l).code :=
    List.forall_mem_cons.2 ⟨.inl rfl, issuedAt_operandTurn r l⟩
  unfold operatorTurn
  split
  · split
    · simp [IssuedAt]
    · split <;> simp [IssuedAt]
    · split
      · exact himplied
      · exact issuedAt_closingTurn r l _
  · exact himplied

/-- **A turn issues its code before its token or behind it.** -/
theorem issuedAt_turn (r : Reader) (l : Lexeme) : IssuedAt l (r.turn l).code := by
  unfold turn
  split
  · exact issuedAt_operandTurn r l
  · unfold argumentsTurn
    split <;> simp [IssuedAt]
  · unfold bindingTurn
    split
    · simp [IssuedAt]
    · exact List.forall_mem_cons.2 ⟨.inl rfl, issuedAt_operatorTurn r l⟩
  · exact issuedAt_operatorTurn r l

/-- Only a name that waits is looked up, unless an equals sign follows it. -/
theorem awaiting_of_read {i : Issued} {name : String} {start : Nat} (h : i ∈ (r.turn l).code)
    (hi : i.instruction = .read name start) :
    r.awaiting = .binding name start ∧ l.token ≠ .mark .equals := by
  have hpending := (accounts_turn r l).reads i h name ⟨start, hi⟩
  obtain ⟨other, ha⟩ := exists_start_of_pending hpending
  simp only [turn, ha, bindingTurn] at h
  split at h
  · rw [List.mem_singleton.1 h] at hi
    cases hi
  · next hequals =>
    rcases List.mem_cons.1 h with rfl | h
    · cases hi
      exact ⟨ha, hequals⟩
    · -- the turn that follows would do the same after an operand, where no name waits
      have hnone := (accounts_operatorTurn (r.await .operator) l).reads i h name ⟨start, hi⟩
      cases hnone

theorem awaiting_of_read_finish {c : Cursor} {i : Issued} {name : String} {start : Nat}
    (h : i ∈ (r.finish c).code) (hi : i.instruction = .read name start) :
    r.awaiting = .binding name start := by
  obtain ⟨other, ha⟩ := exists_start_of_pending ((names_finish r c i h).1 name ⟨start, hi⟩)
  simp only [finish, ha] at h
  rcases List.mem_cons.1 h with rfl | h
  · cases hi
    exact ha
  · exact absurd ⟨start, hi⟩ ((binds_finishChain r c i h).1 name)

/-- **An instruction is issued by a turn that the reader comes to**, or at the end of the tokens. -/
theorem exists_turn_of_mem_read {halt : Cursor} {ls : List Lexeme} {i : Issued}
    (h : i ∈ (read halt r ls).code) :
    (∃ front l rest s, ls = front ++ l :: rest ∧ r.GoesOver front s ∧ i ∈ (s.turn l).code) ∨
      ∃ s, r.GoesOver ls s ∧ i ∈ (s.finish halt).code := by
  induction ls generalizing r with
  | nil => exact .inr ⟨r, .nil r, h⟩
  | cons l ls ih =>
    have hfirst : i ∈ (r.turn l).code → ∃ front l' rest s, l :: ls = front ++ l' :: rest ∧
        r.GoesOver front s ∧ i ∈ (s.turn l').code := fun h => ⟨[], l, ls, r, rfl, .nil r, h⟩
    rw [read] at h
    cases hmove : (r.turn l).move with
    | next r₁ =>
      rw [hmove] at h
      rcases List.mem_append.1 h with h | h
      · exact .inl (hfirst h)
      · rcases ih h with ⟨front, l', rest, s, rfl, hover, hi⟩ | ⟨s, hover, hi⟩
        · exact .inl ⟨l :: front, l', rest, s, rfl, .cons hmove hover, hi⟩
        · exact .inr ⟨s, .cons hmove hover, hi⟩
    | rest =>
      rw [hmove] at h
      exact .inl (hfirst h)
    | refuse refusal =>
      rw [hmove] at h
      exact .inl (hfirst h)

/-- What is gone over ends with the turn that leads to the state. -/
theorem GoesOver.eq_or_exists_last {front : List Lexeme} (h : r.GoesOver front r') :
    (front = [] ∧ r' = r) ∨
      ∃ (before : List Lexeme) (l : Lexeme) (s : Reader), front = before ++ [l] ∧
        (s.turn l).move = .next r' := by
  induction h with
  | nil r => exact .inl ⟨rfl, rfl⟩
  | @cons r r₁ r' l ls hnext _ ih =>
    rcases ih with ⟨rfl, rfl⟩ | ⟨before, last, s, rfl, hlast⟩
    · exact .inr ⟨[], l, r, rfl, hnext⟩
    · exact .inr ⟨l :: before, last, s, rfl, hlast⟩

theorem stop_of_finish {c stop : Cursor} (h : (r.finish c).stop = .ok stop) : stop = c := by
  have hchain : (r.finishChain c).stop = .ok stop → stop = c := by
    unfold finishChain
    generalize closeChain r.extent c r.frames = closed
    obtain ⟨code, group⟩ := closed
    cases group with
    | none =>
      rintro ⟨⟩
      rfl
    | some group => exact fun h => nomatch h
  unfold finish at h
  split at h
  · cases h
  · cases h
  · exact hchain h
  · exact hchain h

end Reader

/-! ## 4. The text of a source -/

/-- Nothing starts or stops outside of what is tiled. -/
theorem Lexeme.Tiles.le {position : Nat} {ls : List Lexeme} {halt : Cursor}
    (h : Tiles position ls halt) : position ≤ halt.position ∧
      ∀ l ∈ ls, l.start.position ≤ l.stop.position ∧ l.stop.position ≤ halt.position := by
  induction ls generalizing position with
  | nil => exact ⟨Nat.le_of_eq h.symm, fun l hl => absurd hl List.not_mem_nil⟩
  | cons l ls ih =>
    obtain ⟨hstart, hstop, hrest⟩ := h
    obtain ⟨hle, hls⟩ := ih hrest
    exact ⟨by omega, List.forall_mem_cons.2 ⟨⟨by omega, hle⟩, hls⟩⟩

namespace Source

variable {line : String} {source : Source} {front rest : List Lexeme} {l : Lexeme}

theorem length_textOf (hs : ofLine line = .ok source) :
    (textOf line).length = source.start.halt.position + source.start.halt.rest.length + 1 := by
  have hend := source.start.end_halt
  have hbody : bodyOf line.toList = source.start.rest := ofLine_eq_ok_iff.1 hs
  have hstart : source.start.position = 0 := rfl
  rw [textOf, List.length_append, List.length_singleton, hbody]
  omega

/-- The end of the tokens is a place of the text, and the last one if it is the end of the text. -/
theorem halt_lt_length (hs : ofLine line = .ok source) :
    source.start.halt.position < (textOf line).length ∧
      (source.start.halt.atEnd = true → source.start.halt.position + 1 = (textOf line).length) ∧
      (source.start.halt.atEnd = false → source.start.halt.position + 1 < (textOf line).length) := by
  rw [length_textOf hs, Cursor.atEnd]
  cases source.start.halt.rest with
  | nil => simp
  | cons x rest =>
    rw [List.length_cons]
    exact ⟨by omega, fun h => (by cases h), fun _ => by omega⟩

/-- **Every lexeme of a source is a token of the text at its place.** -/
theorem exists_lexemeAt (hs : ofLine line = .ok source)
    (h : source.start.lexemes = front ++ l :: rest) :
    ∃ behind us, TokenAt (textOf line) l.start.position l.token behind ∧
      tokenize behind = rest.map Lexeme.token ++ .mark .semicolon :: us := by
  obtain ⟨us, htokens⟩ := exists_lineTokens_eq hs
  rw [Cursor.tokens, h, List.map_append, List.append_assoc] at htokens
  obtain ⟨behind, hat, hbehind⟩ := exists_tokenAt (t := textOf line) htokens
  have htiles := source.start.tiles_lexemes
  rw [h] at htiles
  have hstart : l.start.position = span (front.map Lexeme.token) :=
    htiles.of_append.1.trans (Nat.zero_add _)
  rw [← hstart] at hat
  exact ⟨behind, us, hat, hbehind⟩

/-- A terminator stands where the tokens of a source end. -/
theorem exists_terminatorAt (hs : ofLine line = .ok source) :
    ∃ behind, TokenAt (textOf line) source.start.halt.position (.mark .semicolon) behind := by
  obtain ⟨us, htokens⟩ := exists_lineTokens_eq hs
  obtain ⟨behind, hat, -⟩ := exists_tokenAt (t := textOf line) htokens
  have htiles := source.start.tiles_lexemes
  rw [← List.append_nil source.start.lexemes] at htiles
  have hhalt : source.start.halt.position = span source.start.tokens :=
    htiles.of_append.trans (Nat.zero_add _)
  rw [← hhalt] at hat
  exact ⟨behind, hat⟩

end Source

/-! ## 5. What an error says of the text -/

/-- What an error at the place `p` says of the text `t`: which token stands there, that it is the last
    place, or which character is missing there. A fault of the arithmetic says nothing more, and no
    error says that the text is empty or that something else was expected. -/
def Cause.Fits (t : List Char) (p : Nat) : Cause → Prop
  | .unexpectedToken text => ∃ u behind, TokenAt t p u behind ∧ text.toList = u.chars
  | .unknownVariable name => Function.ofName? name = none ∧
      ∃ behind, TokenAt t p (.name name) behind ∧ behind.head? ≠ some '='
  | .unexpectedEnd => p + 1 = t.length
  | .expected (.callOpening _) => t[p]? ≠ some '('
  | .expected .separator => t[p]? ≠ some ','
  | .expected .closing => t[p]? ≠ some ')'
  | .expected .endOfExpression =>
    (∃ x ∈ [')', ',', '=', ' '], t[p]? = some x) ∨ t[p]? = some ';' ∧ p + 1 < t.length
  | .arithmetic _ => True
  | .expected (.described _) | .emptyExpression => False

theorem Cause.Concerns.fits {t behind : List Char} {p : Nat} {u : Token} {cause : Cause}
    (h : cause.Concerns u) (hu : TokenAt t p u behind) : cause.Fits t p := by
  cases cause with
  | unexpectedToken text => exact ⟨u, behind, hu, h⟩
  | expected requirement =>
    cases requirement with
    | callOpening f => exact fun hget => h (hu.eq_mark (m := .leftParen) hget)
    | separator => exact fun hget => h (hu.eq_mark (m := .comma) hget)
    | closing => exact fun hget => h (hu.eq_mark (m := .rightParen) hget)
    | endOfExpression =>
      obtain ⟨m, hm, rfl⟩ := h
      have hall : ∀ m ∈ endingMarks, m.char ∈ [')', ',', '=', ' '] := by decide
      exact .inl ⟨m.char, hall m hm, hu.getElem?_of_mark⟩
    | described text => exact h.elim
  | _ => exact h.elim

/-- An error at a place of the text that fits it. -/
def EvalError.Fits (t : List Char) (err : EvalError) : Prop :=
  err.position < t.length ∧ err.cause.Fits t err.position

section Errors

variable {c : Calculator} {line : String} {source : Source} {err : EvalError}

/-- What the reader of a source stops at, with the reader there. -/
theorem stop_readChain (source : Source) : ∃ front rest r, source.Front front rest r ∧
    source.start.readChain.stop = (Reader.read source.start.halt r rest).stop := by
  obtain ⟨front, rest, r, hfront⟩ := exists_front source
  refine ⟨front, rest, r, hfront, ?_⟩
  rw [Cursor.readChain, Cursor.reading, hfront.lexemes]
  exact hfront.goesOver.stop_eq rest

/-- A lexeme of a source goes ahead, and is no terminator. -/
theorem Source.proper_of_lexemes {front rest : List Lexeme} {l : Lexeme}
    (h : source.start.lexemes = front ++ l :: rest) :
    l.start.position ≤ l.stop.position ∧ l.token ≠ .mark .semicolon := by
  have hmem : l ∈ source.start.lexemes := by
    rw [h]
    exact List.mem_append_right _ List.mem_cons_self
  exact ⟨(source.start.tiles_lexemes.le.2 l hmem).1,
    fun he => source.start.semicolon_notMem_tokens (he ▸ List.mem_map_of_mem hmem)⟩

/-- **A refusal of the reader fits the text.** -/
theorem fits_of_refusal (hs : Source.ofLine line = .ok source) {refusal : Refusal}
    (h : source.start.readChain.stop = .error refusal) : refusal.error.Fits (textOf line) := by
  obtain ⟨front, rest, r, hfront, hstop⟩ := stop_readChain source
  rw [h] at hstop
  cases rest with
  | nil =>
    obtain ⟨hposition, hcause⟩ := Reader.complaint_of_finish hstop.symm
    obtain ⟨hlt, hlast, -⟩ := Source.halt_lt_length hs
    rw [EvalError.Fits, hposition]
    refine ⟨hlt, ?_⟩
    rcases hcause with hconcerns | ⟨hend, hcause⟩
    · obtain ⟨behind, hat⟩ := Source.exists_terminatorAt hs
      exact hconcerns.fits hat
    · rw [hcause]
      exact hlast hend
  | cons l rest =>
    obtain ⟨behind, us, hat, -⟩ := Source.exists_lexemeAt hs hfront.lexemes
    obtain ⟨hl, hsemicolon⟩ := Source.proper_of_lexemes hfront.lexemes
    have hplace : ∀ refusal, (r.turn l).move = .refuse refusal →
        refusal.error.position = l.start.position := fun refusal => Reader.place_of_refuse hl
    have hcomplains := Reader.complains_turn hsemicolon r
    have hstuck := hfront.stuck l rfl
    rw [Reader.read] at hstop
    cases hmove : (r.turn l).move with
    | next r' => exact absurd hmove (hstuck r')
    | rest =>
      rw [hmove] at hstop
      cases hstop
    | refuse refusal' =>
      rw [hmove] at hstop hcomplains
      cases hstop
      rw [EvalError.Fits, hplace refusal hmove]
      exact ⟨hat.lt_length, hcomplains.fits hat⟩

/-- **Where a chain stops before the end of the text**, one of the characters stands that end it. -/
theorem fits_of_beforeEnd (hs : Source.ofLine line = .ok source) {stop : Cursor}
    (h : source.start.readChain.stop = .ok stop) (hend : stop.atEnd = false) :
    EvalError.Fits (textOf line) ⟨stop.position, .expected .endOfExpression⟩ := by
  obtain ⟨front, rest, r, hfront, hstop⟩ := stop_readChain source
  rw [h] at hstop
  cases rest with
  | nil =>
    obtain rfl := Reader.stop_of_finish hstop.symm
    obtain ⟨hlt, -, hinside⟩ := Source.halt_lt_length hs
    obtain ⟨behind, hat⟩ := Source.exists_terminatorAt hs
    exact ⟨hlt, .inr ⟨hat.getElem?_of_mark, hinside hend⟩⟩
  | cons l rest =>
    obtain ⟨behind, us, hat, -⟩ := Source.exists_lexemeAt hs hfront.lexemes
    have hcomplains := Reader.complains_turn (Source.proper_of_lexemes hfront.lexemes).2 r
    have hstuck := hfront.stuck l rfl
    have hchain : r.extent = .chain := hfront.goesOver.extent_eq
    rw [Reader.read] at hstop
    cases hmove : (r.turn l).move with
    | next r' => exact absurd hmove (hstuck r')
    | rest =>
      rw [hmove] at hstop hcomplains
      cases hstop
      exact ⟨hat.lt_length, (hcomplains hchain).fits hat⟩
    | refuse refusal =>
      rw [hmove] at hstop
      cases hstop

/-! ## 6. Errors of the machine -/

/-- A step that fails misses the value of a name, or an operand to assign, or is a fault of the
    arithmetic. -/
theorem Machine.cause_of_failed_step {s : Settings} {position : Nat} {i : Instruction}
    {m m' : Machine} (h : m.step s position i = .failed err m') :
    (∃ name start, i = .read name start ∧ err = ⟨start, .unknownVariable name⟩) ∨
      (∃ name, i = .assign name ∧ err.cause = .unexpectedEnd) ∨
      ∃ f, err.cause = .arithmetic f := by
  have hfault : ∀ {n m m'}, reduceTimes s position n m = .failed err m' →
      ∃ f, err.cause = .arithmetic f := by
    intro n m m' h
    obtain ⟨f, rfl⟩ := fault_of_reduceTimes h
    exact ⟨f, rfl⟩
  cases i with
  | literal x => cases h
  | read name start =>
    simp only [step, read, lookUp] at h
    cases hm : m.memory.get? name with
    | some x =>
      rw [hm] at h
      cases h
    | none =>
      rw [hm] at h
      cases hs : s.strict with
      | true =>
        simp only [hs, if_true] at h
        cases h
        exact .inl ⟨name, start, rfl, rfl⟩
      | false =>
        simp only [hs, Bool.false_eq_true, if_false] at h
        cases h
  | operator op =>
    simp only [step, stackOperator, reduceWhile] at h
    cases hr : m.reduceTimes s position _ with
    | ok m₁ =>
      rw [hr] at h
      cases h
    | failed err₁ m₁ =>
      rw [hr] at h
      cases h
      exact .inr (.inr (hfault hr))
  | hold op => cases h
  | openScope => cases h
  | closeScope =>
    simp only [step, closeScope] at h
    split at h
    · cases h
      exact .inr (.inr ⟨_, rfl⟩)
    · cases h
    · cases h
      exact .inr (.inr ⟨_, rfl⟩)
  | settle => exact .inr (.inr (hfault h))
  | assign name =>
    simp only [step, assign] at h
    split at h
    · cases h
      exact .inr (.inl ⟨name, rfl, rfl⟩)
    · cases h

/-- **A name that waits** stands in the text where it starts, and what follows is no equals sign. -/
theorem fits_of_pending (hs : Source.ofLine line = .ok source) {front rest : List Lexeme}
    {r : Reader} (hlexemes : source.start.lexemes = front ++ rest)
    (hover : Reader.start.GoesOver front r) {name : String} {start : Nat}
    (ha : r.awaiting = .binding name start) (hrest : ∀ l ∈ rest.head?, l.token ≠ .mark .equals) :
    EvalError.Fits (textOf line) ⟨start, .unknownVariable name⟩ := by
  rcases hover.eq_or_exists_last with ⟨-, rfl⟩ | ⟨before, l, s, rfl, hnext⟩
  · cases ha
  · rw [List.append_assoc, List.singleton_append] at hlexemes
    obtain ⟨hl, -⟩ := Source.proper_of_lexemes hlexemes
    obtain ⟨htoken, rfl, hfunction⟩ := Reader.pending_of_turn hl hnext ha
    obtain ⟨behind, us, hat, hbehind⟩ := Source.exists_lexemeAt hs hlexemes
    rw [htoken] at hat
    refine ⟨hat.lt_length, hfunction, behind, hat, fun hequals => ?_⟩
    obtain ⟨ds, rfl⟩ := List.head?_eq_some_iff.1 hequals
    have hmark := (tokenize_mark_cons .equals ds).symm.trans hbehind
    cases rest with
    | nil => cases hmark
    | cons l' rest => exact hrest l' rfl (List.cons.inj hmark).1.symm

/-- **So does a name that is looked up.** -/
theorem fits_of_read (hs : Source.ofLine line = .ok source) {i : Issued} {name : String}
    {start : Nat} (h : i ∈ source.start.readChain.code) (hi : i.instruction = .read name start) :
    EvalError.Fits (textOf line) ⟨start, .unknownVariable name⟩ := by
  rcases Reader.exists_turn_of_mem_read h with
    ⟨front, l, rest, r, hlexemes, hover, hcode⟩ | ⟨r, hover, hcode⟩
  · obtain ⟨ha, hequals⟩ := Reader.awaiting_of_read hcode hi
    refine fits_of_pending hs hlexemes hover ha ?_
    rintro l' ⟨⟩
    exact hequals
  · have ha := Reader.awaiting_of_read_finish hcode hi
    refine fits_of_pending hs (List.append_nil _).symm hover ha ?_
    rintro l' ⟨⟩

/-- The reading of a source ends inside the text. -/
theorem place_readChain_lt (hs : Source.ofLine line = .ok source) :
    source.start.readChain.place < (textOf line).length := by
  obtain ⟨front, rest, r, hfront⟩ := exists_front source
  obtain ⟨ds, us, htext, hds, -⟩ := hfront.exists_text hs
  have hne : ds ≠ [] := by
    rintro rfl
    rw [tokenize] at hds
    simp at hds
  rw [hfront.place_eq, htext, List.length_append]
  exact Nat.lt_add_of_pos_right (List.length_pos_iff.2 hne)

/-- **All code of a source has its place in the text.** -/
theorem place_lt_of_mem (hs : Source.ofLine line = .ok source) {i : Issued}
    (h : i ∈ source.start.readChain.code) : i.place < (textOf line).length := by
  have hcursor : i.cursor.position ≤ source.start.halt.position := by
    obtain ⟨-, hle⟩ := source.start.tiles_lexemes.le
    rcases Reader.exists_turn_of_mem_read h with
      ⟨front, l, rest, r, hlexemes, -, hcode⟩ | ⟨r, -, hcode⟩
    · have hlexemes : source.start.lexemes = front ++ l :: rest := hlexemes
      obtain ⟨hl, hhalt⟩ := hle l (by rw [hlexemes]; exact List.mem_append_right _ List.mem_cons_self)
      rcases Reader.issuedAt_turn r l i hcode with hi | hi <;> rw [hi]
      · exact hl.trans hhalt
      · exact hhalt
    · exact (congrArg Cursor.position (Reader.cursor_of_finish hcode)).le
  cases hi : i.instruction with
  | read name start =>
    rw [Issued.place, hi]
    exact (fits_of_read hs h hi).1
  | _ =>
    rw [Issued.place, hi]
    exact Nat.lt_of_le_of_lt hcursor (Source.halt_lt_length hs).1

theorem place_lt_of_mem_program (hs : Source.ofLine line = .ok source) {i : Issued}
    (h : i ∈ source.program.code) : i.place < (textOf line).length := by
  have hlt := place_readChain_lt hs
  unfold Source.program Reading.program at h
  unfold Reading.place at hlt
  cases hstop : source.start.readChain.stop with
  | error refusal =>
    rw [hstop] at h
    exact place_lt_of_mem hs h
  | ok stop =>
    rw [hstop] at h hlt
    cases hend : stop.atEnd with
    | false =>
      simp only [hend, Bool.false_eq_true, if_false] at h
      exact place_lt_of_mem hs h
    | true =>
      simp only [hend, if_true] at h
      rcases List.mem_append.1 h with h | h
      · exact place_lt_of_mem hs h
      · rw [List.mem_singleton.1 h]
        exact hlt

/-- A fault of the arithmetic fits wherever it is reported in the text. -/
theorem fits_of_arithmetic {t : List Char} {f : ArithmeticFault} (hlt : err.position < t.length)
    (hf : err.cause = .arithmetic f) : err.Fits t := by
  refine ⟨hlt, ?_⟩
  rw [hf]
  trivial

/-- An error that a missing operand gives would be one of the reader. -/
theorem fits_of_unexpectedEnd (hs : Source.ofLine line = .ok source)
    (h : (c.evaluate line).result = .error err) (hcause : err.cause = .unexpectedEnd) :
    err.Fits (textOf line) := by
  have hcomp := completes_start c source
  rw [evaluate_of_ofLine hs, result_conclude] at h
  generalize (Evaluation.start c.settings c.memory source).complete = done at hcomp h
  obtain ⟨result, e⟩ := done
  cases h
  cases hcomp with
  | refused hstop => exact fits_of_refusal hs hstop
  | beforeEnd hstop hend => exact fits_of_beforeEnd hs hstop hend
  | strict hstrict =>
    rw [hcause] at hstrict
    exact hstrict.elim
  | overtaken _ _ hmissing =>
    rw [hcause] at hmissing
    cases hmissing

/-- An error behind all code of a source fits the text. -/
theorem fits_of_ending (hs : Source.ofLine line = .ok source) {s : Settings} {m m' : Machine}
    (hexec : m.exec s source.program.code = .ok m')
    (h : (source.program.outcome s m).1 = .error err) : err.Fits (textOf line) := by
  have hplace := Program.position_of_error hexec h
  rw [Program.outcome, hexec] at h
  simp only [Source.program, Reading.program] at h hplace
  cases hstop : source.start.readChain.stop with
  | error refusal =>
    rw [hstop] at h
    cases h
    exact fits_of_refusal hs hstop
  | ok stop =>
    rw [hstop] at h hplace
    cases hend : stop.atEnd with
    | false =>
      simp only [hend, Bool.false_eq_true, if_false] at h
      cases h
      exact fits_of_beforeEnd hs hstop hend
    | true =>
      have hlt := place_readChain_lt hs
      rw [Reading.place, hstop] at hlt
      simp only [hend, if_true] at h hplace
      have hlt : err.position < (textOf line).length := hplace.trans_lt hlt
      split at h
      · next hother => cases hother
      · cases h
      · cases h
        exact fits_of_arithmetic hlt rfl

/-- **Errors point at what they name.** Whatever the table and the settings, the place of an error is
    a place of the text. A token that is not expected is the whole token there; a name without a value
    is the whole name there, no function, and no equals sign follows it; an unexpected end is the last
    place; a character that is missing does not stand there; and where the end of the expression was
    expected, there stands a closing parenthesis, a comma, an equals sign, a blank, or a terminator
    that is not the last character. -/
theorem fits_of_error (c : Calculator) {line : String} {source : Source} {err : EvalError}
    (hs : Source.ofLine line = .ok source) (h : (c.evaluate line).result = .error err) :
    err.position < (textOf line).length ∧ err.cause.Fits (textOf line) err.position := by
  have houtcome := (result_of_ofLine hs).symm.trans h
  cases hexec : (Machine.initial c.memory).exec c.settings source.program.code with
  | ok m => exact fits_of_ending hs hexec houtcome
  | failed err' m =>
    rw [Program.outcome_of_failed hexec] at houtcome
    cases houtcome
    obtain ⟨i, hi, m₁, hstep⟩ := Machine.exists_step_of_exec hexec
    rcases Machine.cause_of_failed_step hstep with
      ⟨name, start, hread, rfl⟩ | ⟨name, -, hcause⟩ | ⟨f, hf⟩
    · refine fits_of_read hs ((Reading.mem_program hi).resolve_right ?_) hread
      rw [hread]
      exact Instruction.noConfusion
    · exact fits_of_unexpectedEnd hs h hcause
    · have hplace : err.position = i.place := (Machine.failed_step hstep).1
      exact fits_of_arithmetic (hplace.trans_lt (place_lt_of_mem_program hs hi)) hf

end Errors

/-- A name without a value behind one that has been bound. -/
theorem fits_of_error_name :
    ∃ err, (({ settings := { strict := true } } : Calculator).evaluate "X = 2 * foo").result =
        .error err ∧ err.position = 4 ∧ err.cause = .unknownVariable "foo" ∧
      Function.ofName? "foo" = none ∧
      ∃ behind, TokenAt "x=2*foo;".toList 4 (.name "foo") behind ∧ behind.head? ≠ some '=' := by
  have hs : Source.ofLine "X = 2 * foo" = .ok ⟨"x=2*foo".toList, by decide⟩ :=
    Source.ofLine_eq_ok_iff.2 (by decide +kernel)
  have hr : (({ settings := { strict := true } } : Calculator).evaluate "X = 2 * foo").result =
      .error ⟨4, .unknownVariable "foo"⟩ := by
    with_unfolding_all rfl
  obtain ⟨-, hfits⟩ := fits_of_error _ hs hr
  have htext : textOf "X = 2 * foo" = "x=2*foo;".toList := by decide +kernel
  rw [htext] at hfits
  exact ⟨_, hr, rfl, rfl, hfits⟩

end DeskCalculator
