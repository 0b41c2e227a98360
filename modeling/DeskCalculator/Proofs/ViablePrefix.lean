import DeskCalculator.Proofs.Outline
import DeskCalculator.Proofs.Spelling

/-!
# What a text can go on with

Wherever a reader has come to, there is a way to the end of a text. This file fixes

* `Reader.GoesOver`, `Reader.Stuck` -- a reader goes over lexemes, turn by turn, and comes to another
  state, or it does not; every reading goes over some of its lexemes and is stuck at the next one
  (`Reader.exists_goesOver`);
* `Reader.completion` -- tokens that complete a text, by what the reader waits for and what is open;
* `tokenize_append_completion` -- they are found in a text, whatever tokens stand before them;
* `borrows_append` -- no function in them is overtaken that was not before.

Main statement: **from every state of the reader of a chain, its completion is read to the end**
(`ends_completion`).
-/

namespace DeskCalculator

/-! ## 1. Going over lexemes -/

namespace Reader

/-- A reader goes over lexemes, turn by turn, and comes to another state. -/
inductive GoesOver : Reader → List Lexeme → Reader → Prop where
  | nil (r : Reader) : GoesOver r [] r
  | cons {r r' r'' : Reader} {l : Lexeme} {ls : List Lexeme} (h : (r.turn l).move = .next r')
      (h' : GoesOver r' ls r'') : GoesOver r (l :: ls) r''

/-- The reader does not go over the lexeme. -/
def Stuck (r : Reader) (l : Lexeme) : Prop := ∀ r', (r.turn l).move ≠ .next r'

variable {halt : Cursor} {r r' s : Reader} {ls front rest : List Lexeme}

/-- A reading stops where it stops from any state that it comes to. -/
theorem GoesOver.stop_eq (h : r.GoesOver front r') (rest : List Lexeme) :
    (read halt r (front ++ rest)).stop = (read halt r' rest).stop := by
  induction h with
  | nil r => rfl
  | @cons r r' r'' l ls hnext _ ih =>
    have hturn : r.turn l = ⟨(r.turn l).code, .next r'⟩ := by rw [← hnext]
    rw [List.cons_append, read_cons_of_next hturn, ih]

/-- How much is to be read stays the same. -/
theorem GoesOver.extent_eq (h : r.GoesOver front r') : r'.extent = r.extent := by
  induction h with
  | nil r => rfl
  | cons hnext _ ih => exact ih.trans (goesWithin_turn _ _ [] _ hnext).1

/-- What is gone over leads from one state to another, lexeme by lexeme. -/
theorem GoesOver.exists_next (h : r.GoesOver front r') {l : Lexeme} (hl : l ∈ front) :
    ∃ r₁ r₂ : Reader, (r₁.turn l).move = .next r₂ := by
  induction h with
  | nil r => cases hl
  | @cons r r₁ r' first front hnext _ ih =>
    rcases List.mem_cons.1 hl with rfl | hl
    · exact ⟨r, r₁, hnext⟩
    · exact ih hl

/-- **What one reader goes over, a reader that is alike goes over**, wherever the tokens stand. -/
theorem GoesOver.exists_alike (h : r.GoesOver front r') (hs : r.Alike s)
    (htokens : front.map Lexeme.token = ls.map Lexeme.token) :
    ∃ s', s.GoesOver ls s' ∧ r'.Alike s' := by
  induction h generalizing s ls with
  | nil r =>
    rw [List.map_eq_nil_iff.1 htokens.symm]
    exact ⟨s, .nil s, hs⟩
  | @cons r r₁ r' l front hnext _ ih =>
    cases ls with
    | nil => cases htokens
    | cons l' ls =>
      obtain ⟨hl, hrest⟩ := List.cons.inj htokens
      have hmove := (alike_turn hs hl).move
      rw [hnext] at hmove
      cases hturn : (s.turn l').move with
      | next s₁ =>
        rw [hturn] at hmove
        cases hmove with
        | next halike =>
          obtain ⟨s', hover, halike'⟩ := ih halike hrest
          exact ⟨s', .cons hturn hover, halike'⟩
      | rest =>
        rw [hturn] at hmove
        cases hmove
      | refuse refusal =>
        rw [hturn] at hmove
        cases hmove

/-- **A reading goes over some lexemes, and the next one ends it.** -/
theorem exists_goesOver (r : Reader) (ls : List Lexeme) : ∃ front rest r', ls = front ++ rest ∧
    r.GoesOver front r' ∧ ∀ l ∈ rest.head?, r'.Stuck l := by
  induction ls generalizing r with
  | nil => exact ⟨[], [], r, rfl, .nil r, fun l hl => by cases hl⟩
  | cons l ls ih =>
    by_cases hnext : ∃ r', (r.turn l).move = .next r'
    · obtain ⟨r', hnext⟩ := hnext
      obtain ⟨front, rest, r'', rfl, hover, hends⟩ := ih r'
      exact ⟨l :: front, rest, r'', rfl, .cons hnext hover, hends⟩
    · refine ⟨[], l :: ls, r, rfl, .nil r, ?_⟩
      rintro l' ⟨⟩ r'' hl
      exact hnext ⟨r'', hl⟩

end Reader

/-! ## 2. Completions -/

/-- The operand of a completion. -/
def Token.zero : Token := .number "0"

/-- So many commas, each with an operand behind it. -/
def furtherOperands : Nat → List Token
  | 0 => []
  | n + 1 => .mark .comma :: Token.zero :: furtherOperands n

/-- What closes the open frames after an operand. -/
def closingTokens : List Frame → List Token
  | [] => []
  | .group separators :: frames =>
    furtherOperands separators ++ .mark .rightParen :: closingTokens frames
  | .binding _ :: frames => closingTokens frames

/-- What completes a text where a reader has come to. A minus keeps the operand apart from a name. -/
def Reader.completion (r : Reader) : List Token :=
  match r.awaiting with
  | .operand => .mark .minus :: Token.zero :: closingTokens r.frames
  | .arguments f =>
    .mark .leftParen :: Token.zero :: closingTokens (.group (f.arity - 1) :: r.frames)
  | .binding _ _ | .operator => closingTokens r.frames

/-- The marks of completions. -/
def completingMarks : List Mark := [.minus, .leftParen, .comma, .rightParen]

/-- The completion does not depend on places. -/
theorem Reader.Alike.completion_eq {r s : Reader} (h : r.Alike s) :
    r.completion = s.completion := by
  have hunplaced : ∀ r : Reader, r.completion = (r.await r.awaiting.unplaced).completion := by
    rintro ⟨extent, frames, awaiting⟩
    cases awaiting <;> rfl
  rw [hunplaced r, hunplaced s, await, await, h.extent, h.frames, h.awaiting]

/-- What closes frames begins with a comma or a closing parenthesis, if it is not empty. -/
theorem head_closingTokens (frames : List Frame) : ∀ t ∈ (closingTokens frames).head?,
    t = .mark .comma ∨ t = .mark .rightParen := by
  induction frames with
  | nil =>
    intro t ht
    cases ht
  | cons frame frames ih =>
    cases frame with
    | binding name => exact ih
    | group separators =>
      cases separators with
      | zero =>
        rintro t ⟨⟩
        exact .inr rfl
      | succ n =>
        rintro t ⟨⟩
        exact .inl rfl

/-- Nothing or such a mark stands first. -/
def StartsMarked (ts : List Token) : Prop := ∀ t ∈ ts.head?, ∃ m ∈ completingMarks, t = .mark m

theorem startsMarked_closingTokens (frames : List Frame) : StartsMarked (closingTokens frames) := by
  intro t ht
  rcases head_closingTokens frames t ht with rfl | rfl
  · exact ⟨.comma, by decide, rfl⟩
  · exact ⟨.rightParen, by decide, rfl⟩

theorem startsMarked_completion (r : Reader) : StartsMarked r.completion := by
  unfold Reader.completion
  split
  · rintro t ⟨⟩
    exact ⟨.minus, by decide, rfl⟩
  · rintro t ⟨⟩
    exact ⟨.leftParen, by decide, rfl⟩
  · exact startsMarked_closingTokens _
  · exact startsMarked_closingTokens _

/-- The tokens of completions. -/
def completingTokens : List Token := Token.zero :: completingMarks.map .mark

theorem furtherOperands_subset (n : Nat) : furtherOperands n ⊆ completingTokens := by
  induction n with
  | zero => exact List.nil_subset _
  | succ n ih => exact List.cons_subset.2 ⟨by decide, List.cons_subset.2 ⟨by decide, ih⟩⟩

theorem closingTokens_subset (frames : List Frame) : closingTokens frames ⊆ completingTokens := by
  induction frames with
  | nil => exact List.nil_subset _
  | cons frame frames ih =>
    cases frame with
    | binding name => exact ih
    | group separators =>
      exact List.append_subset.2
        ⟨furtherOperands_subset separators, List.cons_subset.2 ⟨by decide, ih⟩⟩

theorem completion_subset (r : Reader) : r.completion ⊆ completingTokens := by
  unfold Reader.completion
  split
  · exact List.cons_subset.2
      ⟨by decide, List.cons_subset.2 ⟨by decide, closingTokens_subset _⟩⟩
  · exact List.cons_subset.2
      ⟨by decide, List.cons_subset.2 ⟨by decide, closingTokens_subset _⟩⟩
  · exact closingTokens_subset _
  · exact closingTokens_subset _

/-! ## 3. Completions in a text -/

/-- Marks of a completion stand alone. -/
theorem alone_of_mem_completingMarks : ∀ m ∈ completingMarks,
    Number.isNumeralChar m.char = false ∧ isNameChar m.char = false ∧ m.char.isLower = false ∧
      Token.single m.char = .mark m := by
  decide

/-- What begins with such a mark goes on with no token. -/
theorem StartsMarked.endBefore {ts : List Token} (hts : StartsMarked ts) (front : List Token) :
    EndBefore front (ts.flatMap Token.chars) := by
  intro t _ x hx
  cases ts with
  | nil => cases hx
  | cons u ts =>
    obtain ⟨m, hm, rfl⟩ := hts u rfl
    obtain ⟨hn, hname, -⟩ := alone_of_mem_completingMarks m hm
    cases hx
    exact Token.endsBefore_of_alone hn hname t

theorem tokenize_mark {m : Mark} (hm : m ∈ completingMarks) (cs : List Char) :
    tokenize (m.char :: cs) = .mark m :: tokenize cs := by
  obtain ⟨hn, -, hlower, hsingle⟩ := alone_of_mem_completingMarks m hm
  rw [tokenize_of_single hn hlower, hsingle]

/-- The operand of a completion ends where such a mark stands. -/
theorem tokenize_zero {ts : List Token} (hts : StartsMarked ts) :
    tokenize ((Token.zero :: ts).flatMap Token.chars) =
      Token.zero :: tokenize (ts.flatMap Token.chars) := by
  have hzero : tokenize Token.zero.chars = [Token.zero] := by decide +kernel
  obtain ⟨-, -, -, -, -, hfound⟩ := tokenize_eq_cons hzero
  exact hfound _ (hts.endBefore [Token.zero] Token.zero rfl)

theorem tokenize_closingTokens (frames : List Frame) :
    tokenize ((closingTokens frames).flatMap Token.chars) = closingTokens frames := by
  induction frames with
  | nil => exact tokenize.eq_1
  | cons frame frames ih =>
    cases frame with
    | binding name => exact ih
    | group separators =>
      induction separators with
      | zero => exact (tokenize_mark (m := .rightParen) (by decide) _).trans (congrArg _ ih)
      | succ n ihn =>
        refine (tokenize_mark (m := .comma) (by decide) _).trans (congrArg _ ?_)
        refine (tokenize_zero (startsMarked_closingTokens (.group n :: frames))).trans ?_
        exact congrArg _ ihn

theorem tokenize_completion (r : Reader) :
    tokenize (r.completion.flatMap Token.chars) = r.completion := by
  have hoperand : ∀ m ∈ completingMarks, ∀ frames,
      tokenize ((.mark m :: Token.zero :: closingTokens frames).flatMap Token.chars) =
        .mark m :: Token.zero :: closingTokens frames := by
    intro m hm frames
    refine (tokenize_mark hm _).trans (congrArg _ ?_)
    refine (tokenize_zero (startsMarked_closingTokens frames)).trans ?_
    rw [tokenize_closingTokens]
  unfold Reader.completion
  split
  · exact hoperand .minus (by decide) _
  · exact hoperand .leftParen (by decide) _
  · exact tokenize_closingTokens _
  · exact tokenize_closingTokens _

/-- **A completion is found behind the first tokens of any text.** -/
theorem tokenize_append_completion {cs : List Char} {front rest : List Token}
    (h : tokenize cs = front ++ rest) (r : Reader) :
    tokenize ((front ++ r.completion).flatMap Token.chars) = front ++ r.completion := by
  obtain ⟨-, -, -, -, hfound⟩ := tokenize_eq_append h
  rw [List.flatMap_append, hfound _ ((startsMarked_completion r).endBefore front),
    tokenize_completion]

/-! ## 4. Completions are read to the end -/

namespace Reader

variable {halt : Cursor} {r r' s : Reader} {l : Lexeme} {ls ls' front : List Lexeme}
  {is : List Instruction}

theorem Ends.of_stop_eq (hends : r'.Ends halt ls')
    (h : (read halt r ls).stop = (read halt r' ls').stop) : r.Ends halt ls := by
  obtain ⟨stop, hstop, hend⟩ := hends
  exact ⟨stop, h.trans hstop, hend⟩

/-- The operand of a completion is read where one has to come. -/
theorem reaches_zero (halt : Cursor) (frames : List Frame) (ls : List Lexeme) :
    ∃ x, Reaches halt ⟨.chain, frames, .operand⟩ (Token.zero.loose :: ls) [.literal x]
      ⟨.chain, frames, .operator⟩ ls := by
  have hzero : (Number.Numeral.ofText? "0".toList).isSome = true := by decide +kernel
  obtain ⟨n, hn⟩ := Option.isSome_iff_exists.1 hzero
  exact ⟨n.value, reaches_number rfl hn⟩

theorem head_loose_closingTokens (frames : List Frame) :
    ∀ l ∈ ((closingTokens frames).map Token.loose).head?,
      l.token = .mark .comma ∨ l.token = .mark .rightParen := by
  intro l hl
  rw [List.head?_map, Option.mem_def, Option.map_eq_some_iff] at hl
  obtain ⟨t, ht, rfl⟩ := hl
  exact head_closingTokens frames t ht

theorem ends_closingTokens (hhalt : halt.atEnd = true) (frames : List Frame) :
    Ends halt ⟨.chain, frames, .operator⟩ ((closingTokens frames).map Token.loose) := by
  induction frames with
  | nil => exact ⟨halt, rfl, hhalt⟩
  | cons frame frames ih =>
    cases frame with
    | group separators =>
      induction separators with
      | zero => exact ih.of_stop_eq (reaches_rightParen rfl).stop_eq
      | succ n ihn =>
        obtain ⟨x, hzero⟩ := reaches_zero halt (.group n :: frames)
          ((closingTokens (.group n :: frames)).map Token.loose)
        exact ihn.of_stop_eq ((reaches_separator rfl).trans hzero).stop_eq
    | binding name =>
      refine ih.of_stop_eq (reaches_bind fun l hl => ?_).stop_eq
      rcases head_loose_closingTokens frames l hl with hl | hl <;> rw [hl]
      · exact endsChain_comma
      · exact endsChain_rightParen

/-- **From every state of the reader of a chain, its completion is read to the end.** -/
theorem ends_completion (hhalt : halt.atEnd = true) (hr : r.extent = .chain) :
    Ends halt r (r.completion.map Token.loose) := by
  obtain ⟨extent, frames, awaiting⟩ := r
  cases hr
  cases awaiting with
  | operand =>
    obtain ⟨x, hzero⟩ := reaches_zero halt frames ((closingTokens frames).map Token.loose)
    exact (ends_closingTokens hhalt frames).of_stop_eq ((reaches_minus rfl).trans hzero).stop_eq
  | arguments f =>
    let inner : List Frame := .group (f.arity - 1) :: frames
    obtain ⟨x, hzero⟩ := reaches_zero halt inner ((closingTokens inner).map Token.loose)
    have hopen : turn ⟨.chain, frames, .arguments f⟩ (Token.loose (.mark .leftParen)) =
        ⟨[⟨nowhere, .openScope⟩], .next ⟨.chain, inner, .operand⟩⟩ := rfl
    exact (ends_closingTokens hhalt inner).of_stop_eq ((reaches_of_turn hopen).trans hzero).stop_eq
  | binding name start =>
    refine (ends_closingTokens hhalt frames).of_stop_eq (reaches_pending fun l hl => ?_).stop_eq
    rcases head_loose_closingTokens frames l hl with hl | hl <;> rw [hl] <;> decide
  | operator => exact ends_closingTokens hhalt frames

/-- **What a reader went over can be completed**, wherever its tokens stand. -/
theorem GoesOver.ends (h : r.GoesOver front r') (hr : r.extent = .chain)
    (hhalt : halt.atEnd = true) :
    Ends halt r ((front.map Lexeme.token ++ r'.completion).map Token.loose) := by
  obtain ⟨s, hover, halike⟩ := h.exists_alike (.refl r) (map_token_loose _).symm
  have hs : s.extent = .chain := hover.extent_eq.trans hr
  rw [List.map_append, halike.completion_eq]
  exact (ends_completion hhalt hs).of_stop_eq (hover.stop_eq _)

end Reader

/-! ## 5. Completions do not borrow -/

namespace Awaiting

variable {a : Awaiting} {waiting : Bool} {ts us vs : List Token}

/-- Without a name, no function is overtaken. -/
theorem borrows_of_nameless (a : Awaiting) (waiting : Bool) (h : ∀ t ∈ ts, t.isName = false) :
    a.borrows waiting ts = false := by
  induction ts generalizing a waiting with
  | nil => exact borrows_nil a waiting
  | cons t ts ih =>
    obtain ⟨ht, hts⟩ := List.forall_mem_cons.1 h
    have ih := fun a waiting => ih a waiting hts
    cases a with
    | operand =>
      cases t with
      | name s => cases ht
      | number lexeme => simp only [borrows]
      | foreign x => simp only [borrows]
      | mark m => cases m <;> simp only [borrows, ih]
    | arguments f => simp only [borrows, ih, Bool.and_false]
    | binding name start => simp only [borrows, ih, Bool.and_false]
    | operator => simp only [borrows]

/-- **Whether the first tokens borrow, tokens without a name do not change.** -/
theorem borrows_append (h : a.borrows waiting (ts ++ us) = false)
    (hvs : ∀ t ∈ vs, t.isName = false) : a.borrows waiting (ts ++ vs) = false := by
  induction ts generalizing a waiting with
  | nil => exact borrows_of_nameless a waiting hvs
  | cons t ts ih =>
    rw [List.cons_append] at h ⊢
    cases a with
    | operand =>
      cases t with
      | name s =>
        simp only [borrows] at h ⊢
        cases hf : Function.ofName? s with
        | none =>
          rw [hf] at h
          exact ih h
        | some f =>
          rw [hf] at h
          simp only [Bool.or_eq_false_iff] at h ⊢
          exact ⟨h.1, ih h.2⟩
      | number lexeme => simp only [borrows]
      | foreign x => simp only [borrows]
      | mark m =>
        cases m with
        | comma | minus | leftParen =>
          simp only [borrows] at h ⊢
          exact ih h
        | _ => simp only [borrows]
    | arguments f =>
      simp only [borrows, Bool.and_eq_false_iff] at h ⊢
      exact h.imp_right ih
    | binding name start =>
      simp only [borrows, Bool.and_eq_false_iff] at h ⊢
      exact h.imp_right ih
    | operator => simp only [borrows]

end Awaiting

theorem isName_of_mem_completion {r : Reader} {t : Token} (h : t ∈ r.completion) :
    t.isName = false := by
  have hall : ∀ t ∈ completingTokens, t.isName = false := by decide
  exact hall t (completion_subset r h)

end DeskCalculator
