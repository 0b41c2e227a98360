import DeskCalculator.Proofs.Completion
import DeskCalculator.Proofs.Course
import DeskCalculator.Proofs.Faults
import DeskCalculator.Proofs.Grammar

/-!
# What is accepted

A reader accepts the texts of the grammar and no others. This file fixes

* `Reader.Ends` -- reading comes to the end of the text without a refusal;
* `Continues` -- the tokens that may stand after a primary inside the open frames;
* `Reader.derivable_of_ends` -- from every state, what is read to the end is what the grammar lets
  stand there;
* `Derives.reaches` -- what the grammar derives, a reader gets past.

Main statement: **lenient evaluation succeeds on the texts of the grammar and on no others**
(`accepts_iff_derives`).
-/

namespace DeskCalculator

/-! ## 1. Reading to the end -/

/-- Reading comes to the end of the text. -/
def Reader.Ends (halt : Cursor) (r : Reader) (ls : List Lexeme) : Prop :=
  ∃ stop, (read halt r ls).stop = .ok stop ∧ stop.atEnd = true

/-- The tokens that may stand after a primary, up to the final terminator, inside these frames. -/
inductive Continues : List Frame → List Token → Prop where
  | done : Continues [] [.mark .semicolon]
  | further {frames : List Frame} {m : Mark} {op : BinaryOp} {ts us : List Token}
      (hm : m.between? = some op) (h : Derives .primary ts us) (h' : Continues frames us) :
      Continues frames (.mark m :: ts)
  | close {frames : List Frame} {ts us : List Token} (h : Derives .factors ts us)
      (h' : Continues frames us) : Continues (.group 0 :: frames) (.mark .rightParen :: ts)
  | separate {frames : List Frame} {n : Nat} {ts us : List Token} (h : Derives .primary ts us)
      (h' : Continues (.group n :: frames) us) :
      Continues (.group (n + 1) :: frames) (.mark .comma :: ts)
  | bind {frames : List Frame} {name : String} {ts : List Token} (h : Continues frames ts) :
      Continues (.binding name :: frames) ts

/-- The tokens that may stand, up to the final terminator, where a reader waits. -/
def Awaiting.Derivable (frames : List Frame) : Awaiting → List Token → Prop
  | .operand, ts => ∃ us, Derives .primary ts us ∧ Continues frames us
  | .arguments f, ts => ∃ us vs, ts = .mark .leftParen :: us ∧ Derives .primary us vs ∧
      Continues (.group (f.arity - 1) :: frames) vs
  | .binding name _, ts =>
      (∃ us vs, ts = .mark .equals :: us ∧ Derives .primary us vs ∧
        Continues (.binding name :: frames) vs) ∨
      ∃ us, Derives .factors ts us ∧ Continues frames us
  | .operator, ts => ∃ us, Derives .factors ts us ∧ Continues frames us

/-- The frames from the innermost open group on. -/
def groupFrames : Option (Nat × List Frame) → List Frame
  | none => []
  | some (n, frames) => .group n :: frames

namespace Continues

variable {frames frames' : List Frame} {ts : List Token} {n : Nat} {name : String}

/-- Outside all frames, an expression goes on up to the end. -/
theorem of_nil (h : Continues [] ts) : Derives .further ts [.mark .semicolon] := by
  generalize hf : ([] : List Frame) = all at h
  induction h with
  | done => exact .noFurther
  | further hm h _ ih => exact .further hm h (ih hf)
  | close => cases hf
  | separate => cases hf
  | bind => cases hf

/-- Inside an assignment, its value goes on, and then what is around it. -/
theorem of_binding (h : Continues (.binding name :: frames) ts) :
    ∃ us, Derives .further ts us ∧ Continues frames us := by
  generalize hf : Frame.binding name :: frames = all at h
  induction h with
  | done => cases hf
  | further hm h _ ih =>
    obtain ⟨vs, hd, hc⟩ := ih hf
    exact ⟨vs, .further hm h hd, hc⟩
  | close => cases hf
  | separate => cases hf
  | bind h =>
    cases hf
    exact ⟨_, .noFurther, h⟩

/-- Inside the last expression of a group, it goes on up to the parenthesis. -/
theorem of_group (h : Continues (.group 0 :: frames) ts) :
    ∃ us vs, Derives .further ts (.mark .rightParen :: us) ∧ Derives .factors us vs ∧
      Continues frames vs := by
  generalize hf : Frame.group 0 :: frames = all at h
  induction h with
  | done => cases hf
  | further hm h _ ih =>
    obtain ⟨us, vs, hd, hd', hc⟩ := ih hf
    exact ⟨us, vs, .further hm h hd, hd', hc⟩
  | close h h' =>
    cases hf
    exact ⟨_, _, .noFurther, h, h'⟩
  | separate => cases hf
  | bind => cases hf

/-- Inside an earlier expression of a group, it goes on up to the comma. -/
theorem of_separated (h : Continues (.group (n + 1) :: frames) ts) :
    ∃ us vs, Derives .further ts (.mark .comma :: us) ∧ Derives .primary us vs ∧
      Continues (.group n :: frames) vs := by
  generalize hf : Frame.group (n + 1) :: frames = all at h
  induction h with
  | done => cases hf
  | further hm h _ ih =>
    obtain ⟨us, vs, hd, hd', hc⟩ := ih hf
    exact ⟨us, vs, .further hm h hd, hd', hc⟩
  | close => cases hf
  | separate h h' =>
    cases hf
    exact ⟨_, _, .noFurther, h, h'⟩
  | bind => cases hf

/-- Assignments end where the innermost group or the text does. -/
theorem of_closeChain (extent : Extent) (c : Cursor)
    (h : Continues (groupFrames (Reader.closeChain extent c frames).2) ts) :
    Continues frames ts := by
  induction frames with
  | nil => exact h
  | cons frame frames ih =>
    cases frame with
    | group separators => exact h
    | binding name => exact .bind (ih h)

end Continues

/-! ## 2. What is read is derived -/

namespace Reader

variable {halt : Cursor} {r r' : Reader} {l : Lexeme} {ls : List Lexeme} {ts : List Token}

/-- Reading that comes to the end goes on after each token that starts before the end. -/
theorem Ends.exists_next_of_start (h : Ends halt r (l :: ls)) (hl : l.start.atEnd = false) :
    ∃ r', (r.turn l).move = .next r' ∧ Ends halt r' ls := by
  obtain ⟨stop, hstop, hend⟩ := h
  rw [read] at hstop
  generalize r.turn l = t at hstop
  obtain ⟨code, move⟩ := t
  cases move with
  | next r' => exact ⟨r', rfl, stop, hstop, hend⟩
  | rest =>
    cases hstop
    rw [hl] at hend
    cases hend
  | refuse refusal => cases hstop

theorem Ends.exists_next (h : Ends halt r (l :: ls)) (hl : l.Proper) :
    ∃ r', (r.turn l).move = .next r' ∧ Ends halt r' ls := h.exists_next_of_start hl.atEnd

/-- A token where an operand comes starts a core, or comes before one. -/
theorem derivable_of_operandTurn (hl : l.Proper) (h : (r.operandTurn l).move = .next r')
    (hd : r'.awaiting.Derivable r'.frames ts) :
    (∃ us, Derives .core (l.token :: ts) us ∧ Continues r.frames us) ∨
      ((l.token = .mark .minus ∨ l.token = .mark .comma) ∧
        ∃ us, Derives .primary (l.token :: ts) us ∧ Continues r.frames us) := by
  unfold operandTurn at h
  cases ht : l.token with
  | number lexeme =>
    rw [ht] at h
    cases hn : Number.Numeral.ofText? lexeme.toList with
    | none =>
      simp only [hn] at h
      cases h
    | some n =>
      simp only [hn, await, Move.next.injEq] at h
      subst h
      obtain ⟨us, hf, hc⟩ := hd
      have hnum : IsNumeral lexeme.toList := by
        refine (isSome_ofText?_iff (hl.number lexeme ht)).1 ?_
        rw [hn]
        rfl
      exact .inl ⟨us, .core (.number hnum) hf, hc⟩
  | name name =>
    rw [ht] at h
    cases hf : Function.ofName? name with
    | none =>
      simp only [hf, await, Move.next.injEq] at h
      subst h
      rcases hd with ⟨us, vs, rfl, hp, hc⟩ | ⟨us, hfac, hc⟩
      · obtain ⟨ws, hfur, hc⟩ := hc.of_binding
        exact .inl ⟨ws, .assign hf (.expression hp hfur), hc⟩
      · exact .inl ⟨us, .core (.name hf) hfac, hc⟩
    | some f =>
      simp only [hf, await, Move.next.injEq] at h
      subst h
      by_cases ha : f.arity = 1
      · simp only [ha, if_true] at hd
        obtain ⟨us, hp, hc⟩ := hd
        exact .inl ⟨us, .call hf ha hp, hc⟩
      · simp only [ha, if_false] at hd
        have ha : f.arity = 2 := (Function.exists_binary ha).1
        obtain ⟨us, vs, rfl, hp, hc⟩ := hd
        rw [ha] at hc
        obtain ⟨ws, xs, hfur, hp', hc⟩ := hc.of_separated
        obtain ⟨ys, zs, hfur', hfac, hc⟩ := hc.of_group
        exact .inl ⟨zs, .core (.pair hf ha (.expression hp hfur) (.expression hp' hfur')) hfac, hc⟩
  | foreign c =>
    rw [ht] at h
    cases h
  | mark m =>
    rw [ht] at h
    cases m with
    | minus =>
      simp only [await, Move.next.injEq] at h
      subst h
      obtain ⟨us, hp, hc⟩ := hd
      exact .inr ⟨.inl rfl, us, .minus hp, hc⟩
    | comma =>
      simp only [await, Move.next.injEq] at h
      subst h
      obtain ⟨us, hp, hc⟩ := hd
      exact .inr ⟨.inr rfl, us, .comma hp, hc⟩
    | leftParen =>
      simp only [enter, Move.next.injEq] at h
      subst h
      obtain ⟨us, hp, hc⟩ := hd
      obtain ⟨vs, ws, hfur, hfac, hc⟩ := hc.of_group
      exact .inl ⟨ws, .core (.group (.expression hp hfur)) hfac, hc⟩
    | _ => cases h

/-- A mark that ends a chain stands where the innermost group needs it. -/
theorem continues_of_closingTurn {m : Mark} (h : (r.closingTurn l m).move = .next r')
    (hd : r'.awaiting.Derivable r'.frames ts) : Continues r.frames (.mark m :: ts) := by
  unfold closingTurn at h
  refine Continues.of_closeChain r.extent l.start ?_
  generalize closeChain r.extent l.start r.frames = closed at h
  obtain ⟨code, group⟩ := closed
  match group with
  | none => cases h
  | some (0, frames) =>
    by_cases hm : m = .rightParen
    · simp only [hm, if_true, Move.next.injEq] at h
      subst h
      obtain ⟨us, hf, hc⟩ := hd
      rw [hm]
      exact .close hf hc
    · simp only [hm, if_false] at h
      cases h
  | some (n + 1, frames) =>
    by_cases hm : m = .comma
    · simp only [hm, if_true, Move.next.injEq] at h
      subst h
      obtain ⟨us, hp, hc⟩ := hd
      rw [hm]
      exact .separate hp hc
    · simp only [hm, if_false] at h
      cases h

/-- A token where a further factor comes starts a core. -/
theorem derivable_of_impliedTurn (hl : l.Proper) (h : (r.impliedTurn l).move = .next r')
    (ht : l.token = .mark .leftParen ∨ ∀ m, l.token ≠ .mark m)
    (hd : r'.awaiting.Derivable r'.frames ts) :
    Awaiting.operator.Derivable r.frames (l.token :: ts) := by
  rcases derivable_of_operandTurn hl h hd with ⟨us, hcore, hc⟩ | ⟨hm, -⟩
  · exact ⟨us, .factor hcore, hc⟩
  · rcases ht with ht | ht
    · rw [ht] at hm
      simp at hm
    · rcases hm with hm | hm
      · exact absurd hm (ht _)
      · exact absurd hm (ht _)

/-- A token after an operand. -/
theorem derivable_of_operatorTurn (hl : l.Proper) (h : (r.operatorTurn l).move = .next r')
    (hd : r'.awaiting.Derivable r'.frames ts) :
    Awaiting.operator.Derivable r.frames (l.token :: ts) := by
  unfold operatorTurn at h
  cases ht : l.token with
  | number lexeme =>
    rw [ht] at h
    rw [← ht]
    exact derivable_of_impliedTurn hl h (.inr fun m hm => by rw [ht] at hm; cases hm) hd
  | name name =>
    rw [ht] at h
    rw [← ht]
    exact derivable_of_impliedTurn hl h (.inr fun m hm => by rw [ht] at hm; cases hm) hd
  | foreign c =>
    rw [ht] at h
    rw [← ht]
    exact derivable_of_impliedTurn hl h (.inr fun m hm => by rw [ht] at hm; cases hm) hd
  | mark m =>
    rw [ht] at h
    simp only at h
    split at h
    · next op hop =>
      obtain ⟨rfl, -⟩ := Mark.eq_bang_of_after? hop
      simp only [await, Move.next.injEq] at h
      subst h
      obtain ⟨us, hf, hc⟩ := hd
      exact ⟨us, .bang hf, hc⟩
    · next op _ hop =>
      split at h
      · cases h
      · simp only [await, Move.next.injEq] at h
        subst h
        obtain ⟨us, hp, hc⟩ := hd
        exact ⟨_, .noFactor, .further hop hp hc⟩
    · split at h
      · next hm =>
        rw [hm] at ht
        rw [hm, ← ht]
        exact derivable_of_impliedTurn hl h (.inl ht) hd
      · exact ⟨_, .noFactor, continues_of_closingTurn h hd⟩

/-- Every turn leads from what the grammar lets stand after it to what it lets stand before. -/
theorem derivable_of_turn (hl : l.Proper) (h : (r.turn l).move = .next r')
    (hd : r'.awaiting.Derivable r'.frames ts) :
    r.awaiting.Derivable r.frames (l.token :: ts) := by
  unfold turn at h
  cases ha : r.awaiting with
  | operand =>
    rw [ha] at h
    rcases derivable_of_operandTurn hl h hd with ⟨us, hcore, hc⟩ | ⟨-, us, hp, hc⟩
    · exact ⟨us, .primary hcore, hc⟩
    · exact ⟨us, hp, hc⟩
  | operator =>
    rw [ha] at h
    exact derivable_of_operatorTurn hl h hd
  | arguments f =>
    rw [ha] at h
    unfold argumentsTurn at h
    simp only at h
    split at h
    · next hp =>
      simp only [enter, Move.next.injEq] at h
      subst h
      obtain ⟨us, hprim, hc⟩ := hd
      exact ⟨ts, us, by rw [hp], hprim, hc⟩
    · cases h
  | binding name start =>
    rw [ha] at h
    unfold bindingTurn at h
    simp only at h
    split at h
    · next he =>
      simp only [enter, Move.next.injEq] at h
      subst h
      obtain ⟨us, hprim, hc⟩ := hd
      exact .inl ⟨ts, us, by rw [he], hprim, hc⟩
    · exact .inr (derivable_of_operatorTurn hl h hd)

/-- The end of the tokens. -/
theorem derivable_of_finish (h : Ends halt r []) :
    halt.atEnd = true ∧ r.awaiting.Derivable r.frames [.mark .semicolon] := by
  obtain ⟨stop, hstop, hend⟩ := h
  have hchain : (r.finishChain halt).stop = .ok stop →
      halt.atEnd = true ∧ Continues r.frames [.mark .semicolon] := by
    intro hstop
    refine ⟨?_, Continues.of_closeChain r.extent halt ?_⟩
    all_goals
      unfold finishChain at hstop
      generalize closeChain r.extent halt r.frames = closed at hstop ⊢
      obtain ⟨code, group⟩ := closed
      cases group with
      | none =>
        cases hstop
        first | exact hend | exact .done
      | some group => cases hstop
  have hstop : (r.finish halt).stop = .ok stop := hstop
  unfold finish at hstop
  cases ha : r.awaiting with
  | operand =>
    rw [ha] at hstop
    cases hstop
  | arguments f =>
    rw [ha] at hstop
    cases hstop
  | binding name start =>
    rw [ha] at hstop
    obtain ⟨he, hc⟩ := hchain hstop
    exact ⟨he, .inr ⟨_, .noFactor, hc⟩⟩
  | operator =>
    rw [ha] at hstop
    obtain ⟨he, hc⟩ := hchain hstop
    exact ⟨he, _, .noFactor, hc⟩

/-- **What is read to the end, from any state, is what the grammar lets stand there**, and the text
    has no terminator inside. -/
theorem derivable_of_ends (h : Ends halt r ls) (hls : ∀ l ∈ ls, l.Proper) :
    halt.atEnd = true ∧ r.awaiting.Derivable r.frames (closedTokens ls) := by
  induction ls generalizing r with
  | nil => exact derivable_of_finish h
  | cons l ls ih =>
    have hl := hls l List.mem_cons_self
    obtain ⟨r', hnext, hends⟩ := h.exists_next hl
    obtain ⟨he, hd⟩ := ih hends fun l hl => hls l (List.mem_cons_of_mem _ hl)
    exact ⟨he, derivable_of_turn hl hnext hd⟩

end Reader

/-! ## 3. What is derived is read -/

/-- Where a phrase begins. -/
def Phrase.awaiting : Phrase → Awaiting
  | .expression | .primary | .core | .value => .operand
  | .further | .factors => .operator

/-- The frames of some assignments. -/
def bindings (names : List String) : List Frame := names.map .binding

/-- A reader gets past a phrase at the head of some lexemes; assignments at its end may stay
    open. -/
def Gets (halt : Cursor) (p : Phrase) (ls : List Lexeme) (us : List Token) : Prop :=
  ∀ frames, ∃ is names ls', closedTokens ls' = us ∧
    Reader.Reaches halt ⟨.chain, frames, p.awaiting⟩ ls is
      ⟨.chain, bindings names ++ frames, .operator⟩ ls' ∧ ls' <:+ ls

namespace Reader

variable {ls : List Lexeme}

/-- Assignments end where a chain ends. -/
theorem reaches_bindings (halt : Cursor) (frames : List Frame) (names : List String)
    (h : ∀ l ∈ ls.head?, l.token.EndsChain) :
    ∃ is, Reaches halt ⟨.chain, bindings names ++ frames, .operator⟩ ls is
      ⟨.chain, frames, .operator⟩ ls := by
  induction names with
  | nil => exact ⟨[], .refl _ _ _⟩
  | cons name names ih =>
    obtain ⟨is, hr⟩ := ih
    exact ⟨_, (reaches_bind h).trans hr⟩

end Reader

namespace Gets

variable {halt : Cursor} {p q r : Phrase} {ls ls' : List Lexeme} {us vs : List Token}

/-- A phrase that goes on with another one. -/
theorem andThen (h : Gets halt p ls us)
    (h' : ∀ ls', closedTokens ls' = us → ls' <:+ ls → Gets halt q ls' vs)
    (hq : q.awaiting = .operator) (hr : r.awaiting = p.awaiting) : Gets halt r ls vs := by
  intro frames
  obtain ⟨is, names, ls₁, hls₁, hway, hs⟩ := h frames
  obtain ⟨is', names', ls₂, hls₂, hway', hs'⟩ := h' ls₁ hls₁ hs (bindings names ++ frames)
  rw [hq] at hway'
  refine ⟨is ++ is', names' ++ names, ls₂, hls₂, ?_, hs'.trans hs⟩
  rw [hr, bindings, List.map_append, List.append_assoc]
  exact hway.trans hway'

/-- A phrase after what a reader gets past on its own. -/
theorem before (h : Gets halt q ls' us) (hs : ls' <:+ ls)
    (hway : ∀ frames, ∃ is, Reader.Reaches halt ⟨.chain, frames, p.awaiting⟩ ls is
      ⟨.chain, frames, q.awaiting⟩ ls') : Gets halt p ls us := by
  intro frames
  obtain ⟨is, hway⟩ := hway frames
  obtain ⟨is', names, ls₁, hls₁, hway', hs'⟩ := h frames
  exact ⟨is ++ is', names, ls₁, hls₁, hway.trans hway', hs'.trans hs⟩

/-- An expression in a frame that a mark ends. -/
theorem toMark {m : Mark} (h : Gets halt .expression ls (.mark m :: us))
    (hm : m ≠ .semicolon) (he : Token.EndsChain (.mark m)) (frames : List Frame) :
    ∃ is l ls', l.token = .mark m ∧ closedTokens ls' = us ∧ (l :: ls') <:+ ls ∧
      Reader.Reaches halt ⟨.chain, frames, .operand⟩ ls is ⟨.chain, frames, .operator⟩
        (l :: ls') := by
  obtain ⟨is, names, ls₁, hls₁, hway, hs⟩ := h frames
  obtain ⟨l, ls', rfl, hl, hls'⟩ := closedTokens_eq_cons hls₁ fun e => hm (Token.mark.inj e)
  have hend : ∀ l' ∈ (l :: ls').head?, l'.token.EndsChain := by
    intro l' hl'
    cases hl'
    rw [hl]
    exact he
  obtain ⟨is', hway'⟩ := Reader.reaches_bindings halt frames names hend
  exact ⟨is ++ is', l, ls', hl, hls', hs, hway.trans hway'⟩

end Gets

theorem endsChain_rightParen : Token.EndsChain (.mark .rightParen) :=
  ⟨.rightParen, rfl, rfl, rfl, by decide⟩

theorem endsChain_comma : Token.EndsChain (.mark .comma) := ⟨.comma, rfl, rfl, rfl, by decide⟩

/-- **What the grammar derives, a reader gets past.** The induction is on the derivation; an equals
    sign may not follow, as it would bind a name that ends the phrase. -/
theorem Derives.gets {p : Phrase} {ts us : List Token} (h : Derives p ts us) (halt : Cursor)
    {ls : List Lexeme} (hts : closedTokens ls = ts) (hls : ∀ l ∈ ls, l.Proper)
    (hu : us.head? ≠ some (.mark .equals)) : Gets halt p ls us := by
  induction h generalizing ls with
  | expression h h' ih ih' =>
    have hnext : ∀ ls', closedTokens ls' = _ → ls' <:+ ls → Gets halt .further ls' _ :=
      fun ls' hls' hs => ih' hls' (fun l hl => hls l (hs.subset hl)) hu
    exact (ih hts hls (h'.head?_ne_equals hu)).andThen hnext rfl rfl
  | noFurther => exact fun frames => ⟨[], [], ls, hts, .refl _ _ _, List.suffix_refl ls⟩
  | @further m op _ _ _ hm h h' ih ih' =>
    have hne : Token.mark m ≠ .mark .semicolon := by
      intro e
      cases e
      cases hm
    obtain ⟨l, ls', rfl, hl, hls'⟩ := closedTokens_eq_cons hts hne
    have hproper : ∀ l ∈ ls', l.Proper := fun l hl => hls l (List.mem_cons_of_mem _ hl)
    have hnext : ∀ ls'', closedTokens ls'' = _ → ls'' <:+ ls' → Gets halt .further ls'' _ :=
      fun ls'' hls'' hs => ih' hls'' (fun l hl => hproper l (hs.subset hl)) hu
    have hrest : Gets halt .expression ls' _ :=
      (ih hls' hproper (h'.head?_ne_equals hu)).andThen hnext rfl rfl
    exact hrest.before (List.suffix_cons l ls') fun frames => ⟨_, Reader.reaches_between hl hm⟩
  | minus h ih =>
    obtain ⟨l, ls', rfl, hl, hls'⟩ := closedTokens_eq_cons hts (by simp)
    refine (ih hls' (fun l hl => hls l (List.mem_cons_of_mem _ hl)) hu).before
      (List.suffix_cons l ls') fun frames => ⟨_, Reader.reaches_minus hl⟩
  | comma h ih =>
    obtain ⟨l, ls', rfl, hl, hls'⟩ := closedTokens_eq_cons hts (by simp)
    refine (ih hls' (fun l hl => hls l (List.mem_cons_of_mem _ hl)) hu).before
      (List.suffix_cons l ls') fun frames => ⟨_, Reader.reaches_comma hl⟩
  | primary h ih => exact ih hts hls hu
  | core h h' ih ih' =>
    have hnext : ∀ ls', closedTokens ls' = _ → ls' <:+ ls → Gets halt .factors ls' _ :=
      fun ls' hls' hs => ih' hls' (fun l hl => hls l (hs.subset hl)) hu
    exact (ih hts hls (h'.head?_ne_equals hu)).andThen hnext rfl rfl
  | @assign name _ _ hf h ih =>
    obtain ⟨l, ls₁, rfl, hl, hls₁⟩ := closedTokens_eq_cons hts (by simp)
    obtain ⟨l', ls', rfl, hl', hls'⟩ := closedTokens_eq_cons hls₁ (by simp)
    have hproper : ∀ l ∈ ls', l.Proper := fun l hl =>
      hls l (List.mem_cons_of_mem _ (List.mem_cons_of_mem _ hl))
    intro frames
    obtain ⟨is, names, ls₂, hls₂, hway, hs⟩ := ih hls' hproper hu (.binding name :: frames)
    have hframes : bindings (names ++ [name]) ++ frames =
        bindings names ++ .binding name :: frames := by
      rw [bindings, List.map_append, List.append_assoc]
      rfl
    have hall := (Reader.reaches_assign hl hf hl').trans hway
    rw [← hframes] at hall
    exact ⟨_, names ++ [name], ls₂, hls₂, hall,
      hs.trans ((List.suffix_cons l' ls').trans (List.suffix_cons l _))⟩
  | call hf ha h ih =>
    obtain ⟨l, ls', rfl, hl, hls'⟩ := closedTokens_eq_cons hts (by simp)
    refine (ih hls' (fun l hl => hls l (List.mem_cons_of_mem _ hl)) hu).before
      (List.suffix_cons l ls') fun frames => ⟨_, Reader.reaches_call hl hf ha⟩
  | bang h ih =>
    obtain ⟨l, ls', rfl, hl, hls'⟩ := closedTokens_eq_cons hts (by simp)
    refine (ih hls' (fun l hl => hls l (List.mem_cons_of_mem _ hl)) hu).before
      (List.suffix_cons l ls') fun frames => ⟨_, Reader.reaches_bang hl⟩
  | noFactor => exact fun frames => ⟨[], [], ls, hts, .refl _ _ _, List.suffix_refl ls⟩
  | factor h ih =>
    obtain ⟨t, rest, rfl, hstart⟩ := h.starts (.inl rfl)
    have hne : t ≠ .mark .semicolon := by
      intro he
      subst he
      rcases hstart with e | e
      · cases e
      · exact e _ rfl
    obtain ⟨l, ls', rfl, hl, hls'⟩ := closedTokens_eq_cons hts hne
    rw [← hl] at hstart
    exact (ih hts hls hu).before (List.suffix_refl _) fun frames =>
      ⟨_, Reader.reaches_factor hstart⟩
  | number hn =>
    obtain ⟨l, ls', rfl, hl, hls'⟩ := closedTokens_eq_cons hts (by simp)
    have hsome := (isSome_ofText?_iff ((hls l List.mem_cons_self).number _ hl)).2 hn
    obtain ⟨n, hn⟩ := Option.isSome_iff_exists.1 hsome
    exact fun frames => ⟨_, [], ls', hls', Reader.reaches_number hl hn, List.suffix_cons l ls'⟩
  | name hf =>
    obtain ⟨l, ls', rfl, hl, hls'⟩ := closedTokens_eq_cons hts (by simp)
    have he : ∀ l' ∈ ls'.head?, l'.token ≠ .mark .equals := by
      intro l' hl' he
      cases ls' with
      | nil => cases hl'
      | cons l'' ls'' =>
        cases hl'
        rw [← hls', closedTokens_cons, he] at hu
        exact hu rfl
    exact fun frames => ⟨_, [], ls', hls', Reader.reaches_name hl hf he, List.suffix_cons l ls'⟩
  | group h ih =>
    obtain ⟨l, ls', rfl, hl, hls'⟩ := closedTokens_eq_cons hts (by simp)
    have hget := ih hls' (fun l hl => hls l (List.mem_cons_of_mem _ hl)) (by simp)
    intro frames
    obtain ⟨is, l₁, ls₁, hl₁, hls₁, hs, hway⟩ :=
      hget.toMark (by decide) endsChain_rightParen (.group 0 :: frames)
    have hall := ((Reader.reaches_leftParen hl).trans hway).trans (Reader.reaches_rightParen hl₁)
    exact ⟨_, [], ls₁, hls₁, hall,
      (List.suffix_cons l₁ ls₁).trans (hs.trans (List.suffix_cons l ls'))⟩
  | pair hf ha h h' ih ih' =>
    obtain ⟨l, ls₁, rfl, hl, hls₁⟩ := closedTokens_eq_cons hts (by simp)
    obtain ⟨l', ls', rfl, hl', hls'⟩ := closedTokens_eq_cons hls₁ (by simp)
    have hproper : ∀ l ∈ ls', l.Proper := fun l hl =>
      hls l (List.mem_cons_of_mem _ (List.mem_cons_of_mem _ hl))
    have hget := ih hls' hproper (by simp)
    intro frames
    obtain ⟨is, l₂, ls₂, hl₂, hls₂, hs₂, hway⟩ :=
      hget.toMark (by decide) endsChain_comma (.group 1 :: frames)
    have hs₂ : ls₂ <:+ ls' := (List.suffix_cons l₂ ls₂).trans hs₂
    have hget' := ih' hls₂ (fun l hl => hproper l (hs₂.subset hl)) (by simp)
    obtain ⟨is', l₃, ls₃, hl₃, hls₃, hs₃, hway'⟩ :=
      hget'.toMark (by decide) endsChain_rightParen (.group 0 :: frames)
    have hall := (((Reader.reaches_pair hl hf ha hl').trans hway).trans
      (Reader.reaches_separator hl₂)).trans (hway'.trans (Reader.reaches_rightParen hl₃))
    have hs₃ : ls₃ <:+ ls' := (List.suffix_cons l₃ ls₃).trans (hs₃.trans hs₂)
    exact ⟨_, [], ls₃, hls₃, hall,
      hs₃.trans ((List.suffix_cons l' ls').trans (List.suffix_cons l _))⟩

/-! ## 4. Every line -/

/-- Tokens that make up an expression are read to the end. -/
theorem ends_of_derives {ls : List Lexeme} {halt : Cursor} (hls : ∀ l ∈ ls, l.Proper)
    (h : Derives .expression (closedTokens ls) [.mark .semicolon]) (he : halt.atEnd = true) :
    Reader.Ends halt ⟨.chain, [], .operand⟩ ls := by
  obtain ⟨is, names, ls', hls', hway, -⟩ := h.gets halt rfl hls (by simp) []
  have hnil : ls' = [] := closedTokens_eq_semicolon hls'
  subst hnil
  have hend : ∀ l ∈ ([] : List Lexeme).head?, l.token.EndsChain := by
    intro l hl
    cases hl
  obtain ⟨is', hway'⟩ := Reader.reaches_bindings halt [] names hend
  refine ⟨halt, ?_, he⟩
  have hstop := (hway.trans hway').stop_eq
  exact hstop

/-- **Reading comes to the end of an expression, and of nothing else.** -/
theorem ends_iff {ls : List Lexeme} {halt : Cursor} (hls : ∀ l ∈ ls, l.Proper) :
    Reader.Ends halt ⟨.chain, [], .operand⟩ ls ↔
      halt.atEnd = true ∧ Derives .expression (closedTokens ls) [.mark .semicolon] := by
  constructor
  · intro h
    obtain ⟨he, us, hp, hc⟩ := Reader.derivable_of_ends h hls
    exact ⟨he, .expression hp hc.of_nil⟩
  · intro h
    rcases h with ⟨he, h⟩
    exact ends_of_derives hls h he

/-- The tokens of a line are no expression if a terminator stands inside. -/
theorem atEnd_of_derives {line : String} {source : Source} (hs : Source.ofLine line = .ok source)
    (h : Derives .expression (lineTokens line) [.mark .semicolon]) :
    source.start.halt.atEnd = true := by
  obtain ⟨ws, hws, hsemi, -⟩ := h.exists_consumed
  have hrest := Cursor.rest_halt source.start
  rw [lineTokens_eq hs] at hws
  cases hr : source.start.halt.rest with
  | nil =>
    rw [Cursor.atEnd, hr]
    rfl
  | cons x more =>
    exfalso
    have hx : x = terminator := by
      have hmem : x ∈ (source.start.rest.dropWhile (· ≠ terminator)).head? := by
        rw [← hrest, hr]
        rfl
      simpa using Lists.eq_false_of_mem_head?_dropWhile hmem
    have hne : tokenize (more ++ [terminator]) ≠ [] := by
      intro hnil
      cases more with
      | nil =>
        rw [List.nil_append, tokenize_terminator] at hnil
        cases hnil
      | cons y more =>
        rw [List.cons_append, tokenize] at hnil
        split at hnil
        · cases hnil
        · split at hnil <;> cases hnil
    rw [hr, hx, List.cons_append, tokenize_terminator] at hws
    have hdrop := congrArg List.dropLast hws
    rw [List.dropLast_concat, List.dropLast_append_cons, List.dropLast_cons_of_ne_nil hne] at hdrop
    refine hsemi ?_
    rw [← hdrop]
    exact List.mem_append_right _ List.mem_cons_self

/-- A line of which nothing is left is no expression. -/
theorem not_derives_of_ofLine_error {line : String} {err : EvalError}
    (h : Source.ofLine line = .error err) :
    ¬ Derives .expression (lineTokens line) [.mark .semicolon] := by
  intro hd
  obtain ⟨ws, hws, -, hne⟩ := hd.exists_consumed
  have hbody : Source.bodyOf line.toList = [] := by
    by_contra hb
    unfold Source.ofLine at h
    rw [dif_neg hb] at h
    cases h
  rw [lineTokens, hbody, List.nil_append, tokenize_terminator, tokenize] at hws
  have hlen := congrArg List.length hws
  rw [List.length_append, List.length_singleton] at hlen
  have hnil : ws = [] := List.length_eq_zero_iff.1 (by omega)
  simp [hnil] at hne

/-- **Lenient evaluation succeeds on the texts of the grammar and on no others**, if no comma stands
    directly after the name of a function of one argument. -/
theorem accepts_iff_derives (c : Calculator) (line : String) (hl : c.settings.strict = false)
    (hcomma : ¬ CommaAfterCall (lineTokens line)) :
    (∃ x, (c.evaluate line).result = .ok x) ↔
      Derives .expression (lineTokens line) [.mark .semicolon] := by
  cases hs : Source.ofLine line with
  | error err =>
    rw [result_of_ofLine_error hs]
    refine iff_of_false ?_ (not_derives_of_ofLine_error hs)
    intro h
    rcases h with ⟨x, hx⟩
    cases hx
  | ok source =>
    have hproper := source.start.proper_of_mem_lexemes
    have hends : Derives .expression (lineTokens line) [.mark .semicolon] ↔
        Reader.Ends source.start.halt ⟨.chain, [], .operand⟩ source.start.lexemes := by
      rw [ends_iff hproper]
      constructor
      · intro h
        have he := atEnd_of_derives hs h
        exact ⟨he, lineTokens_of_atEnd hs he ▸ h⟩
      · intro h
        rcases h with ⟨he, h⟩
        exact lineTokens_of_atEnd hs he ▸ h
    have hcomp := completes_start c source
    rw [evaluate_of_ofLine hs, result_conclude, hends]
    generalize (Evaluation.start c.settings c.memory source).complete = done at hcomp
    constructor
    · intro h
      rcases h with ⟨x, hx⟩
      obtain ⟨result, e⟩ := done
      cases hx
      cases hcomp with
      | value hstop hend hrun hvalue => exact ⟨_, hstop, hend⟩
    · intro h
      rcases h with ⟨stop, hstop, hend⟩
      have hstop : source.start.readChain.stop = .ok stop := hstop
      cases hcomp with
      | value => exact ⟨_, rfl⟩
      | refused h =>
        rw [hstop] at h
        cases h
      | beforeEnd h he =>
        rw [hstop] at h
        cases h
        rw [hend] at he
        cases he
      | strict h => exact absurd (hl.symm.trans h.strict) Bool.false_ne_true
      | overtaken hf hb h =>
        refine absurd ?_ hcomma
        exact ((commaAfterCall_of_borrows _ source.start.isChain_tokens).1 .operand hb).within
          (tokens_prefix_lineTokens hs).isInfix

/-- An assignment, an implied product, a factorial and a call without parentheses. -/
theorem accepts_iff_derives_assignment :
    Derives .expression (lineTokens "x = 2(3!) - sin-y") [.mark .semicolon] := by
  have hcomma : ¬ CommaAfterCall (lineTokens "x = 2(3!) - sin-y") := by
    intro h
    rcases h with ⟨f, -, hin⟩
    have hmem : .mark .comma ∈ lineTokens "x = 2(3!) - sin-y" := hin.subset (by simp)
    revert hmem
    decide +kernel
  have hok : (({} : Calculator).evaluate "x = 2(3!) - sin-y").result.isOk = true := by
    decide +kernel
  refine (accepts_iff_derives {} "x = 2(3!) - sin-y" rfl hcomma).1 ?_
  cases hr : (({} : Calculator).evaluate "x = 2(3!) - sin-y").result with
  | ok x => exact ⟨x, rfl⟩
  | error err =>
    rw [hr] at hok
    cases hok

end DeskCalculator
