import DeskCalculator.Proofs.Isolation
import DeskCalculator.Proofs.Outline
import DeskCalculator.Proofs.Trimming

/-!
# Values in the place of expressions

An expression in parentheses may be replaced by a variable that has its value. This file fixes

* `alphabet`, `Plain` -- the characters that a line keeps as they are, and the texts made of them;
* `tokenize_append_cons` -- the tokens on both sides of a character that stands alone;
* `Machine.Yields` -- code that stacks one value over anything, as the code of an expression that has
  a value does (`yields_of_hasValue`).

Main statement: **a text with an expression in parentheses comes to what the text with the variable
does** (`evaluate_replaced`).
-/

namespace DeskCalculator

/-! ## 1. Texts that are kept as they are -/

/-- Small letters, digits and the marks of an expression. -/
def alphabet : List Char := "abcdefghijklmnopqrstuvwxyz0123456789.+-*/^%!(),=".toList

/-- A text of such characters. -/
def Plain (text : String) : Prop := ∀ c ∈ text.toList, c ∈ alphabet

instance (text : String) : Decidable (Plain text) := List.decidableBAll _ _

theorem Plain.append {text text' : String} (h : Plain text) (h' : Plain text') :
    Plain (text ++ text') := by
  intro c hc
  rw [String.toList_append, List.mem_append] at hc
  exact hc.elim (h c) (h' c)

/-- **A plain text is its own source.** -/
theorem Plain.bodyOf_eq {text : String} (h : Plain text) :
    Source.bodyOf text.toList = text.toList := by
  have hall : alphabet.all (fun c => decide (Text.isBlank c = false ∧ c ≠ terminator ∧ c ≠ ' ' ∧
      c ≠ '\t' ∧ c.toNat < 0x80 ∧ c.toLower = c)) = true := by decide +kernel
  have hfacts := fun c hc => of_decide_eq_true (List.all_eq_true.1 hall c (h c hc))
  have hblank : ∀ c ∈ text.toList, ¬ Text.isBlank c = true := fun c hc =>
    Bool.eq_false_iff.1 (hfacts c hc).1
  have hdrop : text.toList.dropWhile Text.isBlank = text.toList :=
    List.dropWhile_eq_self_iff.2 fun _ => hblank _ (List.getElem_mem _)
  have htrim : Text.trim text.toList = text.toList := by
    rw [Text.trim, hdrop]
    exact List.rdropWhile_eq_self_iff.2 fun hne => hblank _ (List.getLast_mem hne)
  have hcut : Text.dropEndWhile (fun c => decide (c = terminator)) text.toList = text.toList :=
    List.rdropWhile_eq_self_iff.2 fun hne => by
      simpa using (hfacts _ (List.getLast_mem hne)).2.1
  have hclean : Source.clean text.toList = text.toList := by
    rw [Source.clean, List.filter_eq_self.2 fun c hc => decide_eq_true (hfacts c hc).2.2.1]
    refine (List.map_congr_left fun c hc => ?_).trans (List.map_id _)
    exact if_neg (hfacts c hc).2.2.2.1
  rw [Source.bodyOf, htrim, hcut, hclean,
    Text.lowercase_of_ascii fun c hc => (hfacts c hc).2.2.2.2.1]
  exact (List.map_congr_left fun c hc => (hfacts c hc).2.2.2.2.2).trans (List.map_id _)

theorem Plain.ofLine {text : String} (h : Plain text) (hne : text.toList ≠ []) :
    Source.ofLine text = .ok ⟨text.toList, hne⟩ :=
  Source.ofLine_eq_ok_iff.2 h.bodyOf_eq

/-! ## 2. The tokens of a text -/

/-- **A character that stands alone parts the tokens** before it from those behind it. -/
theorem tokenize_append_cons {x : Char} (hn : Number.isNumeralChar x = false)
    (hx : isNameChar x = false) (hl : x.isLower = false) (cs ds : List Char) :
    tokenize (cs ++ x :: ds) = tokenize cs ++ .single x :: tokenize ds := by
  induction cs using tokenize.induct with
  | case1 => rw [List.nil_append, tokenize_of_single hn hl, tokenize, List.nil_append]
  | case2 c cs hc ih =>
    rw [List.cons_append, tokenize_of_isNumeralChar hc, tokenize_of_isNumeralChar hc,
      Lists.takeWhile_append_of_stop (by simpa using hn),
      Lists.dropWhile_append_of_stop (by simpa using hn), ih, List.cons_append]
  | case3 c cs hc hlower ih =>
    have hc : Number.isNumeralChar c = false := by simpa using hc
    rw [List.cons_append, tokenize_of_isLower hc hlower, tokenize_of_isLower hc hlower,
      Lists.takeWhile_append_of_stop (by simpa using hx),
      Lists.dropWhile_append_of_stop (by simpa using hx), ih, List.cons_append]
  | case4 c cs hc hlower ih =>
    have hc : Number.isNumeralChar c = false := by simpa using hc
    have hlower : c.isLower = false := by simpa using hlower
    rw [List.cons_append, tokenize_of_single hc hlower, tokenize_of_single hc hlower, ih,
      List.cons_append]

theorem tokenize_group (a s b : List Char) :
    tokenize (a ++ '(' :: (s ++ ')' :: b)) =
      tokenize a ++ .mark .leftParen :: (tokenize s ++ .mark .rightParen :: tokenize b) := by
  rw [tokenize_append_cons (by decide) (by decide) (by decide),
    tokenize_append_cons (by decide) (by decide) (by decide)]
  rfl

/-- The source of a plain text ends where its tokens do. -/
theorem atEnd_halt_of_plain {text : String} (h : Plain text) (hne : text.toList ≠ []) :
    (Source.start ⟨text.toList, hne⟩).halt.atEnd = true := by
  have hterminator : terminator ∉ alphabet := by decide +kernel
  rw [Cursor.atEnd, List.isEmpty_iff, Cursor.rest_halt, List.dropWhile_eq_nil_iff]
  intro c hc
  exact decide_eq_true fun e => hterminator (e ▸ h c hc)

/-- **The source of a plain text has the tokens of the text.** -/
theorem tokens_of_plain {text : String} (h : Plain text) (hne : text.toList ≠ []) :
    (Source.start ⟨text.toList, hne⟩).tokens = tokenize text.toList := by
  have hall : alphabet.all (fun c => decide (c.isUpper = false)) = true := by decide +kernel
  have hhalt := List.isEmpty_iff.1 (atEnd_halt_of_plain h hne)
  have htokens := Cursor.tokenize_rest (Source.start ⟨text.toList, hne⟩)
    fun c hc => of_decide_eq_true (List.all_eq_true.1 hall c (h c hc))
  rw [hhalt, List.nil_append, tokenize_of_single (by decide) (by decide)] at htokens
  have hsplit := tokenize_append_cons (x := terminator) (by decide) (by decide) (by decide)
    text.toList []
  exact (List.append_cancel_right (hsplit.symm.trans htokens)).symm

/-! ## 3. What has a value -/

/-- A machine that a builder describes follows it through any code. -/
theorem follows_exec (code : Code) {s : Settings} {memory : Variables} {b : Builder} {m : Machine}
    (h : b.Describes s.precision memory m) :
    Follows s (Builder.Describes s.precision memory) (Builder.run code.instructions b)
      (m.exec s code) := by
  have hrun := Builder.follows_run code (e := ⟨s, nowhere, m⟩) ⟨rfl, h⟩
  have hexec := Evaluation.map_machine_run code ⟨s, nowhere, m⟩
  rw [← hexec]
  exact hrun.map fun _ _ hd => hd.machine

/-- Code that a builder can run does the same over anything. -/
theorem atop_exec (code : Code) {s : Settings} {memory : Variables} {b b' : Builder} {m : Machine}
    (below : Below) (h : b.Describes s.precision memory m)
    (hb : Builder.run code.instructions b = .ok b') :
    (m.atop below).exec s code = (m.exec s code).map (Machine.atop below) := by
  have hatop := atop_run code below (e := ⟨s, nowhere, m⟩) ⟨rfl, h⟩ hb
  have hover := Evaluation.map_machine_run code (Evaluation.atop below ⟨s, nowhere, m⟩)
  have halone := Evaluation.map_machine_run code ⟨s, nowhere, m⟩
  rw [hatop] at hover
  refine hover.symm.trans ?_
  rw [← halone]
  cases Evaluation.run code ⟨s, nowhere, m⟩ <;> rfl

/-- Nothing waits above a scope mark on top. -/
theorem Machine.settle_of_scope {m : Machine} {ops : List Operator}
    (h : m.operators = .scope :: ops) (s : Settings) (position : Nat) :
    m.settle s position = .ok m := by
  rw [settle, reduceWhile, h]
  rfl

/-- What is known of a line that has the value `v`: its chain goes up to the end of the text, a
    builder can run the code, and the code leaves `v` on stacks that were empty. -/
structure HasValue (c : Calculator) (source : Source) (v : Float) : Prop where
  ends : Reader.Ends source.start.halt ⟨.chain, [], .operand⟩ source.start.lexemes
  builds : ∃ b, Builder.run source.start.readChain.code.instructions .initial = .ok b
  leaves : ∃ m, (Machine.initial c.memory).exec c.settings source.start.readChain.code = .ok m ∧
    m.operands = [v] ∧ m.operators = [.scope]

theorem hasValue_of_ok {c : Calculator} {line : String} {source : Source} {v : Float}
    (hs : Source.ofLine line = .ok source) (h : (c.evaluate line).result = .ok v) :
    HasValue c source v := by
  have hprogram := (result_of_ofLine hs).symm.trans h
  obtain ⟨stop, t, hstop, hend, hrun, -⟩ := built_of_ok hs h
  refine ⟨⟨stop, hstop, hend⟩, ⟨_, hrun⟩, ?_⟩
  have hfollows := follows_exec source.start.readChain.code
    (Builder.describes_initial c.settings.precision c.memory)
  have hcode : source.program =
      ⟨source.start.readChain.code ++ [⟨stop, .settle⟩], .ok stop.position⟩ :=
    Reading.program_of_atEnd hstop hend
  rw [hrun] at hfollows
  rw [hcode, Program.outcome, Machine.exec_append] at hprogram
  generalize (Machine.initial c.memory).exec c.settings source.start.readChain.code = o
    at hfollows hprogram
  cases hfollows with
  | strict hstrict => cases hprogram
  | @ok _ m hd =>
    refine ⟨m, rfl, ?_, hd.operators⟩
    rw [Outcome.ok_andThen, Machine.exec_singleton, Machine.step,
      Machine.settle_of_scope hd.operators] at hprogram
    simp only at hprogram
    generalize m.operands = operands at hprogram ⊢
    cases operands with
    | nil => cases hprogram
    | cons x rest =>
      cases rest with
      | nil =>
        cases hprogram
        rfl
      | cons y rest => cases hprogram

/-! ## 4. A value on top -/

/-- Code that stacks `v` on the machine, and leaves the rest of it alone. -/
def Machine.Yields (s : Settings) (code : Code) (v : Float) (m : Machine) : Prop :=
  ∃ m', m.exec s code = .ok m' ∧ m'.operands = v :: m.operands ∧ m'.operators = m.operators ∧
    ∀ name, m'.memory.get? name = m.memory.get? name

/-- **What has a value on its own stacks it in any open scope**, if the names that it reads have the
    values that they had. -/
theorem yields_of_hasValue {c : Calculator} {source : Source} {v : Float}
    (h : HasValue c source v) {m : Machine} {ops : List Operator}
    (hops : m.operators = .scope :: ops) {code : Code}
    (hcode : code.outline = source.start.readChain.code.outline)
    (hreads : ReadsOnly (fun name => m.memory.get? name = c.memory.get? name) code.outline)
    (hbinds : ∀ name, .assign name ∉ code.outline) : m.Yields c.settings code v := by
  obtain ⟨b, hb⟩ := h.builds
  obtain ⟨m₀, hexec, hoperands, hoperators⟩ := h.leaves
  have hatop := atop_exec source.start.readChain.code ⟨m.operands, ops, m.events⟩
    (Builder.describes_initial c.settings.precision c.memory) hb
  rw [hexec] at hatop
  -- `m` is a new machine atop its own stacks, but for names that the code does not read
  have hstart : m.Agrees (fun name => m.memory.get? name = c.memory.get? name)
      ((Machine.initial c.memory).atop ⟨m.operands, ops, m.events⟩) := ⟨rfl, hops, fun _ h => h⟩
  have hagrees := Machine.agrees_exec (s := c.settings) hstart hcode hreads
  have hmemory : ∀ name, (m.exec c.settings code).state.memory.get? name = m.memory.get? name :=
    fun name => Machine.get?_exec c.settings (fun bound hbound => absurd hbound (hbinds bound)) m
  rw [hatop] at hagrees
  cases ho : m.exec c.settings code with
  | failed err m' =>
    rw [ho] at hagrees
    cases hagrees
  | ok m' =>
    rw [ho] at hagrees hmemory
    cases hagrees with
    | ok h =>
      refine ⟨m', ho, ?_, ?_, hmemory⟩
      · rw [h.operands, Machine.atop, hoperands]
        rfl
      · rw [h.operators, Machine.atop, hoperators, hops]
        rfl

/-- So does a variable that has the value. -/
theorem yields_of_variable {s : Settings} {m : Machine} {ops : List Operator} {x : String}
    {v : Float} (hops : m.operators = .scope :: ops) (hx : m.memory.get? x = some v) {code : Code}
    (hcode : code.outline = [.read x 0, .settle]) : m.Yields s code v := by
  have hread : m.exec s [⟨nowhere, .read x 0⟩, ⟨nowhere, .settle⟩] =
      .ok ((m.record (.read x 0 (some v))).pushOperand v) := by
    have hlookup : m.read s 0 x = .ok ((m.record (.read x 0 (some v))).pushOperand v) := by
      rw [Machine.read, Machine.lookUp, hx]
    rw [Machine.exec, Machine.step, hlookup, Outcome.ok_andThen, Machine.exec_singleton]
    exact Machine.settle_of_scope (m := (m.record (.read x 0 (some v))).pushOperand v) hops s _
  have hagrees : (m.exec s code).Agrees (fun _ => True)
      (m.exec s [⟨nowhere, .read x 0⟩, ⟨nowhere, .settle⟩]) := Machine.agrees_exec_self _ s m hcode
  rw [hread] at hagrees
  cases ho : m.exec s code with
  | failed err m' =>
    rw [ho] at hagrees
    cases hagrees
  | ok m' =>
    rw [ho] at hagrees
    cases hagrees with
    | ok h => exact ⟨m', ho, h.operands, h.operators, fun name => h.memory name trivial⟩

/-- **The same value by other code, and then the same code.** -/
theorem agrees_of_yields {P : String → Prop} {s : Settings} {m m' : Machine} {code code' : Code}
    {v : Float} (h : m.Agrees P m') (hv : m.Yields s code v) (hv' : m'.Yields s code' v)
    {tail : Code} (htail : ReadsOnly P tail.outline) :
    (m.exec s (code ++ tail)).Agrees P (m'.exec s (code' ++ tail)) := by
  obtain ⟨m₁, hexec, hoperands, hoperators, hmemory⟩ := hv
  obtain ⟨m₁', hexec', hoperands', hoperators', hmemory'⟩ := hv'
  rw [Machine.exec_append_of_ok hexec, Machine.exec_append_of_ok hexec']
  refine Machine.agrees_exec ⟨?_, ?_, fun name hname => ?_⟩ rfl htail
  · rw [hoperands, hoperands', h.operands]
  · rw [hoperators, hoperators', h.operators]
  · rw [hmemory, hmemory', h.memory name hname]

/-! ## 5. Reading both texts -/

section Scan

variable {P : String → Prop} {ts us : List Token} {code : Code} {r : Reader}

/-- A reader at the start of a text. -/
def Reader.start : Reader := ⟨.chain, [], .operand⟩

theorem readsOnly_scan_start (h : ∀ name, .name name ∈ ts → P name) :
    ReadsOnly P (Reader.start.scan ts).code.outline := by
  intro i hi name hreads
  have hmem := name_mem_of_reads rfl hi hreads
  rw [map_token_loose] at hmem
  exact h name hmem

theorem assigned_of_scan_start {name : String}
    (h : .assign name ∈ (Reader.start.scan ts).code.outline) : Assigned ts name := by
  have hassigned := assigned_of_assign h
  rwa [map_token_loose] at hassigned

/-- The code of the first tokens is the first code. -/
theorem mem_scan_of_leadsTo {r' : Reader} (h : r.LeadsTo ts code r') {i : Instruction}
    (hi : i ∈ code.outline) : i ∈ (r.scan ts).code.outline := by
  have hscan := h []
  rw [List.append_nil] at hscan
  rw [hscan, outline_append]
  exact List.mem_append_left _ hi

theorem readsOnly_afterParen (n : Nat) (frames : List Frame)
    (h : ∀ name, .name name ∈ us → P name) :
    ReadsOnly P (Reader.afterParen n frames us).code.outline := by
  unfold Reader.afterParen
  split
  · refine List.forall_mem_cons.2 ⟨fun name hreads => ?_, fun i hi name hreads => ?_⟩
    · obtain ⟨position, hread⟩ := hreads
      cases hread
    · have hmem := name_mem_of_reads rfl hi hreads
      rw [map_token_loose] at hmem
      exact h name hmem
  · exact fun i hi => absurd hi List.not_mem_nil

/-- A parenthesis is no equals sign. -/
theorem assigned_of_assigned_leftParen {name : String}
    (h : Assigned (ts ++ [.mark .leftParen]) name) : Assigned ts name := by
  rcases List.infix_concat_iff.1 h with hsuffix | hinfix
  · have hlast := hsuffix.getLast (by simp)
    simp at hlast
  · exact hinfix

theorem exists_scope_of_exec {s : Settings} {m m' : Machine} {c : Cursor}
    (h : m.exec s (code ++ [⟨c, .openScope⟩]) = .ok m') : ∃ ops, m'.operators = .scope :: ops := by
  rw [Machine.exec_append] at h
  cases ho : m.exec s code with
  | failed err m₁ =>
    rw [ho] at h
    cases h
  | ok m₁ =>
    rw [ho, Outcome.ok_andThen, Machine.exec_singleton] at h
    cases h
    exact ⟨m₁.operators, rfl⟩

/-- Reading comes to the end exactly if its fate is the end. -/
theorem ends_iff_fate {halt : Cursor} {ls : List Lexeme} :
    r.Ends halt ls ↔ (r.read halt ls).fate = .ok true := by
  unfold Reader.Ends Reading.fate
  cases (r.read halt ls).stop with
  | ok c => simp
  | error refusal => simp

end Scan

/-- A name alone is a chain: it is read, and nothing waits. -/
theorem scan_name {x : String} (hx : Function.ofName? x = none) :
    Reader.start.Ends ⟨0, []⟩ ([.name x].map Token.loose) ∧
      (Reader.start.scan [.name x]).code.outline = [.read x 0, .settle] := by
  have hturn : Reader.start.turn (Token.name x).loose = ⟨[], .next ⟨.chain, [], .binding x 0⟩⟩ := by
    simp only [Reader.start, Reader.turn, Reader.operandTurn, Token.loose, hx]
    rfl
  have hscan : Reader.start.scan [.name x] =
      ⟨[⟨⟨0, []⟩, .read x 0⟩, ⟨⟨0, []⟩, .settle⟩], .ok ⟨0, []⟩⟩ := Reader.scan_cons_of_next hturn []
  refine ⟨⟨⟨0, []⟩, ?_, rfl⟩, ?_⟩
  · exact congrArg Reading.stop hscan
  · rw [hscan]
    rfl

/-- **The first tokens and the parenthesis lead into a group**, with its scope open, or reading stops
    before. -/
theorem leadsTo_group_or_stopsIn (ta : List Token) :
    (∃ code n frames, Reader.start.LeadsTo (ta ++ [.mark .leftParen])
      (code ++ [⟨nowhere, .openScope⟩]) (Reader.start.within (.group n :: frames))) ∨
      ∃ reading, Reader.start.StopsIn ta reading := by
  rcases Reader.leadsTo_or_stopsIn .start ta with ⟨code, r, hextent, hleads⟩ | hstops
  · obtain ⟨code', n, hparen⟩ := Reader.leadsTo_leftParen r
    have hstart : Reader.start.within (.group n :: r.frames) =
        ⟨r.extent, .group n :: r.frames, .operand⟩ := by
      rw [hextent]
      rfl
    refine .inl ⟨code ++ code', n, r.frames, ?_⟩
    rw [hstart, List.append_assoc]
    exact hleads.trans hparen
  · exact .inr hstops

/-- **A chain in a group has its own code there**, and what comes behind the group has the code that
    it has behind any chain. -/
theorem scan_group {ta ts : List Token} {opening : Code} {n : Nat} {frames : List Frame}
    (hopen : Reader.start.LeadsTo (ta ++ [.mark .leftParen]) opening
      (Reader.start.within (.group n :: frames)))
    (hends : Reader.start.Ends ⟨0, []⟩ (ts.map Token.loose)) (tb : List Token) :
    ∃ code : Code, code.outline = (Reader.start.scan ts).code.outline ∧
      Reader.start.scan (ta ++ .mark .leftParen :: (ts ++ .mark .rightParen :: tb)) =
        ⟨opening ++ (code ++ (Reader.afterParen n frames tb).code),
          (Reader.afterParen n frames tb).stop⟩ := by
  obtain ⟨code, hcode, hscan⟩ := Reader.scan_within n frames rfl hends
  refine ⟨code, hcode, ?_⟩
  have hread := hopen (ts ++ .mark .rightParen :: tb)
  rw [hscan, List.append_assoc] at hread
  exact hread

section Both

variable {c : Calculator} {source : Source} {v : Float} {x : String} {ta ts tb : List Token}
  {opening : Code} {r : Reader}

/-- The names that the first tokens do not bind keep their values. -/
theorem get?_of_leadsTo {s : Settings} {memory : Variables} {m : Machine}
    (hopen : Reader.start.LeadsTo (ta ++ [.mark .leftParen]) opening r)
    (hm : (Machine.initial memory).exec s opening = .ok m) {name : String}
    (hname : ∀ bound, Assigned ta bound → foldName bound ≠ foldName name) :
    m.memory.get? name = memory.get? name := by
  have hsame := Machine.get?_exec s (fun bound hbound => hname bound
    (assigned_of_assigned_leftParen (assigned_of_scan_start
      (mem_scan_of_leadsTo hopen hbound)))) (.initial memory)
  rw [hm] at hsame
  exact hsame

/-- **Both texts are read alike but for what stands in the parentheses**, and come to machines that
    agree. -/
theorem agrees_scan {P : String → Prop} (hv : HasValue c source v)
    (hhalt : source.start.halt.atEnd = true) (hts : source.start.tokens = ts)
    (hequals : .mark .equals ∉ ts) (hx : Function.ofName? x = none)
    (hP : ∀ name, P name → foldName name ≠ foldName x)
    (hta : ∀ name, .name name ∈ ta → P name) (htb : ∀ name, .name name ∈ tb → P name)
    (hkept : ∀ name, .name name ∈ ts → ∀ bound, Assigned ta bound →
      foldName bound ≠ foldName name) :
    let r := Reader.start.scan (ta ++ .mark .leftParen :: (ts ++ .mark .rightParen :: tb))
    let r' := Reader.start.scan (ta ++ .mark .leftParen :: ([.name x] ++ .mark .rightParen :: tb))
    ((Machine.initial c.memory).exec c.settings r.code).Agrees P
        ((Machine.initial (c.memory.set x v)).exec c.settings r'.code) ∧
      r.fate = r'.fate := by
  intro r r'
  have hinitial : (Machine.initial c.memory).Agrees P (.initial (c.memory.set x v)) := by
    refine ⟨rfl, rfl, fun name hname => ?_⟩
    show c.memory.get? name = (c.memory.set x v).get? name
    rw [Variables.get?_set, if_neg fun e => hP name hname e.symm]
  rcases leadsTo_group_or_stopsIn ta with ⟨code, n, frames, hopen⟩ | ⟨reading, hstops⟩
  · have hends : Reader.start.Ends ⟨0, []⟩ (ts.map Token.loose) := by
      rw [ends_iff_fate, ← ends_iff_fate.1 hv.ends, ← hts]
      exact (alike_readChain hhalt).fate.symm
    obtain ⟨codeS, hS, hr⟩ := scan_group hopen hends tb
    obtain ⟨codeX, hX, hr'⟩ := scan_group hopen (scan_name hx).1 tb
    have hr : r = _ := hr
    have hr' : r' = _ := hr'
    rw [hr, hr']
    refine ⟨?_, rfl⟩
    have hopening : ReadsOnly P (Code.outline (code ++ [⟨nowhere, .openScope⟩])) := by
      refine fun i hi => readsOnly_scan_start (fun name hname => ?_) i (mem_scan_of_leadsTo hopen hi)
      exact hta name ((List.mem_append.1 hname).resolve_right (by simp))
    rw [Machine.exec_append _ _ (codeS ++ _), Machine.exec_append _ _ (codeX ++ _)]
    refine (Machine.agrees_exec hinitial rfl hopening).andThen_of_ok fun m m' hm hm' h => ?_
    obtain ⟨ops, hops⟩ := exists_scope_of_exec hm
    have hval : m.Yields c.settings codeS v := by
      have hcode := (alike_readChain hhalt).code
      rw [hts] at hcode
      refine yields_of_hasValue hv hops (hS.trans hcode.symm) ?_ fun name hname => ?_
      · rw [hS]
        exact readsOnly_scan_start fun name hname => get?_of_leadsTo hopen hm (hkept name hname)
      · rw [hS] at hname
        exact hequals ((assigned_of_scan_start hname).subset (by simp))
    have hvar : m'.Yields c.settings codeX v := by
      refine yields_of_variable (h.operators ▸ hops) ?_ (hX.trans (scan_name hx).2)
      rw [get?_of_leadsTo hopen hm' fun bound hbound =>
        hP bound (hta bound (hbound.subset (by simp))), Variables.get?_set, if_pos rfl]
    exact agrees_of_yields h hval hvar (readsOnly_afterParen n frames htb)
  · -- reading stops before the parenthesis, and knows nothing of what stands in it
    have hr : r = reading := hstops _
    have hr' : r' = reading := hstops _
    have hscan : reading = Reader.start.scan ta := by rw [← hstops [], List.append_nil]
    rw [hr, hr', hscan]
    exact ⟨Machine.agrees_exec hinitial rfl (readsOnly_scan_start hta), rfl⟩

end Both

/-! ## 6. Both evaluations -/

/-- A plain text that is one name, and not that of a function. -/
structure IsVariable (x : String) : Prop where
  plain : Plain x
  single : tokenize x.toList = [.name x]
  function : Function.ofName? x = none

/-- **A name of a plain text is its own form.** -/
theorem foldName_of_plain {text name : String} (h : Plain text)
    (hname : .name name ∈ tokenize text.toList) : foldName name = name := by
  have hne : text.toList ≠ [] := by
    intro hnil
    rw [hnil, tokenize] at hname
    cases hname
  rw [← tokens_of_plain h hne] at hname
  exact foldName_of_mem_tokens (h.ofLine hne) hname

/-- The text with another one in parentheses between two parts. -/
def grouped (a s b : String) : String := a ++ "(" ++ s ++ ")" ++ b

theorem toList_grouped (a s b : String) :
    (grouped a s b).toList = a.toList ++ '(' :: (s.toList ++ ')' :: b.toList) := by
  simp [grouped, String.toList_append]

theorem Plain.grouped {a s b : String} (ha : Plain a) (hs : Plain s) (hb : Plain b) :
    Plain (grouped a s b) := by
  have hleft : Plain "(" := by decide +kernel
  have hright : Plain ")" := by decide +kernel
  exact (((ha.append hleft).append hs).append hright).append hb

/-- **The source of a grouped text**, and its reading. -/
theorem exists_source_grouped {a s b : String} (ha : Plain a) (hs : Plain s) (hb : Plain b) :
    ∃ source, Source.ofLine (grouped a s b) = .ok source ∧
      source.start.readChain.Alike (Reader.start.scan (tokenize a.toList ++ .mark .leftParen ::
        (tokenize s.toList ++ .mark .rightParen :: tokenize b.toList))) := by
  have hplain := ha.grouped hs hb
  have hne : (DeskCalculator.grouped a s b).toList ≠ [] := by
    rw [toList_grouped]
    simp
  refine ⟨_, hplain.ofLine hne, ?_⟩
  rw [← tokenize_group, ← toList_grouped, ← tokens_of_plain hplain hne]
  exact alike_readChain (atEnd_halt_of_plain hplain hne)

/-- **An expression in parentheses may be replaced by a variable that has its value**: both texts have
    one value or fail for one cause, and leave tables that agree on all other names. -/
theorem evaluate_replaced {a s b x : String} {memory : Variables} {settings : Settings} {v : Float}
    (ha : Plain a) (hs : Plain s) (hb : Plain b) (hequals : '=' ∉ s.toList)
    (hkept : ∀ name, .name name ∈ tokenize s.toList → ¬ Assigned (tokenize a.toList) name)
    (hv : (Calculator.evaluate ⟨memory, settings⟩ s).result = .ok v) (hx : IsVariable x)
    (hnew : ∀ text ∈ [a, s, b], .name x ∉ tokenize text.toList) :
    let answer := Calculator.evaluate ⟨memory, settings⟩ (grouped a s b)
    let answer' := Calculator.evaluate ⟨memory.set x v, settings⟩ (grouped a x b)
    ((∃ y, answer.result = .ok y ∧ answer'.result = .ok y) ∨
      ∃ err err', answer.result = .error err ∧ answer'.result = .error err' ∧
        err.cause = err'.cause ∧ err.kind = err'.kind) ∧
    ∀ name, foldName name ≠ foldName x →
      answer.calculator.memory.get? name = answer'.calculator.memory.get? name := by
  have hfoldx : foldName x = x :=
    foldName_of_plain hx.plain (by rw [hx.single]; exact List.mem_singleton_self _)
  have hother : ∀ {text : String}, Plain text → .name x ∉ tokenize text.toList →
      ∀ name, .name name ∈ tokenize text.toList → foldName name ≠ foldName x := by
    intro text hplain hnot name hname hfold
    rw [foldName_of_plain hplain hname, hfoldx] at hfold
    exact hnot (hfold ▸ hname)
  have hne : s.toList ≠ [] := by
    intro hnil
    have hbody : Source.ofLine s = .error ⟨0, .emptyExpression⟩ := by
      rw [Source.ofLine, dif_pos (hs.bodyOf_eq.trans hnil)]
    rw [result_of_ofLine_error hbody] at hv
    cases hv
  have hequals : .mark .equals ∉ tokenize s.toList := by
    intro hmem
    rw [← tokens_of_plain hs hne] at hmem
    exact hequals (Cursor.mem_rest_of_mem_tokens hmem '=' (by simp [Token.chars, Mark.char]))
  obtain ⟨source, hsource, hread⟩ := exists_source_grouped ha hs hb
  obtain ⟨source', hsource', hread'⟩ := exists_source_grouped ha hx.plain hb
  rw [hx.single] at hread'
  obtain ⟨hexec, hfate⟩ := agrees_scan (P := fun name => foldName name ≠ foldName x)
    (hasValue_of_ok (hs.ofLine hne) hv) (atEnd_halt_of_plain hs hne) (tokens_of_plain hs hne)
    hequals hx.function (fun _ h => h) (hother ha (hnew a (by simp)))
    (hother hb (hnew b (by simp))) fun name hname bound hbound hfold => by
      rw [foldName_of_plain hs hname, foldName_of_plain ha (hbound.subset (by simp))] at hfold
      exact hkept name hname (hfold ▸ hbound)
  -- from each text to its loose tokens, and from one list of tokens to the other
  have halike := alike_evaluate hsource hsource'
    (((Machine.agrees_exec_self _ settings (.initial memory) hread.code).trans hexec).trans
      (Machine.agrees_exec_self _ settings (.initial (memory.set x v)) hread'.code.symm))
    ((hread.fate.trans hfate).trans hread'.fate.symm)
  refine ⟨?_, halike.memory⟩
  rcases halike.ok_or_error with hok | ⟨err, err', herr, herr', hcause⟩
  · exact .inl hok
  · refine .inr ⟨err, err', herr, herr', hcause, ?_⟩
    rw [EvalError.kind, EvalError.kind, hcause]

/-- A prefix minus and a function before the group, and an assignment around it. -/
theorem evaluate_replaced_negated : ∃ v,
    (({} : Calculator).evaluate "1.5+,pi%2").result = .ok v ∧
    let answer := ({} : Calculator).evaluate (grouped "k=2^-sin" "1.5+,pi%2" "!k")
    let answer' := Calculator.evaluate ⟨Variables.seeded.set "t1" v, {}⟩
      (grouped "k=2^-sin" "t1" "!k")
    ((∃ y, answer.result = .ok y ∧ answer'.result = .ok y) ∨
      ∃ err err', answer.result = .error err ∧ answer'.result = .error err' ∧
        err.cause = err'.cause ∧ err.kind = err'.kind) ∧
    ∀ name, foldName name ≠ foldName "t1" →
      answer.calculator.memory.get? name = answer'.calculator.memory.get? name := by
  have hok : (({} : Calculator).evaluate "1.5+,pi%2").result.isOk = true := by decide +kernel
  have hkept : ∀ name, .name name ∈ tokenize "1.5+,pi%2".toList →
      ¬ Assigned (tokenize "k=2^-sin".toList) name := by
    have htokens : tokenize "1.5+,pi%2".toList = [.number "1.5", .mark .plus, .mark .comma,
      .name "pi", .mark .percent, .number "2"] := by decide +kernel
    intro name hname
    rw [htokens] at hname
    obtain rfl : name = "pi" := by simpa using hname
    decide +kernel
  cases hv : (({} : Calculator).evaluate "1.5+,pi%2").result with
  | error err =>
    rw [hv] at hok
    cases hok
  | ok v =>
    refine ⟨v, rfl, ?_⟩
    exact evaluate_replaced (by decide +kernel) (by decide +kernel) (by decide +kernel) (by decide)
      hkept hv ⟨by decide +kernel, by decide +kernel, by decide⟩ (by decide +kernel)

end DeskCalculator
