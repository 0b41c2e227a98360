import DeskCalculator.Proofs.Program

/-!
# What the events tell

The events of an evaluation account for all that it does to the variables. This file fixes

* `Event.binding?`, `Variables.after` -- the name that an event binds, and a table after some events;
* `Machine.Leads` -- one machine is later than another: events were added, and the table is what they
  make of it.

Main statement: **whatever an evaluation comes to, it leaves the table that its events make**
(`memory_evaluate`).
-/

namespace DeskCalculator

/-! ## 1. Tables after events -/

/-- The name that an event binds, with its value: the value of a whole expression becomes the last
    answer. -/
def Event.binding? : Event → Option (String × Float)
  | read _ _ _ | reduced _ _ _ => none
  | assigned name value => some (name, value)
  | evaluated _ value => some (Variables.answerName, value)

namespace Variables

/-- The table after an event. -/
def afterEvent (v : Variables) (e : Event) : Variables :=
  match e.binding? with
  | none => v
  | some (name, value) => v.set name value

/-- The table after some events, first one first. -/
def after (v : Variables) (events : List Event) : Variables := events.foldl afterEvent v

theorem after_append (v : Variables) (events events' : List Event) :
    v.after (events ++ events') = (v.after events).after events' := List.foldl_append

/-- **Events touch no binding whose key is not the form of a name.** -/
theorem getElem?_after {key : String} (h : ∀ name, foldName name ≠ key) (v : Variables)
    (events : List Event) : (v.after events).table[key]? = v.table[key]? := by
  induction events generalizing v with
  | nil => rfl
  | cons e events ih =>
    refine (ih (v.afterEvent e)).trans ?_
    unfold afterEvent
    split
    · rfl
    · next name value _ =>
      rw [set, Std.TreeMap.getElem?_insert,
        if_neg fun he => h name (Std.LawfulEqCmp.compare_eq_iff_eq.1 he)]

/-- **Events that give all names the same values give the same bindings.** -/
theorem toList_after {v : Variables} {events events' : List Event}
    (h : ∀ name, (v.after events).get? name = (v.after events').get? name) :
    (v.after events).toList = (v.after events').toList := by
  refine (Std.TreeMap.Equiv.of_forall_constGet?_eq fun key => ?_).toList_eq
  by_cases hkey : ∃ name, foldName name = key
  · obtain ⟨name, rfl⟩ := hkey
    exact h name
  · have hkey : ∀ name, foldName name ≠ key := fun name he => hkey ⟨name, he⟩
    rw [getElem?_after hkey, getElem?_after hkey]

end Variables

/-! ## 2. Later machines -/

namespace Machine

/-- Later on, events were added, and the table is what they make of it. -/
def Leads (m m' : Machine) : Prop :=
  ∃ new : List Event, m'.events = new ++ m.events ∧ m'.memory = m.memory.after new.reverse

theorem Leads.refl (m : Machine) : m.Leads m := ⟨[], rfl, rfl⟩

theorem Leads.trans {m₁ m₂ m₃ : Machine} (h : m₁.Leads m₂) (h' : m₂.Leads m₃) : m₁.Leads m₃ := by
  obtain ⟨new, he, hm⟩ := h
  obtain ⟨new', he', hm'⟩ := h'
  refine ⟨new' ++ new, ?_, ?_⟩
  · rw [he', he, List.append_assoc]
  · rw [hm', hm, List.reverse_append, Variables.after_append]

/-- A step that only adds an event, and does to the table what the event says. -/
theorem leads_of_event {m m' : Machine} {e : Event} (he : m'.events = e :: m.events)
    (hm : m'.memory = m.memory.afterEvent e) : m.Leads m' := ⟨[e], he, hm⟩

/-- A step that leaves events and table alone. -/
theorem leads_of_eq {m m' : Machine} (he : m'.events = m.events) (hm : m'.memory = m.memory) :
    m.Leads m' := ⟨[], he, hm⟩

/-- **Two steps lead on if each does.** -/
theorem leads_andThen {m : Machine} {o : Outcome Machine} {f : Machine → Outcome Machine}
    (h : m.Leads o.state) (hf : ∀ m' : Machine, m'.Leads (f m').state) :
    m.Leads (o.andThen f).state := by
  cases o with
  | ok m' => exact h.trans (hf m')
  | failed err m' => exact h

variable (s : Settings) (position : Nat)

theorem leads_deliver (op : Operator) (operands : List Float) (raw : Float) (m : Machine) :
    m.Leads (m.deliver s position op operands raw).state := by
  unfold deliver
  simp only
  split
  · exact .refl m
  · exact leads_of_event rfl rfl

theorem leads_applyOperator (op : Operator) (m : Machine) :
    m.Leads (m.applyOperator s position op).state := by
  have htaken : ∀ rest, m.Leads { m with operands := rest } := fun rest => leads_of_eq rfl rfl
  unfold applyOperator
  split
  · exact .refl m
  · exact (htaken _).trans (leads_deliver s position _ _ _ _)
  · exact htaken []
  · split
    · exact htaken _
    · exact (htaken _).trans (leads_deliver s position _ _ _ _)
  · exact .refl m

theorem leads_reduceTimes (n : Nat) (m : Machine) :
    m.Leads (m.reduceTimes s position n).state := by
  induction n generalizing m with
  | zero => exact .refl m
  | succ n ih =>
    refine leads_andThen ?_ ih
    unfold reduce
    split
    · exact .refl m
    · next op rest _ =>
      have htaken : m.Leads { m with operators := rest } := leads_of_eq rfl rfl
      exact htaken.trans (leads_applyOperator s position op _)

/-- **One instruction leads on.** -/
theorem leads_step (i : Instruction) (m : Machine) : m.Leads (m.step s position i).state := by
  cases i with
  | literal x => exact leads_of_eq rfl rfl
  | read name start =>
    unfold step read
    simp only
    split
    · exact leads_of_event rfl rfl
    · exact .refl m
  | operator op =>
    exact leads_andThen (leads_reduceTimes s position _ m) fun m' => leads_of_eq rfl rfl
  | hold op => exact leads_of_eq rfl rfl
  | openScope => exact leads_of_eq rfl rfl
  | closeScope =>
    unfold step closeScope
    simp only
    split
    · exact .refl m
    · exact leads_of_eq rfl rfl
    · exact leads_of_eq rfl rfl
  | settle => exact leads_reduceTimes s position _ m
  | assign name =>
    unfold step assign
    simp only
    split
    · exact .refl m
    · exact leads_of_event rfl rfl

/-- **So does any code.** -/
theorem leads_exec (code : Code) (m : Machine) : m.Leads (m.exec s code).state := by
  induction code generalizing m with
  | nil => exact .refl m
  | cons i code ih => exact leads_andThen (leads_step s i.cursor.position i.instruction m) ih

end Machine

theorem Program.leads_outcome (p : Program) (s : Settings) (m : Machine) :
    m.Leads (p.outcome s m).2 := by
  rw [p.snd_outcome]
  exact Machine.leads_exec s p.code m

/-! ## 3. Evaluations -/

/-- **Whatever an evaluation comes to, it leaves the table that its events make.** -/
theorem memory_evaluate (c : Calculator) (line : String) :
    (c.evaluate line).calculator.memory = c.memory.after (c.evaluate line).events := by
  cases hs : Source.ofLine line with
  | error err =>
    rw [evaluate_of_ofLine_error hs]
    rfl
  | ok source =>
    obtain ⟨new, hevents, hmemory⟩ := source.program.leads_outcome c.settings (.initial c.memory)
    have hevents : _ = new := hevents.trans (List.append_nil new)
    have hmemory : _ = c.memory.after new.reverse := hmemory
    rw [memory_of_ofLine hs, events_of_ofLine hs, hevents, Variables.after_append, hmemory]
    cases (c.evaluate line).result <;> rfl

end DeskCalculator
