import QuorumLab.Proofs.Engine.Calls

/-!
# Runs in time

A run along a clock that never goes back: each iteration reads it no earlier than the one before
did. Beside the events of an engine its machine may change by itself, as one does whose disk fills
up. What statements do, and at which readings, is noted in a chronicle.
-/

namespace QuorumLab

/-- The clock goes back neither before an iteration, where it read `clock`, nor in it. -/
structure Readings.Follow (t : Readings) (clock : Nat) : Prop where
  due : clock ≤ t.due
  ticked : t.due ≤ t.ticked
  checked : t.ticked ≤ t.checked
  noted : t.checked ≤ t.noted

instance (t : Readings) (clock : Nat) : Decidable (t.Follow clock) :=
  decidable_of_iff (clock ≤ t.due ∧ t.due ≤ t.ticked ∧ t.ticked ≤ t.checked ∧ t.checked ≤ t.noted)
    ⟨fun ⟨due, ticked, checked, noted⟩ => ⟨due, ticked, checked, noted⟩,
      fun ⟨due, ticked, checked, noted⟩ => ⟨due, ticked, checked, noted⟩⟩

/-- What the clock reads in the iteration that an event begins. -/
def Event.readings? {ω : Type} : Event ω → Option Readings
  | .command _ t | .wake _ t => some t
  | _ => none

/-- What can happen to an engine while time passes: an event, or its machine changes by itself. -/
inductive Occurrence (μ ω : Type) where
  | event (v : Event ω)
  | machine (machine : μ)

/-- What the clock read last, how many iterations have begun, and what was noted of their
statements. -/
structure Chronicle (γ : Type) where
  clock : Nat
  begun : Nat := 0
  notes : List γ := []
  deriving Repr, DecidableEq

/-- A statement that reads the clock. -/
def Act.reads : Act → Bool
  | .tick _ _ | .policy _ _ => true
  | _ => false

namespace Engine

variable {κ μ : Type}

/-- The statement that is next. -/
def next? (e : Engine κ μ) : Option Act :=
  match e.ending with
  | none => e.loop.todo.head?
  | some _ => none

section Next

variable {e : Engine κ μ}

theorem next?_eq_some_iff {a : Act} :
    e.next? = some a ↔ e.ending = none ∧ ∃ rest, e.loop.todo = a :: rest := by
  cases live : e.ending <;> simp [next?, live, List.head?_eq_some_iff]

theorem next?_eq_none (nothing : e.ending = none → e.loop.todo = []) : e.next? = none := by
  cases live : e.ending with
  | none => simp [next?, live, nothing live]
  | some ending => simp [next?, live]

end Next

/-- The machine becomes another one, with the same counts. -/
def exchange (e : Engine κ μ) (machine : μ) : Engine κ μ :=
  { e with loop.driver.machine.machine := machine }

end Engine

variable {κ μ ω γ : Type} [Core κ] [Machine μ] [Carrier ω]

/-- The chronicle of an engine after an event. A statement is noted as `note` says. -/
def Chronicle.after (note : Nat → Driver κ μ → Act → Option γ) (c : Chronicle γ)
    (e : Engine κ μ) : Event ω → Chronicle γ
  | .wake _ t => if e.resting then { c with clock := t.noted, begun := c.begun + 1 } else c
  | .command _ t =>
    if e.resting && !e.queue.isEmpty then { c with clock := t.noted, begun := c.begun + 1 } else c
  | .statement => { c with notes := c.notes ++ (e.next?.bind (note c.begun e.driver)).toList }
  | _ => c

/-- Runs in which the clock never goes back and every statement is one that `allowed` lets pass. -/
def timed (ω : Type) [Carrier ω] (allowed : Driver κ μ → Act → Prop)
    (note : Nat → Driver κ μ → Act → Option γ) :
    System (Moment κ μ ω (Chronicle γ)) (Occurrence μ ω) where
  admits m
    | .event v => (∀ t ∈ v.readings?, t.Follow m.record.clock) ∧
        ∀ a ∈ m.engine.next?, allowed m.engine.driver a
    | .machine _ => True
  after m
    | .event v => m.next v (m.record.after note m.engine v)
    | .machine x => { m with engine := m.engine.exchange x }

instance (allowed : Driver κ μ → Act → Prop) [∀ d a, Decidable (allowed d a)]
    (note : Nat → Driver κ μ → Act → Option γ) (m : Moment κ μ ω (Chronicle γ)) :
    ∀ o, Decidable ((timed ω allowed note).admits m o)
  | .event v => inferInstanceAs (Decidable ((∀ t ∈ v.readings?, t.Follow m.record.clock) ∧
      ∀ a ∈ m.engine.next?, allowed m.engine.driver a))
  | .machine _ => isTrue trivial

/-- The notes lead from `s` to `s'`, each by a step of its own. -/
def Leads {σ : Type} (step : σ → γ → σ → Prop) : σ → List γ → σ → Prop
  | s, [], s' => s' = s
  | s, x :: notes, s' => ∃ t, step s x t ∧ Leads step t notes s'

section Leads

variable {σ : Type} {step : σ → γ → σ → Prop} {s s' : σ}

theorem leads_append {notes more : List γ} : Leads step s (notes ++ more) s' ↔
    ∃ t, Leads step s notes t ∧ Leads step t more s' := by
  induction notes generalizing s with
  | nil => simp [Leads]
  | cons x notes ih =>
    simp only [List.cons_append, Leads, ih]
    constructor
    · rintro ⟨u, first, t, rest, last⟩
      exact ⟨t, ⟨u, first, rest⟩, last⟩
    · rintro ⟨t, ⟨u, first, rest⟩, last⟩
      exact ⟨u, first, t, rest, last⟩

theorem leads_singleton {x : γ} : Leads step s [x] s' ↔ step s x s' := by
  simp [Leads]

/-- A mark that only some of the notes set is what the last of these has set it to. -/
theorem Leads.getLastD {β : Type} {notes : List γ} (h : Leads step s notes s') (mark : σ → β)
    (set? : γ → Option β)
    (sets : ∀ {s x t}, step s x t → mark t = (set? x).getD (mark s)) :
    mark s' = (notes.filterMap set?).getLastD (mark s) := by
  induction notes generalizing s with
  | nil => exact congrArg mark h
  | cons x notes ih =>
    obtain ⟨t, step, rest⟩ := h
    rw [ih rest, sets step]
    cases set : set? x with
    | none => rw [List.filterMap_cons_none set, Option.getD_none]
    | some y => rw [List.filterMap_cons_some set, Option.getD_some, List.getLastD_cons]

/-- Where each note keeps its distance from the mark it finds, and moves it to a place of its own,
it keeps that distance from the places of all notes before it. -/
theorem Leads.apart {β δ : Type} {notes : List γ} {R : β → δ → Prop} (h : Leads step s notes s')
    (mark : σ → β) (set? : γ → Option δ) (place : δ → β)
    (sets : ∀ {s x t}, step s x t → mark t = ((set? x).map place).getD (mark s))
    (keeps : ∀ {s x t}, step s x t → ∀ y ∈ set? x, R (mark s) y)
    (further : ∀ {b y z}, R b y → R (place y) z → R b z) :
    (∀ y ∈ notes.filterMap set?, R (mark s) y) ∧
      (notes.filterMap set?).Pairwise fun y z => R (place y) z := by
  induction notes generalizing s with
  | nil => exact ⟨by simp, .nil⟩
  | cons x notes ih =>
    obtain ⟨t, step, rest⟩ := h
    obtain ⟨above, apart⟩ := ih rest
    rw [sets step] at above
    cases set : set? x with
    | none =>
      rw [set] at above
      rw [List.filterMap_cons_none set]
      exact ⟨above, apart⟩
    | some y =>
      have first := keeps step y set
      rw [set] at above
      rw [List.filterMap_cons_some set, List.forall_mem_cons, List.pairwise_cons]
      exact ⟨⟨first, fun z hz => further first (above z hz)⟩, above, apart⟩

end Leads

/-! ## What follows the clock -/

namespace Driver

/-- `d'` goes by the settings that `d` goes by, and by the same deadlines. -/
structure Punctual (d d' : Driver κ μ) : Prop where
  settings : d'.settings = d.settings
  nextTick : d'.nextTick = d.nextTick
  lastCheck : d'.lastCheck = d.lastCheck

omit [Core κ] [Machine μ] in
theorem punctual_enlist (d : Driver κ μ) (index : Nat) (p : Proposal) :
    d.Punctual (d.enlist index p) := by
  simp only [enlist]
  split <;> exact ⟨rfl, rfl, rfl⟩

omit [Core κ] in
theorem punctual_takeSnapshot (d : Driver κ μ) : d.Punctual d.takeSnapshot.2 := by
  obtain ⟨machine, shelf, lastSnapshot, frame⟩ := d.takeSnapshot_frame
  rw [frame]
  exact ⟨rfl, rfl, rfl⟩

variable {d d' : Driver κ μ}

theorem punctual_handle {c : Command} (done : d.handle c = .ok d') : d.Punctual d' := by
  cases c with
  | propose ticket data =>
    rcases propose_cases done with ⟨-, _, rfl⟩ | ⟨-, _, core, -, rfl⟩ | ⟨-, core, -, rfl⟩
    · exact ⟨rfl, rfl, rfl⟩
    · exact ⟨rfl, rfl, rfl⟩
    · have same := punctual_enlist { d with core } (Core.lastIndex core d.shelf)
        { term := Core.term core, ticket }
      exact ⟨same.settings, same.nextTick, same.lastCheck⟩
  | snapshot ticket =>
    rw [handle_snapshot] at done
    cases done
    have same := d.punctual_takeSnapshot
    exact ⟨same.settings, same.nextTick, same.lastCheck⟩
  | membership | stop =>
    cases done
    exact ⟨rfl, rfl, rfl⟩

/-- Only what reads the clock moves a deadline. -/
theorem punctual_perform {w w' : ω} {a : Act} (silent : a.reads = false)
    (done : d.perform w a = .done (d', w')) : d.Punctual d' := by
  cases a with
  | receive m =>
    obtain ⟨_, received, same⟩ := Effect.map_ofFault_done done
    cases same
    obtain ⟨core, rfl⟩ := receive_eq received
    exact ⟨rfl, rfl, rfl⟩
  | handle c =>
    obtain ⟨_, handled, same⟩ := Effect.map_ofFault_done done
    cases same
    exact punctual_handle handled
  | send m =>
    cases sent : d.send m w with
    | error f => rw [perform, sent] at done; cases done
    | ok r =>
      rw [perform, sent] at done
      cases done
      obtain ⟨core, rfl⟩ := send_eq sent
      exact ⟨rfl, rfl, rfl⟩
  | restore s =>
    obtain ⟨_, restored, same⟩ := Effect.map_ofSetback_done done
    cases same
    obtain ⟨machine, -, rfl⟩ := restore_ok restored
    exact ⟨rfl, rfl, rfl⟩
  | apply e =>
    obtain ⟨_, applied, same⟩ := Effect.map_ofApplied_done done
    cases same
    rcases apply_cases applied with ⟨-, rfl⟩ | ⟨-, machine, rfl, -⟩
    · exact ⟨rfl, rfl, rfl⟩
    · rcases noteApplied_cases { d with machine } e with ⟨-, noted⟩ | ⟨_, _, -, noted, -⟩ <;>
        rw [noted] <;> exact ⟨rfl, rfl, rfl⟩
  | append batch =>
    obtain ⟨_, appended, same⟩ := Effect.map_ofSetback_done done
    cases same
    rcases append_cases d batch with ⟨log, -, taken⟩ | ⟨_, -, refused⟩
    · rw [taken] at appended
      cases appended
      exact ⟨rfl, rfl, rfl⟩
    · rw [refused] at appended
      cases appended
  | settle =>
    obtain ⟨core, -, same⟩ := Effect.map_ofFault_done done
    cases same
    exact ⟨rfl, rfl, rfl⟩
  | observe =>
    cases done
    rcases d.observeRole_cases with ⟨-, same⟩ | ⟨-, -, same⟩ | ⟨-, -, same⟩ <;> rw [same] <;>
      exact ⟨rfl, rfl, rfl⟩
  | setHardState | setCommit | publish =>
    cases done
    exact ⟨rfl, rfl, rfl⟩
  | tick | policy => cases silent

theorem settings_perform {w w' : ω} {a : Act} (done : d.perform w a = .done (d', w')) :
    d'.settings = d.settings := by
  cases a with
  | tick now later =>
    obtain ⟨_, ticked, same⟩ := Effect.map_ofFault_done done
    cases same
    obtain ⟨core, nextTick, rfl⟩ := tickIfDue_eq ticked
    rfl
  | policy now noted =>
    cases done
    obtain ⟨machine, shelf, lastSnapshot, lastCheck, frame⟩ := d.checkPolicy_frame now noted
    rw [frame]
  | receive | handle | send | restore | apply | append | setHardState | setCommit | settle
  | observe | publish => exact (punctual_perform rfl done).settings

end Driver

/-! ## What a run keeps -/

/-- `Q` holds of the notes and the protocol at any time. While the engine runs, `P` holds of the
notes, its driver and the statements left that read the clock: each statement passes it on, as does
all else that happens. -/
structure Minutes (ω : Type) [Carrier ω] (allowed : Driver κ μ → Act → Prop)
    (note : Nat → Driver κ μ → Act → Option γ) (Q : List γ → κ → Prop)
    (P : Chronicle γ → Driver κ μ → List Act → Prop) : Prop where
  /-- An entry that is held up is not noted. -/
  held : ∀ {n d x}, note n d (.apply x) = none
  sound : ∀ {c d left}, P c d left → Q c.notes d.core
  exchange : ∀ {c d left} machine, P c d left → P c { d with machine.machine := machine } left
  wake : ∀ {c d} {t : Readings}, P c d [] → t.Follow c.clock →
    P { c with clock := t.noted, begun := c.begun + 1 } d
      [.tick t.due t.ticked, .policy t.checked t.noted]
  turn : ∀ {c d ops core}, P c d [] → Core.Calls ops d.core core →
    ops ⊆ [.ready, .advance] → P c { d with core } []
  /-- A statement that ends the driver has been noted as well. -/
  noted : ∀ {c d a left}, P c d ([a].filter Act.reads ++ left) → allowed d a →
    Q (c.notes ++ (note c.begun d a).toList) d.core
  did : ∀ {c d a left d'} {w w' : ω}, P c d ([a].filter Act.reads ++ left) → allowed d a →
    d.perform w a = .done (d', w') →
    P { c with notes := c.notes ++ (note c.begun d a).toList } d' left

section Silence

omit [Core κ] [Machine μ]

theorem Ready.not_reads (r : Ready) : r.acts.filter Act.reads = [] := by
  simp only [Ready.acts, List.filter_eq_nil_iff, List.mem_append, List.mem_map, Option.mem_toList,
    Option.map_eq_some_iff]
  intro a ha
  rcases ha with ((((⟨m, -, rfl⟩ | ⟨s, -, rfl⟩) | ⟨e, -, rfl⟩) | ha) | ⟨h, -, rfl⟩) | ⟨m, -, rfl⟩
  case inl.inl.inr =>
    split at ha
    · cases ha
    · cases List.mem_singleton.mp ha
      exact Bool.false_ne_true
  all_goals exact Bool.false_ne_true

theorem Followup.not_reads (f : Followup) : (f.acts ++ Loop.coda).filter Act.reads = [] := by
  simp only [acts, Loop.coda, List.filter_eq_nil_iff, List.mem_append, List.mem_map,
    Option.mem_toList, Option.map_eq_some_iff, List.mem_cons, List.not_mem_nil, or_false]
  intro a ha
  rcases ha with (((⟨c, -, rfl⟩ | ⟨m, -, rfl⟩) | ⟨e, -, rfl⟩) | rfl) | rfl | rfl <;>
    exact Bool.false_ne_true

theorem Loop.reads_wake (l : Loop κ μ) (cause : Option Command) (inbox : List Message)
    (t : Readings) : (l.wake (cause.map .handle).toList inbox t).todo.filter Act.reads =
      [.tick t.due t.ticked, .policy t.checked t.noted] := by
  have taken : ((cause.map Act.handle).toList ++ inbox.map Act.receive).filter Act.reads = [] := by
    cases cause <;> simp [Act.reads]
  rw [wake, List.filter_append, taken]
  rfl

end Silence

/-- What is so of an engine and its chronicle. -/
def Engine.Minuted (Q : List γ → κ → Prop) (P : Chronicle γ → Driver κ μ → List Act → Prop)
    (e : Engine κ μ) (c : Chronicle γ) : Prop :=
  Q c.notes e.driver.core ∧ (e.ending = none → P c e.driver (e.loop.todo.filter Act.reads))

section Run

variable {allowed : Driver κ μ → Act → Prop} {note : Nat → Driver κ μ → Act → Option γ}
variable {Q : List γ → κ → Prop} {P : Chronicle γ → Driver κ μ → List Act → Prop}
variable {e : Engine κ μ} {c : Chronicle γ}

namespace Engine.Minuted

omit [Core κ] [Machine μ] in
theorem finish (notes : Q c.notes e.driver.core) (ending : Ending) :
    (e.finish ending).Minuted Q P c := by
  refine ⟨(e.alike_finish ending).2.symm ▸ notes, ?_⟩
  intro live
  cases live

/-- What comes from a handle or the network is not for the chronicle. -/
theorem asks (note : Nat → Driver κ μ → Act → Option γ) (before : e.Minuted Q P c) (w : ω)
    {v : Event ω} (outside : v.Outside) :
    (e.after w v).1.Minuted Q P (c.after note e v) := by
  have same : c.after note e v = c := by
    cases v with
    | apply | snapshot | membership | requestStop | network => rfl
    | command | wake | abandon | statement => exact absurd outside not_false
  have asked := e.asks w outside
  rw [same]
  generalize (e.after w v).1 = e' at asked
  cases asked <;> exact before

end Engine.Minuted

namespace Minutes

variable (h : Minutes ω allowed note Q P)

include h

/-- An iteration begins with the readings it is given. -/
theorem wakes (before : e.Minuted Q P c) (rest : e.resting = true) (cause : Option Command)
    (queue : List Command) (inbox : List Message) {t : Readings} (follow : t.Follow c.clock) :
    ({ e with queue, loop := e.loop.wake (cause.map .handle).toList inbox t } :
      Engine κ μ).Minuted Q P { c with clock := t.noted, begun := c.begun + 1 } := by
  obtain ⟨live, -, idle⟩ := e.resting_iff.mp rest
  have held := before.2 live
  rw [idle] at held
  refine ⟨before.1, fun _ => ?_⟩
  rw [e.loop.reads_wake]
  exact h.wake held follow

/-- What waits for the engine to rest begins an iteration, ends the engine or does nothing. -/
theorem rouses (before : e.Minuted Q P c) (w : ω) {v : Event ω} (awaited : v.Awaited)
    (follow : ∀ t ∈ v.readings?, t.Follow c.clock) :
    (e.after w v).1.Minuted Q P (c.after note e v) := by
  by_cases rest : e.resting = true
  case neg =>
    cases v with
    | wake | command | abandon => simpa [Engine.after, Chronicle.after, rest] using before
    | apply | snapshot | membership | requestStop | statement | network =>
      exact absurd awaited not_false
  cases v with
  | wake inbox t =>
    simp only [Engine.after, Chronicle.after, if_pos rest]
    exact h.wakes before rest none e.queue inbox (follow t rfl)
  | command inbox t =>
    simp only [Engine.after, Chronicle.after, rest, if_true, Bool.true_and, Engine.take]
    cases waiting : e.queue with
    | nil => exact before
    | cons command queue =>
      simp only [List.isEmpty_cons, Bool.not_false, if_true]
      cases command with
      | stop =>
        exact .finish (e := { e with queue }) (c := { c with clock := t.noted, begun := c.begun + 1 })
          before.1 _
      | propose | snapshot | membership =>
        exact h.wakes before rest (some _) queue inbox (follow t rfl)
  | abandon =>
    simp only [Engine.after, Chronicle.after, rest, Bool.true_and]
    split
    · exact .finish before.1 _
    · exact before
  | apply | snapshot | membership | requestStop | statement | network =>
    exact absurd awaited not_false

/-- A statement is noted, whatever comes of it. -/
theorem advances (before : e.Minuted Q P c) (w : ω)
    (permitted : ∀ a ∈ e.next?, allowed e.driver a) :
    (e.advance w).1.Minuted Q P
      { c with notes := c.notes ++ (e.next?.bind (note c.begun e.driver)).toList } := by
  have next {a rest} (live : e.ending = none) (todo : e.loop.todo = a :: rest) :
      e.next? = some a ∧ P c e.driver ([a].filter Act.reads ++ rest.filter Act.reads) := by
    have held := before.2 live
    rw [todo, ← List.singleton_append, List.filter_append] at held
    exact ⟨Engine.next?_eq_some_iff.mpr ⟨live, rest, todo⟩, held⟩
  have step := e.advances w
  generalize (e.advance w).1 = e' at step
  cases step with
  | still _ _ held =>
    have none : e.next?.bind (note c.begun e.driver) = none := by
      rcases Option.eq_none_or_eq_some e.ending with live | ⟨ending, past⟩
      · rcases held live with todo | ⟨x, rest, todo⟩
        · rw [Engine.next?_eq_none fun _ => todo, Option.bind_none]
        · rw [Engine.next?_eq_some_iff.mpr ⟨live, rest, todo⟩, Option.bind_some, h.held]
      · rw [Engine.next?_eq_none (by simp [past]), Option.bind_none]
    simpa [none] using before
  | did live todo done =>
    obtain ⟨next, held⟩ := next live todo
    have after := h.did held (permitted _ next) done
    rw [next]
    exact ⟨h.sound after, fun _ => after⟩
  | @turned l live todo busy turn =>
    have none := Engine.next?_eq_none fun _ => todo
    have held := before.2 live
    rw [todo] at held
    obtain ⟨core, driver, acts⟩ := e.turn_cases live todo busy turn
    obtain ⟨ops, run, called, -⟩ := Loop.turn_calls turn
    have called : ops ⊆ [.ready, .advance] :=
      List.Subset.trans called.subset e.loop.stage.calls_subset
    rw [driver] at run
    have held : P c l.driver [] := driver ▸ h.turn held run called
    simp only [none, Option.bind_none, Option.toList_none, List.append_nil]
    refine ⟨h.sound held, fun _ => ?_⟩
    have silent : l.todo.filter Act.reads = [] := by
      rcases acts with ⟨-, -, acts, -⟩ | ⟨r, -, -, acts, -⟩ | ⟨f, -, -, acts, -⟩ <;> rw [acts]
      · rfl
      · exact r.not_reads
      · exact f.not_reads
    rw [silent]
    exact held
  | stopped live todo stop =>
    obtain ⟨next, held⟩ := next live todo
    rw [next]
    refine .finish ?_ _
    have noted := h.noted held (permitted _ next)
    rw [← Driver.core_of_stopped stop] at noted
    exact noted
  | crashed live =>
    -- It is a statement that is at fault, or the protocol when there is none left.
    cases todo : e.loop.todo with
    | nil =>
      have none := Engine.next?_eq_none fun _ => todo
      simp only [none, Option.bind_none, Option.toList_none, List.append_nil]
      exact .finish before.1 _
    | cons a rest =>
      obtain ⟨next, held⟩ := next live todo
      rw [next]
      exact .finish (h.noted held (permitted _ next)) _

/-- So all that happens keeps what is so of an engine and its chronicle. -/
theorem reachable {e₀ : Engine κ μ} {w₀ : ω} {c₀ : Chronicle γ}
    (start : P c₀ e₀.driver (e₀.loop.todo.filter Act.reads)) {m : Moment κ μ ω (Chronicle γ)}
    (run : Reachable (timed ω allowed note) ⟨e₀, w₀, c₀⟩ m) : m.engine.Minuted Q P m.record := by
  apply run.invariant (P := fun m => m.engine.Minuted Q P m.record)
    ⟨h.sound start, fun _ => start⟩
  intro m o before admitted
  cases o with
  | machine x => exact ⟨before.1, fun live => h.exchange x (before.2 live)⟩
  | event v =>
    obtain ⟨follow, permitted⟩ := admitted
    cases v with
    | apply | snapshot | membership | requestStop | network =>
      exact before.asks note m.network trivial
    | command | wake | abandon => exact h.rouses before _ trivial follow
    | statement => exact h.advances before _ permitted

end Minutes

end Run

end QuorumLab
