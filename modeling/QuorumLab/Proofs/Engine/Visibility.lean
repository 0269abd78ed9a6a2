import Mathlib.Control.Monad.Basic
import QuorumLab.Machine.Rig
import QuorumLab.Proofs.Engine.Answers

/-!
# When an answer can be seen

An entry is answered when it is applied, but an observer sees what is applied only once the
driver publishes, at the end of the iteration. In between, and for good if the driver does not
survive the rest of the iteration, a command is answered with an index that nobody sees.
-/

namespace QuorumLab

namespace Driver

variable {κ μ ω : Type} [Core κ] [Machine μ] [Carrier ω] {d d' : Driver κ μ} {w w' : ω} {a : Act}

/-- From `d` to `d'` answers are only added, and each new one that is an index `i` for the
ticket `n` satisfies `P n i`. -/
def Tells (d d' : Driver κ μ) (P : Nat → Nat → Prop) : Prop :=
  ∃ new, d'.answers = d.answers ++ new ∧ ∀ n i, (n, .ok (.index i)) ∈ new → P n i

omit [Core κ] [Machine μ] in
theorem Tells.silent {P : Nat → Nat → Prop} (same : d'.answers = d.answers) : d.Tells d' P :=
  ⟨[], by rw [same, List.append_nil], fun n i hi => by cases hi⟩

omit [Core κ] [Machine μ] in
theorem Tells.one {P : Nat → Nat → Prop} (ticket : Nat) (o : Outcome)
    (added : d'.answers = d.answers ++ [(ticket, o)])
    (told : ∀ i, o = .ok (.index i) → P ticket i) : d.Tells d' P := by
  refine ⟨_, added, ?_⟩
  intro n i hi
  obtain ⟨rfl, here⟩ := Prod.mk.inj (List.mem_singleton.mp hi)
  exact told i here.symm

omit [Core κ] [Machine μ] in
theorem Tells.refused {P : Nat → Nat → Prop} (ticket : Nat) (f : Failure)
    (added : d'.answers = d.answers ++ [(ticket, .error f)]) : d.Tells d' P :=
  .one ticket _ added fun i same => by cases same

omit [Carrier ω] in
theorem tells_handle {c : Command} (done : d.handle c = .ok d') :
    d.Tells d' fun n i => c.ticket? = some n ∧ i = d'.applied := by
  cases c with
  | propose ticket data =>
    rcases propose_cases done with ⟨-, leader, rfl⟩ | ⟨-, refusal, core, -, rfl⟩ | ⟨-, core, -, rfl⟩
    · exact .refused _ _ rfl
    · exact .refused _ _ rfl
    · cases waits : d.pending.lookup (Core.lastIndex core d.shelf) with
      | none =>
        apply Tells.silent
        simp only [enlist, waits]
      | some old =>
        refine .refused old.ticket .shutdown ?_
        simp only [enlist, waits, answer]
  | snapshot ticket =>
    rw [handle_snapshot] at done
    cases done
    refine .one ticket (d.takeSnapshot.1.map .index) ?_ ?_
    · change d.takeSnapshot.2.answers ++ _ = _
      rw [d.mute_takeSnapshot.answers]
    · intro i told
      refine ⟨rfl, ?_⟩
      change i = d.takeSnapshot.2.applied
      rw [d.applied_takeSnapshot]
      cases taken : d.takeSnapshot.1 with
      | error f =>
        rw [taken] at told
        cases told
      | ok k =>
        rw [taken] at told
        cases told
        exact index_takeSnapshot taken
  | membership ticket =>
    cases done
    exact .one ticket _ rfl fun i same => by cases same
  | stop =>
    cases done
    exact .silent rfl

/-- Every index that a statement answers is what is applied then. Where no command is taken in,
it is the index of an entry that was just applied. -/
theorem tells_perform (done : d.perform w a = .done (d', w')) :
    d.Tells d' fun n i =>
      i = d'.applied ∧ (a.ticket? = some n ∨ (∃ x, a = .apply x) ∧ d.applied < i) := by
  cases a with
  | handle c =>
    obtain ⟨_, hh, he⟩ := Effect.map_ofFault_done done
    cases he
    obtain ⟨new, added, told⟩ := tells_handle hh
    exact ⟨new, added, fun n i hi => ⟨(told n i hi).2, Or.inl (told n i hi).1⟩⟩
  | apply x =>
    obtain ⟨_, ha, he⟩ := Effect.map_ofApplied_done done
    cases he
    rcases apply_cases ha with ⟨-, rfl⟩ | ⟨new, machine, rfl, -⟩
    · exact .silent rfl
    · have applied := (alike_noteApplied { d with machine } x).applied
      rcases noteApplied_cases { d with machine } x with ⟨-, noted⟩ | ⟨p, o, -, noted, own⟩
      · exact .silent (by rw [noted])
      · refine .one p.ticket o (by rw [noted]; rfl) ?_
        intro i told
        rcases own with ⟨-, index⟩ | ⟨-, lost⟩
        · rw [told] at index
          cases index
          exact ⟨applied.symm, Or.inr ⟨⟨x, rfl⟩, new⟩⟩
        · rw [told] at lost
          cases lost
  | observe =>
    cases done
    rcases d.observeRole_cases with ⟨-, same⟩ | ⟨-, -, same⟩ | ⟨-, -, same⟩ <;> rw [same]
    · exact .silent rfl
    · refine ⟨_, rfl, ?_⟩
      intro n i hi
      obtain ⟨q, -, told⟩ := List.mem_map.mp hi
      cases told
    · exact .silent rfl
  | receive | tick | policy | send | restore | append | setHardState | setCommit | settle
  | publish => exact .silent (mute_of_plain (by trivial) done).answers

end Driver

/-! ## The record -/

/-- The answers that entries gave as they were applied, since the driver last published. -/
abbrev Unseen := List (Nat × Outcome)

namespace Unseen

variable {κ μ ω : Type}

/-- The record after a statement has made `d'` of `d`. -/
def noteAct (u : Unseen) (d d' : Driver κ μ) : Act → Unseen
  | .apply _ => u ++ d'.answers.drop d.answers.length
  | .publish => []
  | _ => u

/-- The record after an event has made `e'` of `e`. An engine that has ended applies and
publishes nothing. -/
def note (u : Unseen) (e e' : Engine κ μ) : Event ω → Unseen
  | .statement =>
    if e'.ended then u else (e.loop.todo.head?.map (u.noteAct e.driver e'.driver)).getD u
  | _ => u

theorem note_of_ended {u : Unseen} {e e' : Engine κ μ} (past : e'.ended = true) :
    u.note e e' (.statement : Event ω) = u := if_pos past

end Unseen

/-- Runs in which the protocol hands out no snapshot of what is applied already. -/
def visibility (κ μ ω : Type) [Core κ] [Machine μ] [Carrier ω] :
    System (Moment κ μ ω Unseen) (Event ω) where
  admits m _ := ∀ r ∈ m.engine.round?, ∀ s ∈ r.snapshot, m.engine.driver.applied < s.index
  after m v := m.next v (m.record.note m.engine (m.engine.after m.network v).1 v)

instance {κ μ ω : Type} [Core κ] [Machine μ] [Carrier ω] (m : Moment κ μ ω Unseen)
    (v : Event ω) : Decidable ((visibility κ μ ω).admits m v) :=
  inferInstanceAs (Decidable (∀ r ∈ m.engine.round?, ∀ s ∈ r.snapshot,
    m.engine.driver.applied < s.index))

namespace Unseen

variable {κ μ ω : Type}

/-- An index that was answered has been applied. An observer sees as much, unless the answer is
in the record. -/
structure Sound (u : Unseen) (d : Driver κ μ) : Prop where
  given : ∀ a ∈ u, a ∈ d.answers
  applied : ∀ n i, (n, .ok (.index i)) ∈ d.answers → i ≤ d.applied
  seen : ∀ n i, (n, .ok (.index i)) ∈ d.answers →
    i ≤ d.published.applied ∨ (n, .ok (.index i)) ∈ u
  unseen : ∀ n i, (n, .ok (.index i)) ∈ u → d.published.applied < i
  published_le : d.published.applied ≤ d.applied

/-- An observer sees all that is applied. -/
structure Clear (u : Unseen) (d : Driver κ μ) : Prop where
  empty : u = []
  level : d.published.applied = d.applied

theorem Clear.publish [Core κ] (d : Driver κ μ) : Clear [] d.publish := ⟨rfl, rfl⟩

/-- More answers, each that can be seen or is in the record, and that was applied by then. -/
theorem Sound.extend {u u' new : Unseen} {d d' : Driver κ μ} (sound : u.Sound d)
    (added : d'.answers = d.answers ++ new) (further : d.applied ≤ d'.applied)
    (published : d'.published.applied = d.published.applied) (old : u ⊆ u')
    (given : ∀ a ∈ u', a ∈ u ∨ a ∈ new)
    (told : ∀ n i, (n, .ok (.index i)) ∈ new → i ≤ d'.applied ∧
      ((n, .ok (.index i)) ∈ u' ↔ d.published.applied < i)) :
    u'.Sound d' := by
  have answers : ∀ a, a ∈ d'.answers ↔ a ∈ d.answers ∨ a ∈ new := fun a => by
    rw [added, List.mem_append]
  constructor
  case given => exact fun a ha => (answers a).mpr ((given a ha).imp_left (sound.given a))
  case applied =>
    intro n i hi
    rcases (answers _).mp hi with before | new
    · exact Nat.le_trans (sound.applied n i before) further
    · exact (told n i new).1
  case seen =>
    intro n i hi
    rw [published]
    rcases (answers _).mp hi with before | new
    · exact (sound.seen n i before).imp_right (@old _)
    · rw [(told n i new).2]
      exact (Nat.lt_or_ge _ i).symm
  case unseen =>
    intro n i hi
    rw [published]
    rcases given _ hi with before | new
    · exact sound.unseen n i before
    · exact (told n i new).2.mp hi
  case published_le => exact published ▸ Nat.le_trans sound.published_le further

section Act

variable [Core κ] [Machine μ] [Carrier ω] {u : Unseen} {d d' : Driver κ μ} {w w' : ω} {a : Act}

omit [Core κ] [Machine μ] in
theorem noteAct_of_ne (publish : a ≠ .publish) (apply : ∀ x, a ≠ .apply x) :
    u.noteAct d d' a = u := by
  cases a with
  | publish => exact absurd rfl publish
  | apply x => exact absurd rfl (apply x)
  | _ => rfl

/-- What a statement answers, it answers truly, and in the record if it cannot be seen. -/
theorem Sound.perform (sound : u.Sound d) (ahead : ∀ s, a = .restore s → d.applied < s.index)
    (clear : a.ticket? ≠ none → u.Clear d) (done : d.perform w a = .done (d', w')) :
    (u.noteAct d d' a).Sound d' := by
  obtain ⟨new, added, told⟩ := Driver.tells_perform done
  have further := Driver.applied_le_perform ahead done
  by_cases publish : a = .publish
  · -- all that is applied is seen now, so the record may be emptied
    subst publish
    cases done
    exact ⟨fun _ hu => absurd hu List.not_mem_nil, sound.applied,
      fun n i hi => Or.inl (sound.applied n i hi), fun _ _ hu => absurd hu List.not_mem_nil,
      Nat.le_refl _⟩
  have published := congrArg Published.applied (Driver.kept_perform publish done).published
  by_cases apply : ∃ x, a = .apply x
  · -- an answer lies above all that was applied before, so above all that is seen
    obtain ⟨x, rfl⟩ := apply
    have noted : u.noteAct d d' (.apply x) = u ++ new := by
      rw [noteAct, added, List.drop_left]
    rw [noted]
    apply sound.extend added further published (List.subset_append_left _ _)
    · exact fun b hb => List.mem_append.mp hb
    · intro n i hi
      obtain ⟨here, mine | ⟨-, above⟩⟩ := told n i hi
      · cases mine
      · exact ⟨Nat.le_of_eq here, fun _ => Nat.lt_of_le_of_lt sound.published_le above,
          fun _ => List.mem_append_right _ hi⟩
  · -- a snapshot answers with what is applied, and is taken where an observer sees all of it
    rw [noteAct_of_ne publish fun x same => apply ⟨x, same⟩]
    apply sound.extend added further published (List.Subset.refl _)
    · exact fun b hb => Or.inl hb
    · intro n i hi
      obtain ⟨here, mine | ⟨applies, -⟩⟩ := told n i hi
      · obtain ⟨rfl, level⟩ := clear (mine ▸ Option.some_ne_none n)
        have still : d'.applied = d.applied := by
          rcases Driver.applied_perform done with same | ⟨x, rfl, -⟩ | ⟨s, rfl, -⟩
          · exact same
          · cases mine
          · cases mine
        exact ⟨Nat.le_of_eq here, fun hu => absurd hu List.not_mem_nil, fun above => by omega⟩
      · exact absurd applies apply

end Act

end Unseen

/-! ## While the engine runs -/

/-- A statement of an iteration before its round. -/
def Act.Opens : Act → Prop
  | .receive _ | .handle _ | .tick _ _ | .policy _ _ => True
  | _ => False

theorem Loop.opens_wake {κ μ : Type} (l : Loop κ μ) (cause : Option Command)
    (inbox : List Message) (t : Readings) :
    ∀ a ∈ (l.wake (cause.map .handle).toList inbox t).todo, a.Opens := by
  intro a ha
  simp only [wake, List.mem_append, Option.mem_toList, Option.map_eq_some_iff, List.mem_map,
    List.mem_cons, List.not_mem_nil, or_false] at ha
  rcases ha with (⟨c, -, rfl⟩ | ⟨m, -, rfl⟩) | rfl | rfl <;> trivial

namespace Unseen

variable {κ μ ω : Type}

/-- What the record knows of a loop that runs: until the round of an iteration an observer sees
all, and after that the driver is still to publish. -/
structure Guides (u : Unseen) (l : Loop κ μ) : Prop where
  paced : Act.Paced l.driver.applied l.todo
  opening : l.stage = .opening → u.Clear l.driver ∧ ∀ a ∈ l.todo, a.Opens
  later : l.stage ≠ .opening → ∀ a ∈ l.todo, a.ticket? = none
  closing : l.stage = .closing → .publish ∈ l.todo ∨ l.todo = [] ∧ u.Clear l.driver

/-- What the record knows of an engine at any time. -/
structure Knows (u : Unseen) (e : Engine κ μ) : Prop where
  accounted : e.Accounted
  sound : u.Sound e.driver
  guides : e.ending = none → u.Guides e.loop
  returned : e.ending = some (.returned (.ok ())) → u.Clear e.driver

theorem Guides.clear {u : Unseen} {l : Loop κ μ} (guides : u.Guides l) (idle : l.todo = [])
    (closing : l.stage = .closing) : u.Clear l.driver := by
  rcases guides.closing closing with publish | ⟨-, clear⟩
  · rw [idle] at publish
    cases publish
  · exact clear

theorem Guides.wake {u : Unseen} {l : Loop κ μ} (clear : u.Clear l.driver)
    (cause : Option Command) (inbox : List Message) (t : Readings) :
    u.Guides (l.wake (cause.map .handle).toList inbox t) where
  paced := Or.inl fun s hs => l.opens_wake cause inbox t _ hs
  opening _ := ⟨clear, l.opens_wake cause inbox t⟩
  later other := absurd rfl other
  closing stage := by cases stage

/-- The next stage begins. -/
theorem Guides.begin [Core κ] {u : Unseen} {e : Engine κ μ} {l : Loop κ μ}
    (live : e.ending = none) (todo : e.loop.todo = []) (busy : e.loop.stage ≠ .closing)
    (turn : e.loop.turn = .done l)
    (ahead : ∀ r ∈ e.round?, ∀ s ∈ r.snapshot, e.driver.applied < s.index) : u.Guides l := by
  have paced := Engine.paced_of_turn live todo busy turn ahead
  obtain ⟨silent, closing⟩ := Loop.ticket?_turn busy turn
  obtain ⟨core, driver, begun⟩ := Engine.turn_cases live todo busy turn
  constructor
  case paced =>
    rw [driver]
    exact paced
  case opening =>
    intro stage
    rcases begun with ⟨-, -, -, later⟩ | ⟨_, -, -, -, later⟩ | ⟨_, -, -, -, later⟩ <;>
      rw [stage] at later <;> cases later
  case later => exact fun _ => silent
  case closing => exact fun stage => Or.inl ((closing stage).subset (by simp [Loop.coda]))

/-- Behind a publication there is another one, or nothing. -/
theorem publish_or_nil {l : Loop κ μ} {left : List Act} (shaped : l.Shaped)
    (stage : l.stage = .closing) (todo : l.todo = .publish :: left) :
    .publish ∈ left ∨ left = [] := by
  have shape := shaped.closing stage
  rw [todo, Loop.coda] at shape
  rcases shape with before | within
  · rcases List.suffix_cons_iff.mp before with same | before
    · cases same
    · exact Or.inl (before.subset (by simp))
  · rcases List.suffix_cons_iff.mp within with same | within
    · cases same
    · rcases List.suffix_cons_iff.mp within with same | none
      · exact Or.inr (List.cons.inj same).2
      · cases List.suffix_nil.mp none

variable [Core κ] [Machine μ] [Carrier ω] {u : Unseen} {l : Loop κ μ} {d : Driver κ μ}
variable {a : Act} {left : List Act} {w w' : ω}

/-- A statement is worked off. -/
theorem Guides.rest (guides : u.Guides l) (shaped : l.Shaped) (todo : l.todo = a :: left)
    (done : l.driver.perform w a = .done (d, w')) :
    (u.noteAct l.driver d a).Guides { l with driver := d, todo := left } := by
  have within : ∀ b ∈ left, b ∈ l.todo := fun b hb => todo ▸ List.mem_cons_of_mem a hb
  have first : a ∈ l.todo := todo ▸ List.mem_cons_self
  constructor
  case paced =>
    have paced := guides.paced
    rw [todo] at paced
    exact paced.rest done
  case opening =>
    intro stage
    obtain ⟨⟨rfl, level⟩, opens⟩ := guides.opening stage
    have opened := opens a first
    have publish : a ≠ .publish := by
      rintro rfl
      exact opened
    have apply : ∀ x, a ≠ .apply x := by
      rintro x rfl
      exact opened
    refine ⟨⟨noteAct_of_ne publish apply, ?_⟩, fun b hb => opens b (within b hb)⟩
    change d.published.applied = d.applied
    rw [(Driver.kept_perform publish done).published, level]
    rcases Driver.applied_perform done with same | ⟨x, rfl, -⟩ | ⟨s, rfl, -⟩
    · exact same.symm
    · exact absurd opened not_false
    · exact absurd opened not_false
  case later => exact fun stage b hb => guides.later stage b (within b hb)
  case closing =>
    intro stage
    change .publish ∈ left ∨ left = [] ∧ _
    by_cases publish : a = .publish
    · subst publish
      cases done
      exact (publish_or_nil shaped stage todo).imp_right fun nothing =>
        ⟨nothing, Clear.publish l.driver⟩
    · rcases guides.closing stage with published | ⟨idle, -⟩
      · rw [todo] at published
        exact Or.inl ((List.mem_cons.mp published).resolve_left (Ne.symm publish))
      · rw [todo] at idle
        cases idle

/-! ## Events -/

namespace Knows

variable {e e' : Engine κ μ}

omit [Machine μ] in
theorem boot {id : Nat} {settings : Settings} {core : κ} {machine : μ} {shelf : Shelf}
    {peers : Directory} {now : Nat} :
    Unseen.Knows [] (Engine.boot id settings core machine shelf peers now) where
  accounted := .boot
  sound := ⟨fun _ hu => absurd hu List.not_mem_nil, fun _ _ hn => absurd hn List.not_mem_nil,
    fun _ _ hn => absurd hn List.not_mem_nil, fun _ _ hu => absurd hu List.not_mem_nil,
    Nat.le_refl _⟩
  guides _ := ⟨Or.inl fun _ => List.not_mem_nil, fun stage => (by cases stage),
    fun _ _ ha => absurd ha List.not_mem_nil, fun _ => Or.inr ⟨rfl, rfl, rfl⟩⟩
  returned ended := by cases ended

omit [Core κ] [Machine μ] in
/-- The end of an engine answers no one with an index. -/
theorem ended {ending : Ending} (accounted : (e.finish ending).Accounted)
    (sound : u.Sound e.driver) (whole : ending = .returned (.ok ()) → u.Clear e.driver) :
    u.Knows (e.finish ending) := by
  have applied := (e.alike_finish ending).1.applied
  have published := congrArg Published.applied (e.published_finish ending)
  refine ⟨accounted, ?_, (fun running => by cases running), ?_⟩
  · cases ending with
    | crashed f =>
      exact ⟨sound.given, sound.applied, sound.seen, sound.unseen, sound.published_le⟩
    | returned r =>
      apply sound.extend (e.answers_returned r) (Nat.le_of_eq applied.symm) published
        (List.Subset.refl u)
      · exact fun a ha => Or.inl ha
      · intro n i hi
        obtain ⟨_, -, told⟩ := List.mem_map.mp hi
        cases told
  · intro returned
    obtain ⟨empty, level⟩ := whole (Option.some.inj returned)
    exact ⟨empty, published.trans (level.trans applied.symm)⟩

omit [Core κ] [Machine μ] in
theorem asked (know : u.Knows e) (asks : e.Asks e') : u.Knows e' := by
  have accounted := know.accounted.asked asks
  cases asks with
  | same => exact know
  | issue | stop => exact ⟨accounted, know.sound, know.guides, know.returned⟩

omit [Core κ] [Machine μ] in
theorem roused (know : u.Knows e) (rouses : e.Rouses e') : u.Knows e' := by
  have accounted := know.accounted.roused rouses
  cases rouses with
  | same => exact know
  | ends rest left =>
    obtain ⟨live, stage, idle⟩ := e.resting_iff.mp rest
    exact ended accounted know.sound fun _ => (know.guides live).clear idle stage
  | wakes cause rest taken =>
    obtain ⟨live, stage, idle⟩ := e.resting_iff.mp rest
    have clear := (know.guides live).clear idle stage
    refine ⟨accounted, know.sound, fun _ => .wake clear cause _ _, ?_⟩
    intro returned
    exact know.returned returned

/-- A statement that was worked off. -/
theorem did (know : u.Knows e) (live : e.ending = none) (todo : e.loop.todo = a :: left)
    (done : e.driver.perform w a = .done (d, w'))
    (accounted : Engine.Accounted { e with loop := { e.loop with driver := d, todo := left } }) :
    (u.noteAct e.driver d a).Knows { e with loop := { e.loop with driver := d, todo := left } } := by
  have guides := know.guides live
  have ahead : ∀ s, a = .restore s → e.driver.applied < s.index := by
    rintro s rfl
    have paced := guides.paced
    rw [todo] at paced
    exact paced.head
  have clear : a.ticket? ≠ none → u.Clear e.driver := by
    intro taken
    by_cases stage : e.loop.stage = .opening
    · exact (guides.opening stage).1
    · exact absurd (guides.later stage a (todo ▸ List.mem_cons_self)) taken
  refine ⟨accounted, know.sound.perform ahead clear done,
    fun _ => guides.rest know.accounted.shaped todo done, ?_⟩
  intro returned
  rw [live] at returned
  cases returned

/-- A statement keeps what is known, if no snapshot of what is applied is handed out. -/
theorem advance (know : u.Knows e) (w : ω)
    (ahead : ∀ r ∈ e.round?, ∀ s ∈ r.snapshot, e.driver.applied < s.index) :
    (u.note e (e.advance w).1 (.statement : Event ω)).Knows (e.advance w).1 := by
  have accounted := know.accounted.advance w
  have step := e.advances w
  generalize (e.advance w).1 = e' at step accounted ⊢
  cases step with
  | still _ _ held =>
    have same : u.note e e (.statement : Event ω) = u := by
      by_cases past : e.ended = true
      · exact note_of_ended past
      · rcases held (by simpa [Engine.ended] using past) with todo | ⟨x, left, todo⟩ <;>
          simp [note, past, todo, noteAct]
    rw [same]
    exact know
  | @did a left d w' live todo done =>
    have noted : u.note e { e with loop := { e.loop with driver := d, todo := left } }
        (.statement : Event ω) = u.noteAct e.driver d a := by
      simp only [note, Engine.ended, live, todo]
      rfl
    rw [noted]
    exact know.did live todo done accounted
  | @turned l live todo busy turn =>
    have noted : u.note e { e with loop := l } (.statement : Event ω) = u := by
      simp only [note, todo]
      exact ite_self u
    obtain ⟨core, driver, -⟩ := Engine.turn_cases live todo busy turn
    have sound : u.Sound l.driver := by
      rw [driver]
      exact ⟨know.sound.given, know.sound.applied, know.sound.seen, know.sound.unseen,
        know.sound.published_le⟩
    rw [noted]
    refine ⟨accounted, sound, fun _ => .begin live todo busy turn ahead, ?_⟩
    intro returned
    rw [live] at returned
    cases returned
  | stopped live todo stop =>
    obtain ⟨machine, rfl⟩ := Driver.left_of_stopped stop
    obtain ⟨given, applied, seen, unseen, published_le⟩ := know.sound
    rw [note_of_ended rfl]
    exact ended accounted ⟨given, applied, seen, unseen, published_le⟩ fun same => by cases same
  | crashed live =>
    rw [note_of_ended rfl]
    exact ended accounted know.sound fun same => by cases same

/-- Every event keeps what is known. -/
theorem after {m : Moment κ μ ω Unseen} {v : Event ω} (know : m.record.Knows m.engine)
    (admitted : (visibility κ μ ω).admits m v) :
    ((visibility κ μ ω).after m v).record.Knows ((visibility κ μ ω).after m v).engine := by
  change (m.record.note m.engine (m.engine.after m.network v).1 v).Knows
    (m.engine.after m.network v).1
  rcases m.engine.after_cases m.network v with ⟨other, changed⟩ | ⟨rfl, -⟩
  · have noted : m.record.note m.engine (m.engine.after m.network v).1 v = m.record := by
      cases v with
      | statement => exact absurd rfl other
      | _ => rfl
    rw [noted]
    exact changed.elim know.asked know.roused
  · exact know.advance m.network admitted

end Knows

end Unseen

namespace Engine

variable {κ μ ω : Type} [Core κ] [Machine μ] [Carrier ω] {id : Nat} {settings : Settings}
variable {core : κ} {machine : μ} {shelf : Shelf} {peers : Directory} {now : Nat} {network : ω}
variable {m : Moment κ μ ω Unseen}

/-- An index that was answered has been applied; an observer sees so unless the answer was given
since the driver last published. Nothing is in between whenever the loop waits or has returned
well. Once the driver has ended, what was not seen is never seen. -/
theorem index_visible_iff
    (run : Reachable (visibility κ μ ω)
      ⟨boot id settings core machine shelf peers now, network, []⟩ m) :
    let e := m.engine
    (∀ n i, (n, .ok (.index i)) ∈ e.driver.answers →
      i ≤ e.driver.applied ∧
        (i ≤ e.published.applied ↔ (n, .ok (.index i)) ∉ m.record)) ∧
    (∀ a ∈ m.record, a ∈ e.driver.answers) ∧
    (e.resting = true ∨ e.ending = some (.returned (.ok ())) →
      m.record = [] ∧ e.published.applied = e.driver.applied) ∧
    (e.ended = true → ∀ m', Reachable (visibility κ μ ω) m m' →
      m'.record = m.record ∧ m'.engine.published = e.published) := by
  intro e
  have know : m.record.Knows e :=
    run.invariant (P := fun m => m.record.Knows m.engine) .boot fun know admits => know.after admits
  refine ⟨?_, know.sound.given, ?_, ?_⟩
  · intro n i answered
    refine ⟨know.sound.applied n i answered, ?_, (know.sound.seen n i answered).resolve_right⟩
    intro seen recorded
    exact absurd seen (Nat.not_le.mpr (know.sound.unseen n i recorded))
  · intro settled
    have clear : m.record.Clear e.driver := by
      rcases settled with rest | returned
      · obtain ⟨live, stage, idle⟩ := e.resting_iff.mp rest
        exact (know.guides live).clear idle stage
      · exact know.returned returned
    exact ⟨clear.empty, clear.level⟩
  · intro past m' later
    have stays : m'.engine.ended = true ∧ m'.record = m.record ∧ m'.engine.loop = e.loop := by
      apply later.invariant (P := fun m' =>
        m'.engine.ended = true ∧ m'.record = m.record ∧ m'.engine.loop = e.loop)
      · exact ⟨past, rfl, rfl⟩
      · rintro s v ⟨past, record, loop⟩ -
        obtain ⟨ending, loop', -⟩ := Engine.after_of_ended past s.network v
        have past' : (s.engine.after s.network v).1.ended = true := by
          rw [ended, ending]
          exact past
        refine ⟨past', ?_, loop'.trans loop⟩
        change s.record.note s.engine (s.engine.after s.network v).1 v = m.record
        rw [← record]
        cases v with
        | statement => exact Unseen.note_of_ended past'
        | _ => rfl
    exact ⟨stays.2.1, by rw [published, driver, stays.2.2]; rfl⟩

/-- A leader of three gets two commands. The second one, which it is told of as committed along
with the first, its machine does not survive: the first was answered, and nobody sees it. -/
theorem index_visible_iff_of_boom :
    let S := visibility Replica Rig Station
    let vote : Message := { kind := .requestVoteResponse, sender := 2, target := 1, term := 1 }
    let stored (index : Nat) : Message :=
      { kind := .appendResponse, sender := 2, target := 1, term := 1, index }
    let m := S.play ⟨boot 1 {} (Sample.follower 1 Sample.shelf) { temper := .faultOnBoom }
        Sample.shelf [] 0, default, []⟩
      (Sample.iteration [Sample.campaign 1] ++ Sample.iteration [vote] ++
        Sample.iteration [stored 1] ++ Sample.call (.apply [0xaa]) ++
        Sample.call (.apply Rig.boom) ++ Sample.iteration [stored 3])
    m.engine.driver.answers = [(0, .ok (.index 2))] ∧ (0, .ok (.index 2)) ∈ m.record ∧
      ∀ m', Reachable S m m' → m'.engine.published.applied < 2 := by
  intro S vote stored m
  have run : Reachable S _ m := System.reachable_play .start (by decide +kernel)
  have answers : m.engine.driver.answers = [(0, .ok (.index 2))] := by decide +kernel
  have published : m.engine.published.applied = 1 := by decide +kernel
  have past : m.engine.ended = true := by decide +kernel
  obtain ⟨visible, -, -, final⟩ := index_visible_iff run
  refine ⟨answers, ?_, ?_⟩
  · obtain ⟨-, seen⟩ := visible 0 2 (by rw [answers]; exact List.mem_cons_self)
    apply Decidable.byContradiction
    intro unrecorded
    have far := seen.mpr unrecorded
    rw [published] at far
    omega
  · intro m' later
    rw [(final past m' later).2, published]
    decide

end Engine

end QuorumLab
