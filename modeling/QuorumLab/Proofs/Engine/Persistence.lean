import QuorumLab.Proofs.Engine.Calls
import QuorumLab.Proofs.Store.Indexed

/-!
# What is stored before it is promised

Some messages of a round promise what the round stores, and so may what follows it. None of them
is handed to the network before the entries, the hard state and the snapshot of the round are
stored. Where storing fails, the driver ends and they never are, and the protocol is never told that
the round is stored.
-/

namespace QuorumLab

/-! ## The statements of a round -/

/-- The statements between what may be sent at once and what is held back. -/
def Ready.work (r : Ready) : List Act :=
  (r.snapshot.map .restore).toList ++ r.committed.map .apply ++
    (if r.entries.isEmpty then [] else [.append r.entries]) ++ (r.hard.map .setHardState).toList

theorem Ready.acts_eq (r : Ready) :
    r.acts = r.messages.map .send ++ r.work ++ r.heldMessages.map .send := by
  simp only [acts, work, List.append_assoc]

/-- The statements after what follows a round is sent. -/
def Followup.rest (f : Followup) : List Act := f.committed.map .apply ++ .settle :: Loop.coda

theorem Followup.acts_eq (f : Followup) :
    f.acts ++ Loop.coda = (f.commit.map .setCommit).toList ++ (f.messages.map .send ++ f.rest) := by
  simp only [acts, rest, List.append_assoc, List.singleton_append]

/-- A statement that neither sends nor can fail. -/
def Act.Inward : Act → Prop
  | .send _ | .restore _ | .append _ => False
  | _ => True

theorem Followup.inward_rest (f : Followup) : ∀ a ∈ f.rest, a.Inward := by
  intro a ha
  rcases List.mem_append.mp ha with ha | ha
  · obtain ⟨e, -, rfl⟩ := List.mem_map.mp ha
    trivial
  · simp only [Loop.coda, List.mem_cons, List.not_mem_nil, or_false] at ha
    rcases ha with rfl | rfl | rfl <;> trivial

namespace Ready

variable {r : Ready}

theorem not_send_work (m : Message) : Act.send m ∉ r.work := by
  simp [work]

theorem restore_work {s : Snapshot} (h : Act.restore s ∈ r.work) : r.snapshot = some s := by
  simpa [work] using h

theorem append_work {batch : List Entry} (h : Act.append batch ∈ r.work) : batch = r.entries := by
  have taken : r.entries ≠ [] ∧ batch = r.entries := by simpa [work] using h
  exact taken.2

/-- What is sent before the work is one of the messages that may be sent at once. -/
theorem early_of_suffix {m : Message} {left : List Act}
    (part : .send m :: left <:+ r.messages.map .send ++ r.work) :
    ∃ others, m :: others <:+ r.messages ∧ left = others.map .send ++ r.work := by
  obtain ⟨done, split⟩ := part
  rcases List.append_eq_append_iff.mp split with ⟨behind, messages, here⟩ | ⟨before, -, work⟩
  · rcases List.cons_eq_append_iff.mp here with ⟨-, work⟩ | ⟨behind, rfl, rfl⟩
    · exact absurd (work ▸ List.mem_cons_self) (r.not_send_work m)
    · obtain ⟨first, last, both, -, same⟩ := List.map_eq_append_iff.mp messages
      obtain ⟨_, others, rfl, sent, rfl⟩ := List.map_eq_cons_iff.mp same
      cases sent
      exact ⟨others, ⟨first, both.symm⟩, rfl⟩
  · refine absurd ?_ (r.not_send_work m)
    rw [work]
    exact List.mem_append_right _ List.mem_cons_self

end Ready

/-! ## A round and what it stores -/

/-- What a machine that has got to some index becomes by committed entries, and how far it gets.
Entries that it has got past are skipped, and only commands reach it. -/
def Watched.feed {μ : Type} [Machine μ] : Watched μ → Nat → List Entry → Applied (Watched μ × Nat)
  | m, index, [] => .done (m, index)
  | m, index, e :: left =>
    if e.index ≤ index then m.feed index left
    else if e.isCommand then
      match m.apply e.index e.data with
      | .done m => m.feed e.index left
      | .held => .held
      | .fault f => .fault f
    else m.feed e.index left

/-- A round of work since the protocol has handed it out. -/
structure Round (κ μ : Type) where
  /-- The driver that works it off, as it was then. -/
  start : Driver κ μ
  ready : Ready
  /-- What the protocol handed out once the round was stored. -/
  followup : Option Followup := none

namespace Round

variable {κ μ : Type}

/-- The commit index that followed the round. -/
def commit? (g : Round κ μ) : Option Nat := g.followup.bind Followup.commit

/-- Message `m` may be sent at once; `left` are the statements after that. -/
def Early (g : Round κ μ) (m : Message) (left : List Act) : Prop :=
  g.followup = none ∧ ∃ others, m :: others <:+ g.ready.messages ∧
    left = others.map .send ++ g.ready.work ++ g.ready.heldMessages.map .send

/-- Message `m` is held back in the round, or follows it; `left` are the statements after that. -/
def HeldBack (g : Round κ μ) (m : Message) (left : List Act) : Prop :=
  (g.followup = none ∧ ∃ others, m :: others <:+ g.ready.heldMessages ∧
    left = others.map .send) ∨
  ∃ f ∈ g.followup, ∃ others, m :: others <:+ f.messages ∧ left = others.map .send ++ f.rest

/-- The protocol of the driver has been told that the round is stored if it has handed out what
follows, and that once: so says whatever counts how often it is told. -/
def Advanced [Core κ] (g : Round κ μ) (d : Driver κ μ) : Prop :=
  ∀ calls : κ → Nat, Core.Counts .advance calls →
    calls d.core = calls g.start.core + if g.followup.isSome then 1 else 0

variable [Machine μ]

/-- A driver's machine and stores reflect the snapshot of a round. -/
structure Reflects (g : Round κ μ) (s : Snapshot) (d : Driver κ μ) : Prop where
  /-- The machine is the one restored from it, but for the committed entries of the round. -/
  machine : ∃ m, g.start.machine.restore s.data = .ok m ∧
    m.feed s.index g.ready.committed = .done (d.machine, d.applied)
  applied : s.index ≤ d.applied
  /-- The log begins behind it, with the entries of the round. -/
  log : d.shelf.log = { Log.reset s.index s.term with entries := g.ready.entries }
  membership : d.shelf.stable.membership = s.membership
  /-- If the round has a hard state of its own, that one is held. -/
  hard : g.ready.hard = none → d.shelf.stable.hard.commit = g.commit?.getD s.index ∧
    s.term ≤ d.shelf.stable.hard.term
  /-- It is the latest snapshot, if there was no later one. -/
  snapshots : ∃ held, d.shelf.snapshots.latest = some held ∧
    (held = s ∨ g.start.shelf.snapshots.latest = some held ∧ s.index < held.index)

/-- A driver's stores hold all that a round hands out to be stored. -/
structure Stored (g : Round κ μ) (d : Driver κ μ) : Prop where
  /-- The entries are in the log, one behind the other from the index of the first. -/
  placed : ∀ first ∈ g.ready.entries.head?, ∀ k e, g.ready.entries[k]? = some e →
    d.shelf.log.slice (first.index + k) (first.index + k + 1) = .ok [e]
  /-- So each is at its own index, if they are consecutive. -/
  entries : ∀ n, Consecutive n g.ready.entries → ∀ e ∈ g.ready.entries,
    d.shelf.log.slice e.index (e.index + 1) = .ok [e]
  hard : ∀ h ∈ g.ready.hard, d.shelf.stable.hard = { h with commit := g.commit?.getD h.commit }
  snapshot : ∀ s ∈ g.ready.snapshot, g.Reflects s d

end Round

/-- The next statement restores a snapshot or appends entries, and that fails, which leaves the
driver `d`. -/
def Engine.Fails {κ μ : Type} [Machine μ] (e : Engine κ μ) (f : Failure) (d : Driver κ μ) : Prop :=
  (∃ s left, e.loop.todo = .restore s :: left ∧
    e.driver.restore s = .error { failure := f, left := d }) ∨
  ∃ batch left, e.loop.todo = .append batch :: left ∧
    e.driver.append batch = .error { failure := f, left := d }

namespace Engine.Fails

variable {κ μ ω : Type} [Machine μ] {e : Engine κ μ} {f : Failure} {d : Driver κ μ}

/-- A machine that refuses a snapshot is all that can have changed. -/
theorem left_eq (fails : e.Fails f d) : ∃ machine,
    d = { e.driver with machine.machine := machine } ∧
      (LawfulMachine μ → machine = e.driver.machine.machine) := by
  rcases fails with ⟨s, left, -, refused⟩ | ⟨batch, left, -, refused⟩
  · obtain ⟨machine, refused, rfl⟩ := Driver.restore_error refused
    exact ⟨machine, rfl, fun _ => LawfulMachine.restore_error refused⟩
  · exact ⟨e.driver.machine.machine, Driver.append_error refused, fun _ => rfl⟩

theorem stops [Core κ] [Carrier ω] (fails : e.Fails f d) (w : ω) :
    ∃ a left, e.loop.todo = a :: left ∧ ((∃ s, a = .restore s) ∨ ∃ batch, a = .append batch) ∧
      e.driver.perform w a = .stopped f (d, w) := by
  rcases fails with ⟨s, left, todo, refused⟩ | ⟨batch, left, todo, refused⟩
  · refine ⟨.restore s, left, todo, Or.inl ⟨s, rfl⟩, ?_⟩
    rw [Driver.perform, refused]
    rfl
  · refine ⟨.append batch, left, todo, Or.inr ⟨batch, rfl⟩, ?_⟩
    rw [Driver.perform, refused]
    rfl

end Engine.Fails

/-! ## Working off a round -/

namespace Round

variable {κ μ : Type}

/-- The shelf with the snapshot of the round, if it has one. -/
def base (g : Round κ μ) : Shelf :=
  match g.ready.snapshot with
  | none => g.start.shelf
  | some s =>
    { log := Log.reset s.index s.term
      stable := g.start.shelf.stable.restore s.index s.term s.membership
      snapshots := g.start.shelf.snapshots.insert s }

/-- The stable store with the hard state of the round, if it has one. -/
def stable (g : Round κ μ) : Stable :=
  match g.ready.hard with
  | none => g.base.stable
  | some h => g.base.stable.setHardState h

/-- The same with the commit index that followed. -/
def committed (g : Round κ μ) : Stable :=
  match g.commit? with
  | none => g.stable
  | some c => g.stable.setCommit c

section Cases

variable {g : Round κ μ} {s : Snapshot} {h : HardState}

theorem base_of_none (none : g.ready.snapshot = none) : g.base = g.start.shelf := by
  rw [base, none]

theorem base_of_some (carries : g.ready.snapshot = some s) : g.base =
    { log := Log.reset s.index s.term
      stable := g.start.shelf.stable.restore s.index s.term s.membership
      snapshots := g.start.shelf.snapshots.insert s } := by
  rw [base, carries]

theorem stable_of_none (none : g.ready.hard = none) : g.stable = g.base.stable := by
  rw [stable, none]

theorem stable_of_some (carries : g.ready.hard = some h) :
    g.stable = g.base.stable.setHardState h := by
  rw [stable, carries]

theorem committed_of_none (none : g.commit? = none) : g.committed = g.stable := by
  rw [committed, none]

theorem committed_of_some {c : Nat} (follows : g.commit? = some c) :
    g.committed = g.stable.setCommit c := by
  rw [committed, follows]

theorem committed_membership (g : Round κ μ) :
    g.committed.membership = g.base.stable.membership := by
  cases commit : g.commit? <;> cases hard : g.ready.hard <;>
    simp only [committed, stable, commit, hard, Stable.setCommit, Stable.setHardState]

/-- A hard state of the round takes the place of the old one, and a commit index that follows the
place of its own. -/
theorem committed_hard (g : Round κ μ) :
    let held := g.ready.hard.getD g.base.stable.hard
    g.committed.hard = { held with commit := g.commit?.getD held.commit } := by
  cases commit : g.commit? <;> cases hard : g.ready.hard <;>
    simp only [committed, stable, commit, hard, Stable.setCommit, Stable.setHardState,
      Option.getD_none, Option.getD_some]

end Cases

variable [Machine μ]

/-- The machine that the committed entries of the round are given to, and how far it has got. -/
def reached (g : Round κ μ) : Except (Setback (Watched μ)) (Watched μ × Nat) :=
  match g.ready.snapshot with
  | none => .ok (g.start.machine, g.start.applied)
  | some s => (g.start.machine.restore s.data).map (·, s.index)

theorem reached_of_none {g : Round κ μ} (none : g.ready.snapshot = none) :
    g.reached = .ok (g.start.machine, g.start.applied) := by
  rw [reached, none]

theorem reached_of_some {g : Round κ μ} {s : Snapshot} {m : Watched μ}
    (carries : g.ready.snapshot = some s) (restored : g.start.machine.restore s.data = .ok m) :
    g.reached = .ok (m, s.index) := by
  rw [reached, carries]
  change Except.map _ (g.start.machine.restore s.data) = _
  rw [restored]
  rfl

variable {ω : Type} [Core κ] [Carrier ω] {g : Round κ μ} {d d' : Driver κ μ}

/-- The machine has been given the committed entries of the round, but for those that are left. -/
def Fed (g : Round κ μ) (left : List Entry) (d : Driver κ μ) : Prop :=
  ∃ m index, g.reached = .ok (m, index) ∧ index ≤ d.applied ∧
    m.feed index g.ready.committed = d.machine.feed d.applied left

omit [Core κ] in
theorem Fed.apply {e : Entry} {left : List Entry} (fed : g.Fed (e :: left) d)
    (done : d.apply e = .done d') : g.Fed left d' ∧ d'.shelf = d.shelf := by
  obtain ⟨m, index, reached, low, same⟩ := fed
  rcases Driver.apply_cases done with ⟨old, rfl⟩ | ⟨new, machine, rfl, given⟩
  · rw [Watched.feed, if_pos old] at same
    exact ⟨⟨m, index, reached, low, same⟩, rfl⟩
  · have alike := Driver.alike_noteApplied { d with machine } e
    have applied : (Driver.noteApplied { d with machine } e).applied = e.index := alike.applied
    refine ⟨⟨m, index, reached, by omega, same.trans ?_⟩, alike.shelf⟩
    rw [alike.machine, applied, Watched.feed, if_neg (by omega)]
    by_cases command : e.isCommand = true
    · rw [if_pos command] at given
      rw [if_pos command, given]
    · rw [if_neg command] at given
      rw [if_neg command, given]

/-- The round has been worked off up to what is held back; `stable` is the stable store. -/
structure Worked (g : Round κ μ) (stable : Stable) (d : Driver κ μ) : Prop where
  machine : g.Fed [] d
  log : g.base.log.append g.ready.entries = .ok d.shelf.log
  stable : d.shelf.stable = stable
  snapshots : d.shelf.snapshots = g.base.snapshots

omit [Core κ] in
theorem Worked.alike {stable : Stable} (worked : g.Worked stable d) (same : d.Alike d') :
    g.Worked stable d' := by
  constructor
  · simpa only [Fed, same.machine, same.applied] using worked.machine
  · rw [same.shelf]
    exact worked.log
  · rw [same.shelf]
    exact worked.stable
  · rw [same.shelf]
    exact worked.snapshots

/-- From where the round is handed out, its work ends with everything stored. -/
theorem secures_work (g : Round κ μ) (same : g.start.Alike d) :
    Secures ω (fun _ => True) (fun _ => True) (g.Worked g.stable)
      (g.ready.messages.map .send ++ g.ready.work) d := by
  have bare : ({ g.ready with heldMessages := [] } : Ready).acts =
      g.ready.messages.map .send ++ g.ready.work := by
    simp [Ready.acts, Ready.work]
  rw [← bare]
  let atWork (left : List Entry) (d : Driver κ μ) : Prop := d.shelf = g.base ∧ g.Fed left d
  apply secures_round (I := g.start.Alike) (J := atWork) (K := g.Worked g.base.stable)
  case always => simp only [implies_true, and_self]
  case alike => exact fun d d' k => ⟨fun h => h.trans k, fun h => h.alike k⟩
  case start => exact same
  case keep =>
    intro d none alike
    refine ⟨?_, g.start.machine, g.start.applied, reached_of_none none, ?_, ?_⟩
    · rw [base_of_none none, alike.shelf]
    · exact Nat.le_of_eq alike.applied.symm
    · rw [alike.machine, alike.applied]
  case restore =>
    intro s d carries alike
    refine ⟨fun _ _ => ⟨trivial, trivial⟩, ?_⟩
    intro d' done
    obtain ⟨m, restored, rfl⟩ := Driver.restore_ok done
    rw [alike.machine] at restored
    refine ⟨?_, m, s.index, reached_of_some carries restored, Nat.le_refl _, rfl⟩
    rw [base_of_some carries, ← alike.shelf]
    rfl
  case apply =>
    rintro e left d d' ⟨shelf, fed⟩ done
    obtain ⟨fed', same⟩ := fed.apply done
    exact ⟨same.trans shelf, fed'⟩
  case nothing =>
    rintro d none ⟨shelf, fed⟩
    have none : g.ready.entries = [] := none
    refine ⟨fed, ?_, by rw [shelf], by rw [shelf]⟩
    rw [none, shelf]
    rfl
  case append =>
    rintro d - ⟨shelf, fed⟩
    refine ⟨fun _ _ => trivial, ?_⟩
    intro d' done
    rcases d.append_cases g.ready.entries with ⟨log, taken, appended⟩ | ⟨refused, -, failed⟩
    · cases appended.symm.trans done
      rw [shelf] at taken
      exact ⟨fed, taken, by rw [shelf], by rw [shelf]⟩
    · cases failed.symm.trans done
  case same =>
    intro d none worked
    rw [stable_of_none none]
    exact worked
  case hard =>
    intro h d carries worked
    refine ⟨worked.machine, worked.log, ?_, worked.snapshots⟩
    rw [stable_of_some carries, ← worked.stable]
    rfl

omit [Core κ] in
theorem Worked.reflects (worked : g.Worked g.committed d) {s : Snapshot}
    (carries : g.ready.snapshot = some s) : g.Reflects s d := by
  obtain ⟨m, index, reached, low, fed⟩ := worked.machine
  obtain ⟨restored, rfl⟩ : g.start.machine.restore s.data = .ok m ∧ s.index = index := by
    simp only [Round.reached, carries] at reached
    cases restored : g.start.machine.restore s.data with
    | error f =>
      rw [restored] at reached
      cases reached
    | ok m' =>
      rw [restored] at reached
      cases reached
      exact ⟨rfl, rfl⟩
  constructor
  case machine => exact ⟨m, restored, fed⟩
  case applied => exact low
  case log =>
    have taken := worked.log
    rw [base_of_some carries] at taken
    exact Log.append_reset taken
  case membership =>
    rw [worked.stable, committed_membership, base_of_some carries]
    rfl
  case hard =>
    intro none
    rw [worked.stable, committed_hard, none, base_of_some carries]
    exact ⟨rfl, Nat.le_max_right _ _⟩
  case snapshots =>
    rw [worked.snapshots, base_of_some carries]
    exact Snapshots.latest_insert _ _

omit [Core κ] in
theorem Worked.stored (worked : g.Worked g.committed d) : g.Stored d := by
  constructor
  case placed => exact fun first head k e here => Log.slice_append head worked.log here
  case entries => exact fun n run e he => Log.slice_append_of_mem run worked.log he
  case hard =>
    intro h carries
    rw [worked.stable, committed_hard, Option.mem_def.mp carries]
    rfl
  case snapshot => exact fun s carries => worked.reflects carries

end Round

/-! ## Runs that remember the round -/

namespace Round

variable {κ μ ω : Type} [Core κ]

/-- What the protocol hands out for the next statement begins a round, or follows it. -/
def note (r : Option (Round κ μ)) (e : Engine κ μ) : Event ω → Option (Round κ μ)
  | .statement => match e.round?, e.followup? with
    | some ready, _ => some { start := e.driver, ready }
    | none, some f => r.map fun g => { g with followup := some f }
    | none, none => r
  | _ => r

theorem note_of_ne_statement {r : Option (Round κ μ)} {e : Engine κ μ} {v : Event ω}
    (other : v ≠ .statement) : note r e v = r := by
  cases v with
  | statement => exact absurd rfl other
  | _ => rfl

theorem note_of_todo {r : Option (Round κ μ)} {e : Engine κ μ} {a : Act} {left : List Act}
    (todo : e.loop.todo = a :: left) : note r e (.statement : Event ω) = r := by
  simp [note, Engine.round?, Engine.followup?, todo]

theorem note_of_ended {r : Option (Round κ μ)} {e : Engine κ μ} (past : e.ended = true)
    (v : Event ω) : note r e v = r := by
  obtain ⟨ending, finished⟩ := Option.isSome_iff_exists.mp past
  cases v <;> simp [note, Engine.round?, Engine.followup?, finished]

end Round

/-- Any run of one engine, with the last round that the protocol handed out. -/
def rounds (κ μ ω : Type) [Core κ] [Machine μ] [Carrier ω] :
    System (Moment κ μ ω (Option (Round κ μ))) (Event ω) where
  admits _ _ := True
  after m v := m.next v (Round.note m.record m.engine v)

namespace Round

variable {κ μ ω : Type} [Core κ] [Machine μ] [Carrier ω]

/-- How far a loop is with a round. -/
inductive Progress (ω : Type) [Carrier ω] : Option (Round κ μ) → Loop κ μ → Prop
  /-- Before the round, or after all that is to be sent. -/
  | inward {r : Option (Round κ μ)} {l : Loop κ μ} (stage : l.stage ≠ .storing)
      (acts : ∀ a ∈ l.todo, a.Inward) : Progress ω r l
  /-- Before what is held back. -/
  | working {g : Round κ μ} {l : Loop κ μ} {before : List Act} (stage : l.stage = .storing)
      (fresh : g.followup = none) (part : before <:+ g.ready.messages.map .send ++ g.ready.work)
      (todo : l.todo = before ++ g.ready.heldMessages.map .send) (advanced : g.Advanced l.driver)
      (secured : Secures ω (fun _ => True) (fun _ => True) (g.Worked g.stable) before l.driver) :
      Progress ω (some g) l
  /-- While what is held back is sent. -/
  | promising {g : Round κ μ} {l : Loop κ μ} {left : List Message} (stage : l.stage = .storing)
      (fresh : g.followup = none) (part : left <:+ g.ready.heldMessages)
      (todo : l.todo = left.map .send) (advanced : g.Advanced l.driver)
      (worked : g.Worked g.stable l.driver) : Progress ω (some g) l
  /-- Before the commit index that follows is stored. -/
  | committing {g : Round κ μ} {l : Loop κ μ} {f : Followup} {c : Nat} (stage : l.stage = .closing)
      (followup : g.followup = some f) (commit : f.commit = some c)
      (todo : l.todo = .setCommit c :: (f.messages.map .send ++ f.rest))
      (advanced : g.Advanced l.driver) (worked : g.Worked g.stable l.driver) : Progress ω (some g) l
  /-- While what follows is sent. -/
  | following {g : Round κ μ} {l : Loop κ μ} {f : Followup} {left : List Message}
      (stage : l.stage = .closing) (followup : g.followup = some f) (part : left <:+ f.messages)
      (todo : l.todo = left.map .send ++ f.rest) (advanced : g.Advanced l.driver)
      (worked : g.Worked g.committed l.driver) : Progress ω (some g) l

variable {r : Option (Round κ μ)} {g : Round κ μ} {l : Loop κ μ} {e e' : Engine κ μ}

/-- To send changes nothing of what is stored. -/
theorem Worked.sent {stable : Stable} {m : Message} {d d' : Driver κ μ} {w w' : ω}
    (worked : g.Worked stable d) (done : d.perform w (.send m) = .done (d', w')) :
    g.Worked stable d' :=
  worked.alike (Driver.alike_of_quiet (a := .send m) trivial done)

/-- No statement tells the protocol that the round is stored. -/
theorem Advanced.did {a : Act} {d d' : Driver κ μ} {w w' : ω} (advanced : g.Advanced d)
    (done : d.perform w a = .done (d', w')) : g.Advanced d' := by
  intro calls counts
  rw [← advanced calls counts]
  exact Driver.perform_uncalled counts (by cases a <;> simp [Act.calls]) done

namespace Progress

theorem wake (cause : Option Command) (inbox : List Message) (t : Readings) :
    Progress ω r (l.wake (cause.map .handle).toList inbox t) := by
  refine .inward nofun ?_
  intro a ha
  simp only [Loop.wake, List.mem_append, List.mem_map, Option.mem_toList, Option.map_eq_some_iff,
    List.mem_cons, List.not_mem_nil, or_false] at ha
  rcases ha with (⟨c, -, rfl⟩ | ⟨m, -, rfl⟩) | rfl | rfl <;> trivial

/-- One statement that is done. -/
theorem did {a : Act} {left : List Act} {d : Driver κ μ} {w w' : ω} (h : Progress ω r l)
    (next : l.todo = a :: left) (done : l.driver.perform w a = .done (d, w')) :
    Progress ω r { l with driver := d, todo := left } := by
  cases h with
  | inward stage acts =>
    refine .inward stage ?_
    intro b hb
    exact acts b (next ▸ List.mem_cons_of_mem a hb)
  | @working g _ before stage fresh part todo advanced secured =>
    cases before with
    | nil =>
      obtain ⟨m, others, held, rfl, rfl⟩ := List.map_eq_cons_iff.mp (todo.symm.trans next)
      have part : others <:+ g.ready.heldMessages := held ▸ List.suffix_cons m others
      exact .promising stage fresh part rfl (advanced.did done) (secured.2.sent done)
    | cons b before =>
      obtain ⟨rfl, rfl⟩ := List.cons.inj (todo.symm.trans next)
      have part := (List.suffix_cons b before).trans part
      exact .working stage fresh part rfl (advanced.did done) ((secured.2 w).1 d w' done)
  | promising stage fresh part todo advanced worked =>
    obtain ⟨m, others, rfl, rfl, rfl⟩ := List.map_eq_cons_iff.mp (todo.symm.trans next)
    exact .promising stage fresh ((List.suffix_cons m others).trans part) rfl (advanced.did done)
      (worked.sent done)
  | @committing g _ f c stage followup commit todo advanced worked =>
    obtain ⟨rfl, rfl⟩ := List.cons.inj (todo.symm.trans next)
    have advanced := advanced.did done
    cases done
    refine .following stage followup List.suffix_rfl rfl advanced ?_
    refine ⟨worked.machine, worked.log, ?_, worked.snapshots⟩
    have follows : g.commit? = some c := by rw [commit?, followup]; exact commit
    rw [committed_of_some follows, ← worked.stable]
    rfl
  | @following g _ f messages stage followup part todo advanced worked =>
    cases messages with
    | nil =>
      have rest : f.rest = a :: left := todo.symm.trans next
      refine .inward (by simp [stage]) ?_
      intro b hb
      exact f.inward_rest b (rest ▸ List.mem_cons_of_mem a hb)
    | cons m others =>
      obtain ⟨rfl, rfl⟩ := List.cons.inj (todo.symm.trans next)
      exact .following stage followup ((List.suffix_cons m others).trans part) rfl
        (advanced.did done) (worked.sent done)

/-- Where a round has been worked off, everything is stored. -/
theorem worked (h : Progress ω r l) (storing : l.stage = .storing) (done : l.todo = []) :
    ∃ g, r = some g ∧ g.followup = none ∧ g.Advanced l.driver ∧ g.Worked g.stable l.driver := by
  cases h with
  | inward stage => exact absurd storing stage
  | @working g _ before _ fresh _ todo advanced secured =>
    obtain ⟨rfl, -⟩ := List.append_eq_nil_iff.mp (todo.symm.trans done)
    exact ⟨g, rfl, fresh, advanced, secured.2⟩
  | @promising g _ _ _ fresh _ _ advanced worked => exact ⟨g, rfl, fresh, advanced, worked⟩
  | committing stage | following stage =>
    rw [storing] at stage
    cases stage

/-- The protocol hands out a round, or what follows it. -/
theorem turned (h : Progress ω r e.loop) (live : e.ending = none) (todo : e.loop.todo = [])
    (busy : e.loop.stage ≠ .closing) (turn : e.loop.turn = .done l) :
    Progress ω (note r e (.statement : Event ω)) l := by
  obtain ⟨core, driver, next⟩ := Engine.turn_cases live todo busy turn
  obtain ⟨ops, run, called, told⟩ := Loop.turn_calls turn
  have same : e.driver.Alike l.driver := by
    rw [driver]
    exact ⟨rfl, rfl, rfl, rfl, rfl⟩
  rcases next with ⟨-, -, acts, stage⟩ | ⟨ready, round, -, acts, stage⟩ |
    ⟨f, round, followup, acts, stage⟩
  · refine .inward (by simp [stage]) ?_
    intro a ha
    rw [acts] at ha
    simp only [Loop.coda, List.mem_cons, List.not_mem_nil, or_false] at ha
    rcases ha with rfl | rfl <;> trivial
  · have begun : note r e (.statement : Event ω) = some { start := e.driver, ready } := by
      simp only [note, round]
    have opening : e.loop.stage = .opening := by
      simp only [Engine.round?] at round
      split at round
      · assumption
      · cases round
    have untold : Round.Advanced { start := e.driver, ready } l.driver := by
      intro calls counts
      rw [opening] at called
      exact counts.unchanged run fun told => by simpa [Stage.calls] using called.subset told
    rw [begun]
    exact .working stage rfl List.suffix_rfl (acts.trans ready.acts_eq) untold
      (secures_work _ same)
  · have storing : e.loop.stage = .storing := by
      simp only [Engine.followup?] at followup
      split at followup
      · assumption
      · cases followup
    obtain ⟨g, rfl, fresh, untold, worked⟩ := h.worked storing todo
    let g' : Round κ μ := { g with followup := some f }
    have advanced : g'.Advanced l.driver := by
      intro calls counts
      have before := untold calls counts
      rw [fresh] at before
      rw [counts.run run, told storing]
      exact congrArg (· + 1) before
    have follows : note (some g) e (.statement : Event ω) = some g' := by
      simp only [note, round, followup, Option.map_some, g']
    have worked' : g'.Worked g'.stable l.driver := by
      obtain ⟨machine, log, stable, snapshots⟩ := worked.alike same
      exact ⟨machine, log, stable, snapshots⟩
    have acts := acts.trans f.acts_eq
    rw [follows]
    cases commit : f.commit with
    | some c =>
      rw [commit] at acts
      exact .committing stage rfl commit acts advanced worked'
    | none =>
      rw [commit] at acts
      refine .following stage rfl List.suffix_rfl acts advanced ?_
      rwa [committed_of_none (g := g') commit]

/-- One event leaves an engine that runs in its round. -/
theorem after {w : ω} {v : Event ω} (h : e.ending = none → Progress ω r e.loop)
    (live : (e.after w v).1.ending = none) :
    Progress ω (note r e v) (e.after w v).1.loop := by
  rcases e.after_cases w v with ⟨other, changed⟩ | ⟨rfl, advances⟩
  · rw [note_of_ne_statement other]
    generalize (e.after w v).1 = e' at changed live
    rcases changed with asks | rouses
    · cases asks <;> exact h live
    · cases rouses with
      | same => exact h live
      | ends => cases live
      | wakes cause => exact wake cause _ _
  · generalize (e.after w .statement).1 = e' at advances live
    cases advances with
    | still round followup =>
      have same : note r e (.statement : Event ω) = r := by simp only [note, round, followup]
      rw [same]
      exact h live
    | did running todo done =>
      rw [note_of_todo todo]
      exact (h running).did todo done
    | turned running todo busy turn => exact (h running).turned running todo busy turn
    | stopped | crashed => cases live

/-- Where a message is sent, it may be sent at once, or everything is stored. -/
theorem sends {m : Message} {left : List Act} (h : Progress ω r l)
    (next : l.todo = .send m :: left) :
    ∃ g, r = some g ∧ g.Advanced l.driver ∧
      (g.Early m left ∨ g.HeldBack m left ∧ g.Stored l.driver) := by
  have stored : ∀ {g : Round κ μ}, g.followup = none → g.Worked g.stable l.driver →
      g.Stored l.driver := by
    intro g fresh worked
    have none : g.commit? = none := by rw [commit?, fresh, Option.bind_none]
    exact (committed_of_none none ▸ worked).stored
  cases h with
  | inward stage acts => exact absurd (acts (.send m) (next ▸ List.mem_cons_self)) not_false
  | @working g _ before stage fresh part todo advanced secured =>
    refine ⟨g, rfl, advanced, ?_⟩
    cases before with
    | nil =>
      obtain ⟨_, others, held, sent, rfl⟩ := List.map_eq_cons_iff.mp (todo.symm.trans next)
      cases sent
      have part : m :: others <:+ g.ready.heldMessages := held ▸ List.suffix_rfl
      exact Or.inr ⟨Or.inl ⟨fresh, others, part, rfl⟩, stored fresh secured.2⟩
    | cons b before =>
      obtain ⟨rfl, rfl⟩ := List.cons.inj (todo.symm.trans next)
      obtain ⟨others, early, rfl⟩ := Ready.early_of_suffix part
      exact Or.inl ⟨fresh, others, early, rfl⟩
  | @promising g _ messages stage fresh part todo advanced worked =>
    obtain ⟨_, others, rfl, sent, rfl⟩ := List.map_eq_cons_iff.mp (todo.symm.trans next)
    cases sent
    exact ⟨g, rfl, advanced, Or.inr ⟨Or.inl ⟨fresh, others, part, rfl⟩, stored fresh worked⟩⟩
  | committing stage followup commit todo => cases todo.symm.trans next
  | @following g _ f messages stage followup part todo advanced worked =>
    cases messages with
    | nil =>
      have rest : f.rest = .send m :: left := todo.symm.trans next
      exact absurd (f.inward_rest (.send m) (rest ▸ List.mem_cons_self)) not_false
    | cons m' others =>
      obtain ⟨sent, rfl⟩ := List.cons.inj (todo.symm.trans next)
      cases sent
      exact ⟨g, rfl, advanced,
        Or.inr ⟨Or.inr ⟨f, followup, others, part, rfl⟩, worked.stored⟩⟩

/-- A statement that can fail belongs to the work of a round, and what is held back comes after. -/
theorem mem_work {a : Act} {left : List Act} (h : Progress ω r l) (next : l.todo = a :: left)
    (failing : (∃ s, a = .restore s) ∨ ∃ batch, a = .append batch) :
    ∃ g before, r = some g ∧ g.followup = none ∧ g.Advanced l.driver ∧ a ∈ g.ready.work ∧
      left = before ++ g.ready.heldMessages.map .send := by
  have outward : ¬a.Inward ∧ ∀ m, a ≠ .send m := by
    rcases failing with ⟨s, rfl⟩ | ⟨batch, rfl⟩ <;> exact ⟨not_false, nofun⟩
  cases h with
  | inward stage acts => exact absurd (acts a (next ▸ List.mem_cons_self)) outward.1
  | @working g _ before stage fresh part todo advanced secured =>
    cases before with
    | nil =>
      obtain ⟨m, others, -, sent, -⟩ := List.map_eq_cons_iff.mp (todo.symm.trans next)
      exact absurd sent.symm (outward.2 m)
    | cons b before =>
      obtain ⟨rfl, rfl⟩ := List.cons.inj (todo.symm.trans next)
      refine ⟨g, before, rfl, fresh, advanced, ?_, rfl⟩
      rcases List.mem_append.mp (part.subset List.mem_cons_self) with early | work
      · obtain ⟨m, -, sent⟩ := List.mem_map.mp early
        exact absurd sent.symm (outward.2 m)
      · exact work
  | promising stage fresh part todo =>
    obtain ⟨m, others, -, sent, -⟩ := List.map_eq_cons_iff.mp (todo.symm.trans next)
    exact absurd sent.symm (outward.2 m)
  | committing stage followup commit todo =>
    obtain ⟨rfl, -⟩ := List.cons.inj (todo.symm.trans next)
    exact absurd trivial outward.1
  | @following g _ f messages stage followup part todo =>
    cases messages with
    | nil =>
      have rest : f.rest = a :: left := todo.symm.trans next
      exact absurd (f.inward_rest a (rest ▸ List.mem_cons_self)) outward.1
    | cons m others =>
      obtain ⟨sent, -⟩ := List.cons.inj (todo.symm.trans next)
      exact absurd sent.symm (outward.2 m)

end Progress

/-! ## Every run -/

variable {m₀ m : Moment κ μ ω (Option (Round κ μ))}

theorem admitsAll_rounds (m : Moment κ μ ω (Option (Round κ μ))) (vs : List (Event ω)) :
    (rounds κ μ ω).AdmitsAll m vs := by
  induction vs generalizing m with
  | nil => trivial
  | cons v vs ih => exact ⟨trivial, ih _⟩

/-- When an engine has ended, nothing is stored, sent or handed out any more. -/
theorem play_of_ended (past : m.engine.ended = true) (vs : List (Event ω)) :
    let m' := (rounds κ μ ω).play m vs
    m'.engine.ending = m.engine.ending ∧ m'.engine.loop = m.engine.loop ∧
      m'.record = m.record ∧ m'.network = vs.foldl Event.outer m.network := by
  induction vs generalizing m with
  | nil => exact ⟨rfl, rfl, rfl, rfl⟩
  | cons v vs ih =>
    obtain ⟨ending, loop, outer⟩ := Engine.after_of_ended past m.network v
    have finished : (m.engine.after m.network v).1.ended = true := by
      rw [Engine.ended, ending]
      exact past
    have noted := note_of_ended (r := m.record) past v
    obtain ⟨ending', loop', record, network⟩ :=
      ih (m := m.next v (note m.record m.engine v)) finished
    refine ⟨ending'.trans ending, loop'.trans loop, record.trans noted, network.trans ?_⟩
    rw [List.foldl_cons, ← outer]
    rfl

/-- A statement that fails ends the engine, whatever happens then. -/
theorem play_of_stopped {a : Act} {left : List Act} {f : Failure} {d : Driver κ μ}
    (live : m.engine.ending = none) (todo : m.engine.loop.todo = a :: left)
    (stop : m.engine.driver.perform m.network a = .stopped f (d, m.network))
    (vs : List (Event ω)) :
    let m' := (rounds κ μ ω).play m (.statement :: vs)
    m'.engine.ending = some (.returned (.error f)) ∧ m'.record = m.record ∧
      m'.network = vs.foldl Event.outer m.network ∧
      d.Alike m'.engine.driver ∧ m'.engine.driver.core = m.engine.driver.core := by
  let behind : Engine κ μ :=
    { m.engine with loop := { m.engine.loop with driver := d, todo := left } }
  let m₁ := { m with engine := behind.finish (.returned (.error f)) }
  have one : (rounds κ μ ω).after m .statement = m₁ := by
    have noted := note_of_todo (ω := ω) (r := m.record) todo
    have ended : m.engine.after m.network .statement = (m₁.engine, m.network) :=
      Engine.advance_stopped live todo stop
    change m.next .statement (note m.record m.engine .statement) = m₁
    rw [noted, Moment.next, ended]
  have played : (rounds κ μ ω).play m (.statement :: vs) = (rounds κ μ ω).play m₁ vs :=
    congrArg ((rounds κ μ ω).play · vs) one
  obtain ⟨ending, loop, record, network⟩ := play_of_ended (m := m₁) rfl vs
  have driver : ((rounds κ μ ω).play m₁ vs).engine.driver = m₁.engine.driver :=
    congrArg Loop.driver loop
  obtain ⟨same, core⟩ := behind.alike_finish (.returned (.error f))
  rw [played]
  refine ⟨ending, record, network, ?_, ?_⟩
  · rw [driver]
    exact same
  · rw [driver]
    exact core.trans (Driver.core_of_stopped stop)

/-- Whatever the protocol hands out, and in whatever order calls, messages, ticks and changes of
the network come: an engine does nothing to the network but send, and what a round holds back and
what follows it is sent when the round is stored; nothing else is sent but what may be sent at
once. Where a snapshot cannot be restored or entries cannot be appended, what is held back is still
to be sent and the protocol has not been told that the round is stored, and whatever happens then,
the engine has ended with the failure, the protocol is asked for nothing and told nothing more, and
the driver sends and stores nothing more. -/
theorem held_back_until_stored (rest : m₀.engine.loop.idle = true)
    (run : Reachable (rounds κ μ ω) m₀ m) (live : m.engine.ending = none) :
    (∀ v, (m.engine.after m.network v).2 ≠ v.outer m.network →
      v = .statement ∧ ∃ message left, m.engine.loop.todo = .send message :: left) ∧
    (∀ message left, m.engine.loop.todo = .send message :: left →
      ∃ g, m.record = some g ∧ g.Advanced m.engine.driver ∧
        (g.Early message left ∨ g.HeldBack message left ∧ g.Stored m.engine.driver)) ∧
    ∀ f d, m.engine.Fails f d →
      (∃ machine, d = { m.engine.driver with machine.machine := machine } ∧
        (LawfulMachine μ → machine = m.engine.driver.machine.machine)) ∧
      ∃ g a before, m.record = some g ∧ g.followup = none ∧
        (g.ready.snapshot.map .restore = some a ∨ .append g.ready.entries = a) ∧
        m.engine.loop.todo = a :: before ++ g.ready.heldMessages.map .send ∧
        ∀ vs, let m' := (rounds κ μ ω).play m (.statement :: vs)
          m'.engine.ending = some (.returned (.error f)) ∧ m'.record = some g ∧
          m'.network = vs.foldl Event.outer m.network ∧ d.Alike m'.engine.driver ∧
          m'.engine.driver.core = m.engine.driver.core ∧ g.Advanced m'.engine.driver := by
  have progress : Progress ω m.record m.engine.loop := by
    refine run.invariant
      (P := fun m => m.engine.ending = none → Progress ω m.record m.engine.loop) ?_ ?_ live
    · intro _
      have still : m₀.engine.loop.stage = .closing ∧ m₀.engine.loop.todo = [] := by
        simpa [Loop.idle] using rest
      exact .inward (by simp [still.1]) (by simp [still.2])
    · intro s v before _ live
      exact Progress.after before live
  refine ⟨?_, fun message left next => progress.sends next, ?_⟩
  · intro v changed
    exact (m.engine.after_network m.network v).resolve_left changed
  · intro f d fails
    obtain ⟨a, left, todo, failing, stop⟩ := fails.stops m.network
    obtain ⟨g, before, record, fresh, untold, work, rfl⟩ := progress.mem_work todo failing
    refine ⟨fails.left_eq, g, a, before, record, fresh, ?_, todo, ?_⟩
    · rcases failing with ⟨s, rfl⟩ | ⟨batch, rfl⟩
      · rw [Ready.restore_work work]
        exact Or.inl rfl
      · rw [Ready.append_work work]
        exact Or.inr rfl
    · intro vs
      obtain ⟨ending, kept, network, alike, core⟩ := play_of_stopped live todo stop vs
      refine ⟨ending, kept.trans record, network, alike, core, ?_⟩
      intro calls counts
      rw [core]
      exact untold calls counts

end Round

namespace Sample

/-- A follower to which nothing has happened. -/
def quiet : Moment (Counted Replica) Recorder Station (Option (Round (Counted Replica) Recorder)) :=
  { engine := Engine.boot 1 { trailing := 0 } { core := follower 1 shelf } {} shelf [] 0
    network := { fabric := {}, site := .inside 0 }
    record := none }

/-- The first `n` statements in which it works off a message. -/
def told (m : Message) (n : Nat) :
    Moment (Counted Replica) Recorder Station (Option (Round (Counted Replica) Recorder)) :=
  (rounds (Counted Replica) Recorder Station).play quiet
    (.wake [m] (.moment 0) :: List.replicate n .statement)

end Sample

namespace Round

/-- A follower is sent a snapshot: it answers when the snapshot is restored. If the snapshot is
cut short, it never does, and its protocol is never told that the round is stored. -/
theorem held_back_until_stored_of_follower :
    let s := (Sample.ship 1).snapshot
    let answer : Message :=
      { kind := .appendResponse, sender := 1, target := 3, term := 1, index := 2 }
    let m := Sample.told (Sample.ship 1) 6
    let torn := { s with data := [] }
    let m' := Sample.told { Sample.ship 1 with snapshot := torn } 4
    (m.engine.loop.todo = [.send answer] ∧ ∃ g, m.record = some g ∧
      g.ready.snapshot = some s ∧ g.HeldBack answer [] ∧ g.Stored m.engine.driver) ∧
    m'.engine.Fails Recorder.cutShort m'.engine.driver ∧ ∃ g, m'.record = some g ∧
      g.ready.heldMessages = [answer] ∧ ∀ vs,
        let m'' := (rounds (Counted Replica) Recorder Station).play m' (.statement :: vs)
        m''.engine.ending = some (.returned (.error Recorder.cutShort)) ∧ m''.record = some g ∧
          m''.network = vs.foldl Event.outer m'.network ∧ .advance ∉ m''.engine.driver.core.calls := by
  intro s answer m torn m'
  have reached : ∀ message n, Reachable (rounds (Counted Replica) Recorder Station) Sample.quiet
      (Sample.told message n) :=
    fun message n => System.reachable_play .start (admitsAll_rounds _ _)
  constructor
  · have live : m.engine.ending = none := Option.isNone_iff_eq_none.mp (by decide +kernel)
    have todo : m.engine.loop.todo = [.send answer] := by decide +kernel
    have carried : m.record.map (·.ready.snapshot) = some (some s) := by decide +kernel
    obtain ⟨g, record, -, sent⟩ :=
      (held_back_until_stored rfl (reached _ _) live).2.1 answer [] todo
    rw [record] at carried
    have carried : g.ready.snapshot = some s := Option.some.inj carried
    rcases sent with ⟨-, others, -, left⟩ | ⟨held, stored⟩
    · simp [Ready.work, carried] at left
    · exact ⟨todo, g, record, carried, held, stored⟩
  · have live : m'.engine.ending = none := Option.isNone_iff_eq_none.mp (by decide +kernel)
    have todo : m'.engine.loop.todo =
        [.restore torn, .setHardState { term := 1, commit := 2 }, .send answer] := by decide +kernel
    have refused : ∀ d : Driver (Counted Replica) Recorder,
        d.restore torn = .error { failure := Recorder.cutShort, left := d } := fun d => rfl
    have fails : m'.engine.Fails Recorder.cutShort m'.engine.driver :=
      Or.inl ⟨torn, _, todo, refused _⟩
    have awaiting : m'.record.map (·.ready.heldMessages) = some [answer] := by decide +kernel
    have untold : m'.record.map (·.start.core.calls.count .advance) = some 0 := by decide +kernel
    obtain ⟨-, g, -, -, record, fresh, -, -, finished⟩ :=
      (held_back_until_stored rfl (reached _ _) live).2.2 Recorder.cutShort _ fails
    rw [record] at awaiting untold
    refine ⟨fails, g, record, Option.some.inj awaiting, ?_⟩
    intro vs
    obtain ⟨ending, kept, network, -, -, advanced⟩ := finished vs
    refine ⟨ending, kept, network, ?_⟩
    have before : g.start.core.calls.count .advance = 0 := Option.some.inj untold
    have same := advanced _ (Counted.counts .advance)
    rw [fresh, before] at same
    exact List.count_eq_zero.mp same

end Round

end QuorumLab
