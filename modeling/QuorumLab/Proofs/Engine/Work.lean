import QuorumLab.Proofs.Engine.Events

/-!
# Working off statements

Most statements of a loop leave alone what a driver holds: its machine, its shelf, and how
far both have got. `Secures` says of the statements still to do that they end well
whatever the network does meanwhile; there is one rule for each statement that does more.
-/

namespace QuorumLab

namespace Effect

variable {α β : Type}

theorem map_ofFault_done {x : Except Fault α} {g : α → β} {b : β}
    (h : (ofFault x).map g = .done b) : ∃ a, x = .ok a ∧ g a = b := by
  cases x with
  | error f => cases h
  | ok a => cases h; exact ⟨a, rfl, rfl⟩

theorem map_ofSetback_done {x : Except (Setback α) α} {g : α → β} {b : β}
    (h : (ofSetback x).map g = .done b) : ∃ a, x = .ok a ∧ g a = b := by
  cases x with
  | error s => cases h
  | ok a => cases h; exact ⟨a, rfl, rfl⟩

theorem map_ofApplied_done {x : Applied α} {g : α → β} {b : β}
    (h : (ofApplied x).map g = .done b) : ∃ a, x = .done a ∧ g a = b := by
  cases x with
  | done a => cases h; exact ⟨a, rfl, rfl⟩
  | held => cases h
  | fault f => cases h

theorem map_ofFault_not_stopped {x : Except Fault α} {g : α → β} {f : Failure} {b : β} :
    (ofFault x).map g ≠ .stopped f b := by
  cases x <;> intro h <;> cases h

theorem map_ofSetback_stopped {x : Except (Setback α) α} {g : α → β} {f : Failure} {b : β}
    (h : (ofSetback x).map g = .stopped f b) :
    ∃ a, x = .error { failure := f, left := a } ∧ g a = b := by
  cases x with
  | error s => cases h; exact ⟨s.left, rfl, rfl⟩
  | ok a => cases h

theorem map_ofApplied_not_stopped {x : Applied α} {g : α → β} {f : Failure} {b : β} :
    (ofApplied x).map g ≠ .stopped f b := by
  cases x <;> intro h <;> cases h

end Effect

namespace Driver

variable {κ μ ω : Type}

/-- `d'` holds what `d` holds. -/
structure Alike (d d' : Driver κ μ) : Prop where
  settings : d'.settings = d.settings
  machine : d'.machine = d.machine
  shelf : d'.shelf = d.shelf
  applied : d'.applied = d.applied
  lastSnapshot : d'.lastSnapshot = d.lastSnapshot

theorem Alike.refl (d : Driver κ μ) : d.Alike d := ⟨rfl, rfl, rfl, rfl, rfl⟩

theorem Alike.trans {a b c : Driver κ μ} (h : a.Alike b) (k : b.Alike c) : a.Alike c :=
  ⟨k.settings.trans h.settings, k.machine.trans h.machine, k.shelf.trans h.shelf,
    k.applied.trans h.applied, k.lastSnapshot.trans h.lastSnapshot⟩

theorem alike_answer (d : Driver κ μ) (ticket : Nat) (o : Outcome) :
    d.Alike (d.answer ticket o) := ⟨rfl, rfl, rfl, rfl, rfl⟩

theorem alike_enlist (d : Driver κ μ) (index : Nat) (p : Proposal) :
    d.Alike (d.enlist index p) := by
  cases h : d.pending.lookup index <;> simp only [enlist, h] <;> exact ⟨rfl, rfl, rfl, rfl, rfl⟩

/-- A proposal for an index that nobody waits for is added to the others. -/
theorem enlist_free {d : Driver κ μ} {index : Nat} {p : Proposal}
    (free : ∀ q ∈ d.pending, q.1 ≠ index) : ∃ pending,
      d.enlist index p = { d with pending } ∧ ∀ q ∈ pending, q ∈ d.pending ∨ q = (index, p) := by
  have waits : d.pending.lookup index = none :=
    List.lookup_eq_none_iff.mpr fun q hq => by simpa using Ne.symm (free q hq)
  refine ⟨_, by simp only [enlist, waits]; rfl, ?_⟩
  intro q hq
  rcases List.mem_append.mp hq with hq | hq
  · exact Or.inl (List.mem_filter.mp hq).1
  · rcases List.mem_cons.mp hq with rfl | hq
    · exact Or.inr rfl
    · exact Or.inl (List.mem_filter.mp hq).1

variable [Core κ]

/-- What comes of proposing a command: a node that does not lead refuses it, the protocol of
one that does may refuse it, or the driver waits for the entry it became. -/
theorem propose_cases {d d' : Driver κ μ} {ticket : Nat} {data : Bytes}
    (h : d.propose ticket data = .ok d') :
    (Core.role d.core ≠ .leader ∧
      ∃ leader, d' = d.answer ticket (.error (.notLeader leader))) ∨
    (Core.role d.core = .leader ∧ ∃ refusal core,
      Core.propose d.shelf commandMark data d.core = .ok (.error refusal, core) ∧
        d' = ({ d with core } : Driver κ μ).answer ticket (.error (.raft refusal))) ∨
    (Core.role d.core = .leader ∧ ∃ core,
      Core.propose d.shelf commandMark data d.core = .ok (.ok (), core) ∧
        d' = ({ d with core } : Driver κ μ).enlist (Core.lastIndex core d.shelf)
          { term := Core.term core, ticket }) := by
  by_cases leads : Core.role d.core = .leader
  · simp only [propose, leads, ne_eq, not_true_eq_false, if_false] at h
    split at h
    · cases h
    · rename_i refusal core refused
      cases h
      exact Or.inr (Or.inl ⟨leads, refusal, core, refused, rfl⟩)
    · rename_i core taken
      cases h
      exact Or.inr (Or.inr ⟨leads, core, taken, rfl⟩)
  · simp only [propose, if_pos leads] at h
    cases h
    exact Or.inl ⟨leads, _, rfl⟩

theorem alike_propose {d d' : Driver κ μ} {ticket : Nat} {data : Bytes}
    (h : d.propose ticket data = .ok d') : d.Alike d' := by
  rcases propose_cases h with ⟨-, _, rfl⟩ | ⟨-, _, core, -, rfl⟩ | ⟨-, core, -, rfl⟩
  · exact d.alike_answer _ _
  · exact ⟨rfl, rfl, rfl, rfl, rfl⟩
  · exact Alike.trans (b := { d with core }) ⟨rfl, rfl, rfl, rfl, rfl⟩ (alike_enlist _ _ _)

/-- Taking in a message changes nothing of a driver but the state of its protocol. -/
theorem receive_eq {d d' : Driver κ μ} {m : Message} (h : d.receive m = .ok d') :
    ∃ core, d' = { d with core } := by
  simp only [receive] at h
  cases hs : Core.step d.shelf m d.core with
  | error f => rw [hs] at h; cases h
  | ok r => rw [hs] at h; cases h; exact ⟨r.2, rfl⟩

theorem tickIfDue_eq {d d' : Driver κ μ} {now later : Nat} (h : d.tickIfDue now later = .ok d') :
    ∃ core nextTick, d' = { d with core, nextTick } := by
  by_cases early : now < d.nextTick
  · simp only [tickIfDue, if_pos early] at h
    cases h
    exact ⟨d.core, d.nextTick, rfl⟩
  · simp only [tickIfDue, if_neg early] at h
    cases ht : Core.tick d.shelf d.core with
    | error f => rw [ht] at h; cases h
    | ok core => rw [ht] at h; cases h; exact ⟨core, _, rfl⟩

/-- Sending changes nothing of a driver but the state of its protocol. -/
theorem send_eq [Carrier ω] {d d' : Driver κ μ} {m : Message} {w w' : ω}
    (h : d.send m w = .ok (d', w')) : ∃ core, d' = { d with core } := by
  unfold send at h
  split at h
  · cases h
    exact ⟨d.core, rfl⟩
  · split at h
    · dsimp only at h
      split at h <;> obtain ⟨core, _, he⟩ := bind_ok h <;> cases he <;> exact ⟨core, rfl⟩
    · obtain ⟨told, _, h⟩ := bind_ok h
      dsimp only at h
      split at h <;> obtain ⟨core, _, he⟩ := bind_ok h <;> cases he <;> exact ⟨core, rfl⟩

/-- Looking at the role, a driver that led and does not any more lets its proposals fail. -/
theorem observeRole_cases (d : Driver κ μ) :
    (Core.role d.core = d.role ∧ d.observeRole = d) ∨
    (Core.role d.core ≠ d.role ∧ d.role = .leader ∧
      d.observeRole = { d.failPending .leadershipLost with role := Core.role d.core }) ∨
    (Core.role d.core ≠ d.role ∧ d.role ≠ .leader ∧
      d.observeRole = { d with role := Core.role d.core }) := by
  by_cases same : Core.role d.core = d.role
  · exact Or.inl ⟨same, by simp only [observeRole, if_pos same]⟩
  · by_cases led : d.role = .leader
    · exact Or.inr (Or.inl ⟨same, led, by simp only [observeRole, if_neg same, if_pos led]⟩)
    · exact Or.inr (Or.inr ⟨same, led, by simp only [observeRole, if_neg same, if_neg led]⟩)

theorem alike_observeRole (d : Driver κ μ) : d.Alike d.observeRole := by
  rcases d.observeRole_cases with ⟨-, h⟩ | ⟨-, -, h⟩ | ⟨-, -, h⟩ <;> rw [h] <;>
    exact ⟨rfl, rfl, rfl, rfl, rfl⟩

end Driver

/-- A statement that concerns the protocol and the clock only. -/
def Act.Inner : Act → Prop
  | .receive _ | .tick _ _ | .send _ | .settle => True
  | _ => False

/-- A statement that leaves a driver alike. -/
def Act.Quiet : Act → Prop
  | .receive _ | .tick _ _ | .send _ | .settle | .observe | .publish => True
  | .handle (.propose _ _) | .handle (.membership _) | .handle .stop => True
  | _ => False

/-- A statement that neither takes in a command nor answers one. -/
def Act.Plain : Act → Prop
  | .handle _ | .apply _ | .observe => False
  | _ => True

namespace Driver

variable {κ μ ω : Type} [Core κ] [Machine μ] [Carrier ω]

theorem frame_of_inner {d d' : Driver κ μ} {w w' : ω} {a : Act} (inner : a.Inner)
    (h : d.perform w a = .done (d', w')) : ∃ core nextTick, d' = { d with core, nextTick } := by
  cases a with
  | receive m =>
    obtain ⟨_, hr, he⟩ := Effect.map_ofFault_done h
    cases he
    obtain ⟨core, rfl⟩ := receive_eq hr
    exact ⟨core, d.nextTick, rfl⟩
  | tick now later =>
    obtain ⟨_, ht, he⟩ := Effect.map_ofFault_done h
    cases he
    exact tickIfDue_eq ht
  | send m =>
    cases hs : d.send m w with
    | error f => rw [perform, hs] at h; cases h
    | ok r =>
      rw [perform, hs] at h
      cases h
      obtain ⟨core, rfl⟩ := send_eq hs
      exact ⟨core, d.nextTick, rfl⟩
  | settle =>
    obtain ⟨core, _, he⟩ := Effect.map_ofFault_done h
    cases he
    exact ⟨core, d.nextTick, rfl⟩
  | handle | policy | restore | apply | append | setHardState | setCommit | observe | publish =>
    exact absurd inner not_false

theorem alike_of_quiet {d d' : Driver κ μ} {w w' : ω} {a : Act} (quiet : a.Quiet)
    (h : d.perform w a = .done (d', w')) : d.Alike d' := by
  cases a with
  | receive | tick | send | settle =>
    obtain ⟨core, nextTick, rfl⟩ := frame_of_inner (by trivial) h
    exact ⟨rfl, rfl, rfl, rfl, rfl⟩
  | handle c =>
    obtain ⟨_, hh, he⟩ := Effect.map_ofFault_done h
    cases he
    cases c with
    | propose ticket data => exact alike_propose hh
    | snapshot ticket => exact absurd quiet not_false
    | membership ticket => cases hh; exact d.alike_answer _ _
    | stop => cases hh; exact Alike.refl d
  | observe => cases h; exact d.alike_observeRole
  | publish => cases h; exact ⟨rfl, rfl, rfl, rfl, rfl⟩
  | policy | restore | apply | append | setHardState | setCommit => exact absurd quiet not_false

/-- Only a snapshot or a batch that is refused ends a driver with a failure. -/
theorem perform_stopped {d d' : Driver κ μ} {w w' : ω} {a : Act} {f : Failure}
    (h : d.perform w a = .stopped f (d', w')) :
    w' = w ∧ ((∃ s, a = .restore s ∧ d.restore s = .error { failure := f, left := d' }) ∨
      ∃ batch, a = .append batch ∧ d.append batch = .error { failure := f, left := d' }) := by
  cases a with
  | restore s =>
    obtain ⟨_, refused, same⟩ := Effect.map_ofSetback_stopped h
    cases same
    exact ⟨rfl, Or.inl ⟨s, rfl, refused⟩⟩
  | append batch =>
    obtain ⟨_, refused, same⟩ := Effect.map_ofSetback_stopped h
    cases same
    exact ⟨rfl, Or.inr ⟨batch, rfl, refused⟩⟩
  | receive | handle | tick | settle => exact absurd h Effect.map_ofFault_not_stopped
  | apply e => exact absurd h Effect.map_ofApplied_not_stopped
  | send m => cases hs : d.send m w <;> rw [perform, hs] at h <;> cases h
  | policy | setHardState | setCommit | observe | publish => cases h

theorem perform_held {d : Driver κ μ} {w : ω} {a : Act} (h : d.perform w a = .held) :
    ∃ x, a = .apply x := by
  cases a with
  | apply x => exact ⟨x, rfl⟩
  | restore s => cases hs : d.restore s <;> simp [perform, hs, Effect.ofSetback, Effect.map] at h
  | append batch =>
    cases hs : d.append batch <;> simp [perform, hs, Effect.ofSetback, Effect.map] at h
  | receive m => cases hs : d.receive m <;> simp [perform, hs, Effect.ofFault, Effect.map] at h
  | handle c => cases hs : d.handle c <;> simp [perform, hs, Effect.ofFault, Effect.map] at h
  | tick now later =>
    cases hs : d.tickIfDue now later <;> simp [perform, hs, Effect.ofFault, Effect.map] at h
  | settle =>
    cases hs : Core.advanceApplied d.core <;> simp [perform, hs, Effect.ofFault, Effect.map] at h
  | send m => cases hs : d.send m w <;> simp [perform, hs, Effect.ofFault] at h
  | policy | setHardState | setCommit | observe | publish => cases h

/-- Only what is sent changes the network. -/
theorem perform_network {d d' : Driver κ μ} {w w' : ω} {a : Act}
    (done : d.perform w a = .done (d', w')) : w' = w ∨ ∃ m, a = .send m := by
  cases a with
  | send m => exact Or.inr ⟨m, rfl⟩
  | receive | handle | tick | settle =>
    obtain ⟨_, -, same⟩ := Effect.map_ofFault_done done
    cases same
    exact Or.inl rfl
  | restore | append =>
    obtain ⟨_, -, same⟩ := Effect.map_ofSetback_done done
    cases same
    exact Or.inl rfl
  | apply =>
    obtain ⟨_, -, same⟩ := Effect.map_ofApplied_done done
    cases same
    exact Or.inl rfl
  | policy | setHardState | setCommit | observe | publish =>
    cases done
    exact Or.inl rfl

end Driver

namespace Driver

variable {κ μ ω : Type} [Machine μ]

/-! ## What the other statements do -/

omit [Machine μ] in
/-- Noting an entry as applied lets go whoever waits for it: with its index, if it is the entry
of that term. -/
theorem noteApplied_cases (d : Driver κ μ) (e : Entry) :
    (d.pending.lookup e.index = none ∧ d.noteApplied e = { d with applied := e.index }) ∨
    ∃ p o, d.pending.lookup e.index = some p ∧
      d.noteApplied e = Driver.answer { d with
        applied := e.index, pending := d.pending.filter (·.1 ≠ e.index) } p.ticket o ∧
      (p.term = e.term ∧ o = .ok (.index e.index) ∨
        p.term ≠ e.term ∧ o = .error .leadershipLost) := by
  cases waits : d.pending.lookup e.index with
  | none => exact Or.inl ⟨rfl, by simp only [noteApplied, waits]⟩
  | some p =>
    by_cases own : p.term = e.term
    · exact Or.inr ⟨p, _, rfl, by simp only [noteApplied, waits, if_pos own], Or.inl ⟨own, rfl⟩⟩
    · exact Or.inr ⟨p, _, rfl, by simp only [noteApplied, waits, if_neg own], Or.inr ⟨own, rfl⟩⟩

omit [Machine μ] in
theorem alike_noteApplied (d : Driver κ μ) (e : Entry) :
    { d with applied := e.index }.Alike (d.noteApplied e) := by
  rcases d.noteApplied_cases e with ⟨-, h⟩ | ⟨p, o, -, h, -⟩ <;> rw [h] <;>
    exact ⟨rfl, rfl, rfl, rfl, rfl⟩

/-- An entry below the applied index does nothing; any other is noted as applied, and a command
is put through the machine before. -/
theorem apply_cases {d d' : Driver κ μ} {e : Entry} (h : d.apply e = .done d') :
    (e.index ≤ d.applied ∧ d' = d) ∨
      (d.applied < e.index ∧ ∃ machine, d' = ({ d with machine } : Driver κ μ).noteApplied e ∧
        if e.isCommand then d.machine.apply e.index e.data = .done machine
        else machine = d.machine) := by
  by_cases old : e.index ≤ d.applied
  · simp only [apply, if_pos old] at h
    cases h
    exact Or.inl ⟨old, rfl⟩
  · simp only [apply, if_neg old] at h
    refine Or.inr ⟨by omega, ?_⟩
    by_cases command : e.isCommand
    · simp only [if_pos command] at h
      cases done : d.machine.apply e.index e.data with
      | done machine =>
        rw [done] at h
        cases h
        exact ⟨machine, rfl, by rw [if_pos command]⟩
      | held => rw [done] at h; cases h
      | fault f => rw [done] at h; cases h
    · simp only [if_neg command] at h
      cases h
      exact ⟨d.machine, rfl, by rw [if_neg command]⟩

/-- What a driver becomes by a snapshot that its machine, restored, accepts. -/
def restored (d : Driver κ μ) (machine : Watched μ) (s : Snapshot) : Driver κ μ :=
  { d with
    machine
    shelf := {
      log := Log.reset s.index s.term
      stable := d.shelf.stable.restore s.index s.term s.membership
      snapshots := d.shelf.snapshots.insert s }
    applied := s.index
    lastSnapshot := s.index }

theorem restore_ok {d d' : Driver κ μ} {s : Snapshot} (h : d.restore s = .ok d') :
    ∃ machine, d.machine.restore s.data = .ok machine ∧ d' = d.restored machine s := by
  simp only [restore] at h
  cases hm : d.machine.restore s.data with
  | error f => rw [hm] at h; cases h
  | ok machine => rw [hm] at h; cases h; exact ⟨machine, rfl, rfl⟩

/-- A machine that refuses a snapshot is all that can have changed. -/
theorem restore_error {d : Driver κ μ} {s : Snapshot} {setback : Setback (Driver κ μ)}
    (h : d.restore s = .error setback) : ∃ machine,
      Machine.restore s.data d.machine.machine = .error { failure := setback, left := machine } ∧
      setback.left = { d with machine.machine := machine } := by
  simp only [restore, Watched.restore] at h
  cases hm : Machine.restore s.data d.machine.machine with
  | error refused => rw [hm] at h; cases h; exact ⟨refused.left, rfl, rfl⟩
  | ok machine => rw [hm] at h; cases h

omit [Machine μ] in
theorem append_error {d d' : Driver κ μ} {batch : List Entry} {f : Failure}
    (h : d.append batch = .error { failure := f, left := d' }) : d' = d := by
  simp only [append] at h
  split at h <;> cases h
  rfl

/-- A statement that fails changes a machine that refuses a snapshot, and nothing else. -/
theorem left_of_stopped [Core κ] [Carrier ω] {d d' : Driver κ μ} {w w' : ω} {a : Act} {f : Failure}
    (stop : d.perform w a = .stopped f (d', w')) :
    ∃ machine, d' = { d with machine.machine := machine } := by
  rcases (perform_stopped stop).2 with ⟨s, -, refused⟩ | ⟨batch, -, refused⟩
  · obtain ⟨machine, -, left⟩ := restore_error refused
    exact ⟨machine, left⟩
  · exact ⟨d.machine.machine, append_error refused⟩

section Restore

variable [Core κ] [Carrier ω] {d : Driver κ μ} {s : Snapshot}

theorem perform_restore_ok {machine : Watched μ}
    (restored : d.machine.restore s.data = .ok machine) (w : ω) :
    d.perform w (.restore s) = .done (d.restored machine s, w) := by
  simp only [perform, restore, restored]
  rfl

theorem perform_restore_error {f : Failure} {machine : μ}
    (refused : Machine.restore s.data d.machine.machine = .error { failure := f, left := machine })
    (w : ω) : d.perform w (.restore s) = .stopped f ({ d with machine.machine := machine }, w) := by
  simp only [perform, restore, Watched.restore, refused]
  rfl

end Restore

/-- The snapshot of what is applied, with the term there and the bytes of the machine. -/
def snapshotHere (d : Driver κ μ) (term : Nat) (data : Bytes) : Snapshot :=
  { index := d.applied, term, membership := d.shelf.stable.membership, data }

/-- What a driver becomes by storing a snapshot of its own. -/
def stored (d : Driver κ μ) (machine : Watched μ) (s : Snapshot) : Driver κ μ :=
  { d with
    machine
    shelf := { d.shelf with snapshots := d.shelf.snapshots.insert s }
    lastSnapshot := s.index }

/-- Taking a snapshot changes nothing but the machine that refuses it, or stores a snapshot of
what is applied and, unless that is refused, compacts the log behind it. -/
theorem takeSnapshot_cases (d : Driver κ μ) :
    (∃ machine, (machine = d.machine ∨ ∃ s, d.machine.snapshot = .error s ∧ machine = s.left) ∧
      d.takeSnapshot.2 = { d with machine }) ∨
      ∃ term data machine, d.lastSnapshot < d.applied ∧ d.shelf.log.term d.applied = .ok term ∧
        d.machine.snapshot = .ok (data, machine) ∧
        let d' := d.stored machine (d.snapshotHere term data)
        match d.shelf.log.compact (d.applied - d.settings.trailing + 1) with
        | .error _ => d.takeSnapshot.2 = d'
        | .ok log => d.takeSnapshot.2 = { d' with shelf := { d'.shelf with log } } := by
  by_cases old : d.applied = 0 ∨ d.applied ≤ d.lastSnapshot
  · exact Or.inl ⟨d.machine, Or.inl rfl, by simp only [takeSnapshot, if_pos old]⟩
  · simp only [takeSnapshot, if_neg old]
    cases ht : d.shelf.log.term d.applied with
    | error refusal => exact Or.inl ⟨d.machine, Or.inl rfl, rfl⟩
    | ok term =>
      cases hm : d.machine.snapshot with
      | error setback => exact Or.inl ⟨setback.left, Or.inr ⟨setback, rfl, rfl⟩, rfl⟩
      | ok taken =>
        obtain ⟨data, machine⟩ := taken
        refine Or.inr ⟨term, data, machine, by omega, rfl, rfl, ?_⟩
        cases d.shelf.log.compact (d.applied - d.settings.trailing + 1) with
        | error refused => rfl
        | ok log => rfl

theorem takeSnapshot_frame (d : Driver κ μ) :
    ∃ machine shelf lastSnapshot, d.takeSnapshot.2 = { d with machine, shelf, lastSnapshot } := by
  rcases d.takeSnapshot_cases with ⟨machine, -, same⟩ | ⟨term, data, machine, -, -, -, taken⟩
  · exact ⟨machine, d.shelf, d.lastSnapshot, same⟩
  · dsimp only at taken
    split at taken <;> exact ⟨_, _, _, taken⟩

theorem applied_takeSnapshot (d : Driver κ μ) : d.takeSnapshot.2.applied = d.applied := by
  obtain ⟨machine, shelf, lastSnapshot, frame⟩ := d.takeSnapshot_frame
  rw [frame]

/-- A snapshot is of what is applied. -/
theorem index_takeSnapshot {d : Driver κ μ} {i : Nat} (taken : d.takeSnapshot.1 = .ok i) :
    i = d.applied := by
  unfold takeSnapshot at taken
  split at taken
  · cases taken
  · split at taken
    · cases taken
    · split at taken
      · cases taken
      · dsimp only at taken
        split at taken <;> cases taken
        rfl

/-- Looking at the policy does nothing too early; else the time is noted, and a snapshot may be
taken. -/
theorem checkPolicy_cases (d : Driver κ μ) (now later : Nat) :
    d.checkPolicy now later = d ∨ d.checkPolicy now later = { d with lastCheck := later } ∨
      d.checkPolicy now later = ({ d with lastCheck := later } : Driver κ μ).takeSnapshot.2 := by
  simp only [checkPolicy]
  split
  · exact Or.inl rfl
  · split
    · exact Or.inr (Or.inl rfl)
    · exact Or.inr (Or.inr rfl)

theorem checkPolicy_frame (d : Driver κ μ) (now later : Nat) :
    ∃ machine shelf lastSnapshot lastCheck,
      d.checkPolicy now later = { d with machine, shelf, lastSnapshot, lastCheck } := by
  rcases d.checkPolicy_cases now later with early | noted | taken
  · exact ⟨d.machine, d.shelf, d.lastSnapshot, d.lastCheck, early⟩
  · exact ⟨d.machine, d.shelf, d.lastSnapshot, later, noted⟩
  · obtain ⟨machine, shelf, lastSnapshot, frame⟩ :=
      ({ d with lastCheck := later } : Driver κ μ).takeSnapshot_frame
    exact ⟨machine, shelf, lastSnapshot, later, taken.trans frame⟩

omit [Machine μ] in
theorem append_cases (d : Driver κ μ) (batch : List Entry) :
    (∃ log, d.shelf.log.append batch = .ok log ∧
      d.append batch = .ok { d with shelf := { d.shelf with log } }) ∨
    ∃ refused, d.shelf.log.append batch = .error refused ∧
      d.append batch = .error { failure := refused.failure, left := d } := by
  cases h : d.shelf.log.append batch with
  | ok log => exact Or.inl ⟨log, rfl, by simp only [append, h]⟩
  | error refused => exact Or.inr ⟨refused, rfl, by simp only [append, h]⟩

/-! ## What stays -/

/-- `d'` reaches its peers where `d` does, and shows an observer what `d` shows. -/
structure Kept (d d' : Driver κ μ) : Prop where
  addresses : d'.addresses = d.addresses
  published : d'.published = d.published

omit [Machine μ] in
theorem kept_enlist (d : Driver κ μ) (index : Nat) (p : Proposal) :
    d.Kept (d.enlist index p) := by
  simp only [enlist]
  split <;> exact ⟨rfl, rfl⟩

omit [Machine μ] in
theorem kept_noteApplied (d : Driver κ μ) (e : Entry) : d.Kept (d.noteApplied e) := by
  rcases d.noteApplied_cases e with ⟨-, noted⟩ | ⟨p, o, -, noted, -⟩ <;> rw [noted] <;>
    exact ⟨rfl, rfl⟩

theorem kept_takeSnapshot (d : Driver κ μ) : d.Kept d.takeSnapshot.2 := by
  obtain ⟨machine, shelf, lastSnapshot, frame⟩ := d.takeSnapshot_frame
  rw [frame]
  exact ⟨rfl, rfl⟩

variable [Core κ] {d d' : Driver κ μ}

theorem handle_snapshot (d : Driver κ μ) (ticket : Nat) : d.handle (.snapshot ticket) =
    .ok (d.takeSnapshot.2.answer ticket (d.takeSnapshot.1.map .index)) := rfl

theorem kept_handle {c : Command} (h : d.handle c = .ok d') : d.Kept d' := by
  cases c with
  | propose ticket data =>
    rcases propose_cases h with ⟨-, _, rfl⟩ | ⟨-, _, core, -, rfl⟩ | ⟨-, core, -, rfl⟩
    · exact ⟨rfl, rfl⟩
    · exact ⟨rfl, rfl⟩
    · have kept := kept_enlist { d with core } (Core.lastIndex core d.shelf)
        { term := Core.term core, ticket }
      exact ⟨kept.addresses, kept.published⟩
  | snapshot ticket =>
    rw [handle_snapshot] at h
    cases h
    exact ⟨d.kept_takeSnapshot.addresses, d.kept_takeSnapshot.published⟩
  | membership ticket | stop =>
    cases h
    exact ⟨rfl, rfl⟩

variable [Carrier ω] {w w' : ω} {a : Act}

theorem frame_of_plain (plain : a.Plain) (h : d.perform w a = .done (d', w')) :
    ∃ core machine shelf applied lastSnapshot lastCheck nextTick published,
      d' = { d with
        core, machine, shelf, applied, lastSnapshot, lastCheck, nextTick, published } ∧
      (a ≠ .publish → published = d.published) := by
  cases a with
  | receive | tick | send | settle =>
    obtain ⟨core, nextTick, rfl⟩ := frame_of_inner (by trivial) h
    exact ⟨core, d.machine, d.shelf, d.applied, d.lastSnapshot, d.lastCheck, nextTick,
      d.published, rfl, fun _ => rfl⟩
  | policy now later =>
    cases h
    obtain ⟨machine, shelf, lastSnapshot, lastCheck, frame⟩ := d.checkPolicy_frame now later
    exact ⟨d.core, machine, shelf, d.applied, lastSnapshot, lastCheck, d.nextTick, d.published,
      frame, fun _ => rfl⟩
  | restore s =>
    obtain ⟨_, restored, same⟩ := Effect.map_ofSetback_done h
    cases same
    obtain ⟨machine, -, rfl⟩ := restore_ok restored
    exact ⟨_, _, _, _, _, _, _, _, rfl, fun _ => rfl⟩
  | append batch =>
    obtain ⟨_, appended, same⟩ := Effect.map_ofSetback_done h
    cases same
    rcases append_cases d batch with ⟨log, -, taken⟩ | ⟨_, -, refused⟩
    · rw [taken] at appended
      cases appended
      exact ⟨_, _, _, _, _, _, _, _, rfl, fun _ => rfl⟩
    · rw [refused] at appended
      cases appended
  | setHardState | setCommit =>
    cases h
    exact ⟨_, _, _, _, _, _, _, _, rfl, fun _ => rfl⟩
  | publish =>
    cases h
    exact ⟨_, _, _, _, _, _, _, _, rfl, fun other => absurd rfl other⟩
  | handle | apply | observe => exact absurd plain not_false

/-- Nothing is shown but by publishing. -/
theorem kept_perform (other : a ≠ .publish) (h : d.perform w a = .done (d', w')) : d.Kept d' := by
  cases a with
  | handle c =>
    obtain ⟨_, handled, same⟩ := Effect.map_ofFault_done h
    cases same
    exact kept_handle handled
  | apply e =>
    obtain ⟨_, applied, same⟩ := Effect.map_ofApplied_done h
    cases same
    rcases apply_cases applied with ⟨-, rfl⟩ | ⟨-, machine, rfl, -⟩
    · exact ⟨rfl, rfl⟩
    · have kept := kept_noteApplied { d with machine } e
      exact ⟨kept.addresses, kept.published⟩
  | observe =>
    cases h
    rcases d.observeRole_cases with ⟨-, same⟩ | ⟨-, -, same⟩ | ⟨-, -, same⟩ <;> rw [same] <;>
      exact ⟨rfl, rfl⟩
  | receive | tick | policy | send | restore | append | setHardState | setCommit | settle
  | publish =>
    obtain ⟨_, _, _, _, _, _, _, _, rfl, same⟩ := frame_of_plain (by trivial) h
    exact ⟨rfl, same other⟩

/-- Whatever a driver does, it knows its peers by the addresses it was started with. -/
theorem addresses_perform (h : d.perform w a = .done (d', w')) : d'.addresses = d.addresses := by
  by_cases publishes : a = .publish
  · subst publishes
    cases h
    rfl
  · exact (kept_perform publishes h).addresses

/-- An entry is applied only beyond what was; a snapshot may be of any index. -/
theorem applied_perform (done : d.perform w a = .done (d', w')) :
    d'.applied = d.applied ∨ (∃ x, a = .apply x ∧ d.applied < d'.applied) ∨
      ∃ s, a = .restore s ∧ d'.applied = s.index := by
  cases a with
  | apply x =>
    obtain ⟨_, ha, he⟩ := Effect.map_ofApplied_done done
    cases he
    rcases apply_cases ha with ⟨-, rfl⟩ | ⟨new, machine, rfl, -⟩
    · exact Or.inl rfl
    · have applied := (alike_noteApplied { d with machine } x).applied
      exact Or.inr (Or.inl ⟨x, rfl, applied ▸ new⟩)
  | restore s =>
    obtain ⟨_, hr, he⟩ := Effect.map_ofSetback_done done
    cases he
    obtain ⟨machine, -, rfl⟩ := restore_ok hr
    exact Or.inr (Or.inr ⟨s, rfl, rfl⟩)
  | append batch =>
    obtain ⟨_, ha, he⟩ := Effect.map_ofSetback_done done
    cases he
    rcases append_cases d batch with ⟨log, -, taken⟩ | ⟨_, -, refused⟩
    · rw [taken] at ha
      cases ha
      exact Or.inl rfl
    · rw [refused] at ha
      cases ha
  | policy now later =>
    cases done
    obtain ⟨machine, shelf, lastSnapshot, lastCheck, frame⟩ := d.checkPolicy_frame now later
    exact Or.inl (by rw [frame])
  | handle c =>
    cases c with
    | snapshot n =>
      rw [perform, handle_snapshot] at done
      cases done
      exact Or.inl d.applied_takeSnapshot
    | propose | membership | stop => exact Or.inl (alike_of_quiet (by trivial) done).applied
  | setHardState | setCommit =>
    cases done
    exact Or.inl rfl
  | receive | tick | send | settle | observe | publish =>
    exact Or.inl (alike_of_quiet (by trivial) done).applied

/-- So what is applied never goes back, if no snapshot does. -/
theorem applied_le_perform (ahead : ∀ s, a = .restore s → d.applied < s.index)
    (done : d.perform w a = .done (d', w')) : d.applied ≤ d'.applied := by
  rcases applied_perform done with same | ⟨x, -, above⟩ | ⟨s, restored, there⟩
  · exact Nat.le_of_eq same.symm
  · exact Nat.le_of_lt above
  · have := ahead s restored
    omega

end Driver

/-! ## Lists of statements -/

section Lists

variable {κ μ : Type} (ω : Type) [Core κ] [Machine μ] [Carrier ω]
variable {A S E : Driver κ μ → Prop} {acts rest : List Act} {d : Driver κ μ}

/-- Whatever the network does, the statements can be worked off from `d` such that `always`
holds before and after each of them, `atStop` where a failure has ended the driver, and `atEnd`
once all are done. -/
def Secures (always atStop atEnd : Driver κ μ → Prop) : List Act → Driver κ μ → Prop
  | [], d => always d ∧ atEnd d
  | a :: rest, d => always d ∧ ∀ w : ω,
      (∀ d' w', d.perform w a = .done (d', w') → Secures always atStop atEnd rest d') ∧
        ∀ f d' w', d.perform w a = .stopped f (d', w') → always d' ∧ atStop d'

variable {ω}

theorem Secures.always (h : Secures ω A S E acts d) : A d := by
  cases acts with
  | nil => exact h.1
  | cons a rest => exact h.1

theorem Secures.trans {E' : Driver κ μ → Prop} (h : Secures ω A S E acts d)
    (after : ∀ d', E d' → Secures ω A S E' rest d') : Secures ω A S E' (acts ++ rest) d := by
  induction acts generalizing d with
  | nil => exact after d h.2
  | cons a acts ih =>
    constructor
    · exact h.1
    · intro w
      refine ⟨?_, (h.2 w).2⟩
      intro d' w' done
      exact ih ((h.2 w).1 d' w' done)

theorem secures_quiet (quiet : ∀ a ∈ acts, a.Quiet) (always : ∀ d', d.Alike d' → A d')
    (after : ∀ d', d.Alike d' → Secures ω A S E rest d') :
    Secures ω A S E (acts ++ rest) d := by
  induction acts generalizing d with
  | nil => exact after d (.refl d)
  | cons a acts ih =>
    have ha := quiet a List.mem_cons_self
    refine ⟨always d (.refl d), ?_⟩
    intro w
    constructor
    · intro d' w' h
      have alike := Driver.alike_of_quiet ha h
      exact ih (fun b hb => quiet b (List.mem_cons_of_mem a hb))
        (fun _ k => always _ (alike.trans k)) (fun _ k => after _ (alike.trans k))
    · intro f d' w' h
      rcases (Driver.perform_stopped h).2 with ⟨s, rfl, _⟩ | ⟨batch, rfl, _⟩
      · exact absurd ha not_false
      · exact absurd ha not_false

theorem secures_restore {s : Snapshot} (always : A d)
    (refused : ∀ setback, d.restore s = .error setback → A setback.left ∧ S setback.left)
    (after : ∀ d', d.restore s = .ok d' → Secures ω A S E rest d') :
    Secures ω A S E (.restore s :: rest) d := by
  refine ⟨always, ?_⟩
  intro w
  constructor
  · intro d' w' h
    obtain ⟨_, hr, he⟩ := Effect.map_ofSetback_done h
    cases he
    exact after _ hr
  · intro f d' w' h
    obtain ⟨_, hr, he⟩ := Effect.map_ofSetback_stopped h
    cases he
    exact refused _ hr

theorem secures_apply {e : Entry} (always : A d)
    (after : ∀ d', d.apply e = .done d' → Secures ω A S E rest d') :
    Secures ω A S E (.apply e :: rest) d := by
  refine ⟨always, ?_⟩
  intro w
  constructor
  · intro d' w' h
    obtain ⟨_, ha, he⟩ := Effect.map_ofApplied_done h
    cases he
    exact after _ ha
  · intro _ _ _ h
    exact absurd h Effect.map_ofApplied_not_stopped

/-- Applying entries: `J` speaks of those that are left. -/
theorem secures_applies {J : List Entry → Driver κ μ → Prop} {batch : List Entry}
    (holds : J batch d) (always : ∀ es d, J es d → A d)
    (apply : ∀ e es d d', J (e :: es) d → d.apply e = .done d' → J es d')
    (after : ∀ d', J [] d' → Secures ω A S E rest d') :
    Secures ω A S E (batch.map .apply ++ rest) d := by
  induction batch generalizing d with
  | nil => exact after d holds
  | cons e batch ih =>
    apply secures_apply (always _ d holds)
    intro d' done
    exact ih (apply e batch d d' holds done)

theorem secures_append {batch : List Entry} (always : A d)
    (refused : ∀ s, d.append batch = .error s → S d)
    (after : ∀ d', d.append batch = .ok d' → Secures ω A S E rest d') :
    Secures ω A S E (.append batch :: rest) d := by
  refine ⟨always, ?_⟩
  intro w
  constructor
  · intro d' w' h
    obtain ⟨_, ha, he⟩ := Effect.map_ofSetback_done h
    cases he
    exact after _ ha
  · intro f d' w' h
    obtain ⟨_, ha, he⟩ := Effect.map_ofSetback_stopped h
    cases he
    obtain rfl := Driver.append_error ha
    exact ⟨always, refused _ ha⟩

theorem secures_setHardState {hard : HardState} (always : A d)
    (after : Secures ω A S E rest (d.setStable (·.setHardState hard))) :
    Secures ω A S E (.setHardState hard :: rest) d := by
  refine ⟨always, ?_⟩
  intro w
  constructor
  · intro d' w' h
    cases h
    exact after
  · intro _ _ _ h
    cases h

theorem secures_setCommit {commit : Nat} (always : A d)
    (after : Secures ω A S E rest (d.setStable (·.setCommit commit))) :
    Secures ω A S E (.setCommit commit :: rest) d := by
  refine ⟨always, ?_⟩
  intro w
  constructor
  · intro d' w' h
    cases h
    exact after
  · intro _ _ _ h
    cases h

theorem secures_sends {messages : List Message} (always : ∀ d', d.Alike d' → A d')
    (after : ∀ d', d.Alike d' → Secures ω A S E rest d') :
    Secures ω A S E (messages.map .send ++ rest) d := by
  refine secures_quiet ?_ always after
  intro a ha
  obtain ⟨m, _, rfl⟩ := List.mem_map.mp ha
  trivial

/-- A round: `I` holds at its beginning, `J` while its entries are applied, `K` once the new
ones are stored. -/
theorem secures_round {I K : Driver κ μ → Prop} {J : List Entry → Driver κ μ → Prop} {r : Ready}
    (always : (∀ d, I d → A d) ∧ (∀ es d, J es d → A d) ∧ (∀ d, K d → A d) ∧ ∀ d, E d → A d)
    (alike : ∀ d d', d.Alike d' → (I d → I d') ∧ (E d → E d'))
    (start : I d)
    (keep : ∀ d, r.snapshot = none → I d → J r.committed d)
    (restore : ∀ s d, r.snapshot = some s → I d →
      (∀ setback, d.restore s = .error setback → A setback.left ∧ S setback.left) ∧
        ∀ d', d.restore s = .ok d' → J r.committed d')
    (apply : ∀ e es d d', J (e :: es) d → d.apply e = .done d' → J es d')
    (nothing : ∀ d, r.entries = [] → J [] d → K d)
    (append : ∀ d, r.entries ≠ [] → J [] d → (∀ s, d.append r.entries = .error s → S d) ∧
      ∀ d', d.append r.entries = .ok d' → K d')
    (same : ∀ d, r.hard = none → K d → E d)
    (hard : ∀ h d, r.hard = some h → K d → E (d.setStable (·.setHardState h))) :
    Secures ω A S E r.acts d := by
  obtain ⟨alwaysI, alwaysJ, alwaysK, alwaysE⟩ := always
  have held : ∀ d, E d → Secures ω A S E (r.heldMessages.map .send) d := by
    intro d h
    rw [← List.append_nil (r.heldMessages.map Act.send)]
    exact secures_sends (fun d' k => alwaysE d' ((alike d d' k).2 h))
      fun d' k => ⟨alwaysE d' ((alike d d' k).2 h), (alike d d' k).2 h⟩
  have stored : ∀ d, K d → Secures ω A S E
      ((r.hard.map Act.setHardState).toList ++ r.heldMessages.map .send) d := by
    intro d h
    cases hr : r.hard with
    | none => exact held d (same d hr h)
    | some hs => exact secures_setHardState (alwaysK d h) (held _ (hard hs d hr h))
  have appended : ∀ d, J [] d → Secures ω A S E
      ((if r.entries.isEmpty then [] else [.append r.entries]) ++
        ((r.hard.map Act.setHardState).toList ++ r.heldMessages.map .send)) d := by
    intro d h
    cases he : r.entries.isEmpty with
    | true => exact stored d (nothing d (List.isEmpty_iff.mp he) h)
    | false =>
      have new : r.entries ≠ [] := fun none => by simp [none] at he
      obtain ⟨refused, taken⟩ := append d new h
      exact secures_append (alwaysJ _ d h) refused fun d' done => stored d' (taken d' done)
  have applied : ∀ d, J r.committed d → Secures ω A S E
      (r.committed.map .apply ++ ((if r.entries.isEmpty then [] else [.append r.entries]) ++
        ((r.hard.map Act.setHardState).toList ++ r.heldMessages.map .send))) d :=
    fun d h => secures_applies h alwaysJ apply appended
  simp only [Ready.acts, List.append_assoc]
  have kept : ∀ d', d.Alike d' → I d' := by
    intro d' k
    exact (alike d d' k).1 start
  apply secures_sends (fun d' k => alwaysI d' (kept d' k))
  intro d' k
  have begun := kept d' k
  cases hs : r.snapshot with
  | none => exact applied d' (keep d' hs begun)
  | some s =>
    obtain ⟨refused, taken⟩ := restore s d' hs begun
    exact secures_restore (alwaysI d' begun) refused fun d'' done => applied d'' (taken d'' done)

/-- What follows a round: `I` holds once its commit index is stored, `J` while its entries are
applied. -/
theorem secures_followup {I : Driver κ μ → Prop} {J : List Entry → Driver κ μ → Prop}
    {f : Followup} (always : (∀ d, I d → A d) ∧ (∀ es d, J es d → A d) ∧ ∀ d, E d → A d)
    (alike : ∀ d d', d.Alike d' → (I d → I d') ∧ (E d → E d'))
    (before : A d)
    (same : f.commit = none → I d)
    (commit : ∀ c, f.commit = some c → I (d.setStable (·.setCommit c)))
    (begin : ∀ d, I d → J f.committed d)
    (apply : ∀ e es d d', J (e :: es) d → d.apply e = .done d' → J es d')
    (done : ∀ d, J [] d → E d) :
    Secures ω A S E f.acts d := by
  obtain ⟨alwaysI, alwaysJ, alwaysE⟩ := always
  have settled : ∀ d, J [] d → Secures ω A S E ([.settle] ++ []) d := by
    intro d h
    refine secures_quiet ?_ (fun d' k => alwaysE d' ((alike d d' k).2 (done d h)))
      fun d' k => ⟨alwaysE d' ((alike d d' k).2 (done d h)), (alike d d' k).2 (done d h)⟩
    intro a ha
    obtain rfl := List.mem_singleton.mp ha
    trivial
  have sent : ∀ d, I d → Secures ω A S E
      (f.messages.map .send ++ (f.committed.map .apply ++ [.settle])) d := by
    intro d h
    apply secures_sends (fun d' k => alwaysI d' ((alike d d' k).1 h))
    intro d' k
    exact secures_applies (begin d' ((alike d d' k).1 h)) alwaysJ apply settled
  simp only [Followup.acts, List.append_assoc]
  cases hc : f.commit with
  | none => exact sent d (same hc)
  | some c => exact secures_setCommit before (sent _ (commit c hc))

end Lists

end QuorumLab
