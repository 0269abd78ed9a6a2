import Mathlib.Tactic.MkIffOfInductiveProp
import QuorumLab.Proofs.Engine.Upholds
import QuorumLab.Proofs.Machine.Codec
import QuorumLab.Proofs.Store.Indexed

/-!
# What a machine holds of the agreed log

All nodes apply the entries of one agreed log. A recorder that began at index `base` holds
the commands from there on, until it is restored from a snapshot: then it holds them all.
-/

namespace QuorumLab

/-- The commands of a log at the indexes `low + 1, …, high`, in order. -/
def commandsIn (agreed : Nat → Entry) (low high : Nat) : List Bytes :=
  (((List.range' (low + 1) (high - low)).map agreed).filter Entry.isCommand).map Entry.data

section Commands

variable {agreed : Nat → Entry} {low mid high : Nat}

theorem commandsIn_self : commandsIn agreed low low = [] := by
  simp [commandsIn]

theorem commandsIn_append (h : low ≤ mid) (k : mid ≤ high) :
    commandsIn agreed low mid ++ commandsIn agreed mid high = commandsIn agreed low high := by
  have length : high - low = (mid - low) + (high - mid) := by omega
  have place : low + 1 + 1 * (mid - low) = mid + 1 := by omega
  simp only [commandsIn, length, ← List.range'_append, place, List.map_append, List.filter_append]

theorem commandsIn_succ (h : low ≤ high) :
    commandsIn agreed low (high + 1) = commandsIn agreed low high ++
      if (agreed (high + 1)).isCommand then [(agreed (high + 1)).data] else [] := by
  rw [← commandsIn_append h (Nat.le_succ high)]
  congr 1
  have one : high + 1 - high = 1 := by omega
  simp only [commandsIn, one, List.range'_one, List.map_cons, List.map_nil]
  by_cases command : (agreed (high + 1)).isCommand <;> simp [command]

theorem commandsIn_grows (h : low ≤ mid) (k : mid ≤ high) :
    commandsIn agreed low mid <+: commandsIn agreed low high :=
  ⟨_, commandsIn_append h k⟩

theorem length_commandsIn_le (agreed : Nat → Entry) (low high : Nat) :
    (commandsIn agreed low high).length ≤ high - low := by
  rw [commandsIn, List.length_map]
  refine Nat.le_trans (List.length_filter_le _ _) ?_
  simp

end Commands

/-- An entry that is agreed on, whose numbers are words. -/
@[mk_iff]
structure Entry.Agrees (agreed : Nat → Entry) (e : Entry) : Prop where
  same : agreed e.index = e
  index : e.index ≤ maxWord
  length : e.data.length ≤ maxWord

instance (agreed : Nat → Entry) (e : Entry) : Decidable (e.Agrees agreed) :=
  decidable_of_iff _ (e.agrees_iff agreed).symm

/-- A snapshot that was taken of everything up to its index. -/
@[mk_iff]
structure Snapshot.Faithful (agreed : Nat → Entry) (s : Snapshot) : Prop where
  content : ∃ r ∈ Recorder.decode s.data,
    r.commands = commandsIn agreed 0 s.index ∧ r.lastIndex ≤ s.index
  index : s.index ≤ maxWord
  lengths : ∀ c ∈ commandsIn agreed 0 s.index, c.length ≤ maxWord

instance (agreed : Nat → Entry) (s : Snapshot) : Decidable (s.Faithful agreed) :=
  decidable_of_iff _ (s.faithful_iff agreed).symm

/-- A round hands out agreed entries one after the other, from what is applied or from where a
snapshot ends. The snapshot is a sound one and ahead of what is applied. -/
@[mk_iff]
structure Ready.Continues (agreed : Nat → Entry) (sound : Snapshot → Prop) (applied : Nat)
    (r : Ready) : Prop where
  snapshot : ∀ s ∈ r.snapshot, sound s ∧ applied < s.index
  committed : Consecutive ((r.snapshot.map Snapshot.index).getD applied + 1) r.committed
  agrees : ∀ e ∈ r.committed, e.Agrees agreed

instance (agreed : Nat → Entry) (sound : Snapshot → Prop) [DecidablePred sound] (applied : Nat)
    (r : Ready) : Decidable (r.Continues agreed sound applied) :=
  decidable_of_iff _ (r.continues_iff agreed sound applied).symm

/-- So does what follows a round. -/
@[mk_iff]
structure Followup.Continues (agreed : Nat → Entry) (applied : Nat) (f : Followup) : Prop where
  committed : Consecutive (applied + 1) f.committed
  agrees : ∀ e ∈ f.committed, e.Agrees agreed

instance (agreed : Nat → Entry) (applied : Nat) (f : Followup) :
    Decidable (f.Continues agreed applied) :=
  decidable_of_iff _ (f.continues_iff agreed applied).symm

/-- The protocol hands out the agreed log and sound snapshots. -/
def replay (κ μ : Type) (agreed : Nat → Entry) (sound : Snapshot → Prop) :
    Contract κ μ Unit where
  round _ d := Ready.Continues agreed sound d.applied
  noteRound _ _ := ()
  followup _ d := Followup.Continues agreed d.applied
  noteFollowup _ _ := ()

instance (κ μ : Type) (agreed : Nat → Entry) (sound : Snapshot → Prop) [DecidablePred sound]
    (g : Unit) (d : Driver κ μ) (r : Ready) :
    Decidable ((replay κ μ agreed sound).round g d r) :=
  inferInstanceAs (Decidable (r.Continues _ _ _))

instance (κ μ : Type) (agreed : Nat → Entry) (sound : Snapshot → Prop) (g : Unit)
    (d : Driver κ μ) (f : Followup) : Decidable ((replay κ μ agreed sound).followup g d f) :=
  inferInstanceAs (Decidable (f.Continues _ _))

/-- What holds of every sound snapshot may be assumed of those that are handed out. -/
theorem replay_mono {κ μ ω : Type} [Core κ] {agreed : Nat → Entry}
    {sound sound' : Snapshot → Prop} (weaker : ∀ s, sound s → sound' s) {e : Engine κ μ}
    {v : Event ω} (h : (replay κ μ agreed sound).Admits () e v) :
    (replay κ μ agreed sound').Admits () e v := by
  cases v with
  | statement =>
    refine ⟨?_, h.2⟩
    intro r hr
    obtain ⟨snapshot, committed, agrees⟩ := h.1 r hr
    exact ⟨fun s hs => ⟨weaker s (snapshot s hs).1, (snapshot s hs).2⟩, committed, agrees⟩
  | _ => trivial

/-- From where on a machine that began at `base` has been given commands. -/
def Watched.origin (base : Nat) (m : Watched Recorder) : Nat :=
  if m.counters.restores = 0 then base else 0

/-- A machine that began empty at `base`, what has been applied since, and the snapshot that is
stored. -/
structure Tracks (agreed : Nat → Entry) (base : Nat) (m : Watched Recorder) (applied : Nat)
    (stored : Option Snapshot) : Prop where
  commands : m.machine.commands = commandsIn agreed (m.origin base) applied
  origin_le : m.origin base ≤ applied
  lastIndex_le : m.machine.lastIndex ≤ applied
  applied_le : applied ≤ maxWord
  lengths : ∀ c ∈ m.machine.commands, c.length ≤ maxWord
  stored_le : ∀ s ∈ stored, s.index ≤ applied
  faithful : base = 0 → ∀ s ∈ stored, s.Faithful agreed

namespace Tracks

variable {agreed : Nat → Entry} {base applied : Nat} {m : Watched Recorder}
variable {stored : Option Snapshot}

theorem fits (h : Tracks agreed base m applied stored) : m.machine.Fits where
  lastIndex := Nat.le_trans h.lastIndex_le h.applied_le
  count := by
    have length := length_commandsIn_le agreed (m.origin base) applied
    have bound := h.applied_le
    rw [h.commands]
    omega
  lengths := h.lengths

theorem snapshot {s : Snapshot} {m' : Watched Recorder} (h : Tracks agreed base m applied stored)
    (index : s.index = applied) (taken : m.snapshot = .ok (s.data, m')) :
    Tracks agreed base m' applied (some s) := by
  obtain ⟨data, rfl⟩ := Prod.mk.inj (Except.ok.inj taken)
  refine ⟨h.commands, h.origin_le, h.lastIndex_le, h.applied_le, h.lengths, ?_, ?_⟩
  · intro t ht
    cases ht
    exact Nat.le_of_eq index
  · rintro rfl t ht
    cases ht
    have whole : m.origin 0 = 0 := by simp [Watched.origin]
    have commands := whole ▸ h.commands
    have content : Recorder.decode s.data = some m.machine :=
      data ▸ Recorder.decode_encode h.fits
    rw [← index] at commands
    exact ⟨⟨m.machine, content, commands, index ▸ h.lastIndex_le⟩, index ▸ h.applied_le,
      commands ▸ h.lengths⟩

theorem skip {e : Entry} (h : Tracks agreed base m applied stored) (next : e.index = applied + 1)
    (agrees : e.Agrees agreed) (other : e.isCommand = false) :
    Tracks agreed base m e.index stored where
  commands := by
    have same : agreed (applied + 1) = e := next ▸ agrees.same
    rw [h.commands, next, commandsIn_succ h.origin_le, same, other]
    simp
  origin_le := by have := h.origin_le; omega
  lastIndex_le := by have := h.lastIndex_le; omega
  applied_le := agrees.index
  lengths := h.lengths
  stored_le := fun s hs => by have := h.stored_le s hs; omega
  faithful := h.faithful

theorem apply {e : Entry} {m' : Watched Recorder} (h : Tracks agreed base m applied stored)
    (next : e.index = applied + 1) (agrees : e.Agrees agreed) (command : e.isCommand = true)
    (done : m.apply e.index e.data = .done m') : Tracks agreed base m' e.index stored := by
  cases done
  constructor
  · have same : agreed (applied + 1) = e := next ▸ agrees.same
    change m.machine.commands ++ [e.data] = commandsIn agreed (m.origin base) e.index
    rw [h.commands, next, commandsIn_succ h.origin_le, same, command]
    rfl
  · have := h.origin_le
    change m.origin base ≤ e.index
    omega
  · exact Nat.le_refl e.index
  · exact agrees.index
  · intro c hc
    rcases List.mem_append.mp hc with old | new
    · exact h.lengths c old
    · obtain rfl := List.mem_singleton.mp new
      exact agrees.length
  · intro s hs
    have := h.stored_le s hs
    omega
  · exact h.faithful

theorem restore {s : Snapshot} {m' : Watched Recorder} (sound : s.Faithful agreed)
    (done : m.restore s.data = .ok m') : Tracks agreed base m' s.index (some s) := by
  obtain ⟨r, content, commands, last_le⟩ := sound.content
  simp only [Watched.restore, Machine.restore, Recorder.restore, Option.mem_def.mp content] at done
  cases done
  have origin : ∀ c : Recorder, Watched.origin base
      { machine := c, counters := { m.counters with restores := m.counters.restores + 1 } } = 0 :=
    fun _ => by simp [Watched.origin]
  constructor
  · rw [origin]
    exact commands
  · rw [origin]
    exact Nat.zero_le s.index
  · exact last_le
  · exact sound.index
  · intro c hc
    exact sound.lengths c (commands ▸ hc)
  · intro t ht
    cases ht
    exact Nat.le_refl s.index
  · intro _ t ht
    cases ht
    exact sound

end Tracks

namespace Driver

variable {κ : Type} {d d' : Driver κ Recorder} {agreed : Nat → Entry} {base : Nat}

def Tracks (agreed : Nat → Entry) (base : Nat) (d : Driver κ Recorder) : Prop :=
  QuorumLab.Tracks agreed base d.machine d.applied d.shelf.snapshots.latest

theorem Tracks.alike (k : d.Alike d') (h : d.Tracks agreed base) : d'.Tracks agreed base := by
  rw [Tracks, k.machine, k.applied, k.shelf]
  exact h

/-- A machine that starts empty tracks the log from the snapshot that its node has stored. -/
theorem tracks_driverOf {settings : Settings} {core : κ} {peers : Directory} {now : Nat}
    [Core κ] (shelf : Shelf) (sound : ∀ s ∈ shelf.snapshots.latest, s.Faithful agreed) :
    (Engine.driverOf settings core {} shelf peers now).Tracks agreed shelf.snapshots.index where
  commands := commandsIn_self.symm
  origin_le := Nat.le_refl shelf.snapshots.index
  lastIndex_le := Nat.zero_le _
  applied_le := by
    change shelf.snapshots.index ≤ maxWord
    cases hl : shelf.snapshots.latest with
    | none => simp [Snapshots.index, hl]
    | some s => simpa [Snapshots.index, hl] using (sound s hl).index
  lengths := fun c hc => by cases hc
  stored_le := by
    intro s hs
    have latest : shelf.snapshots.latest = some s := hs
    change s.index ≤ shelf.snapshots.index
    rw [Snapshots.index, latest]
    exact Nat.le_refl s.index
  faithful := fun _ => sound

theorem Tracks.takeSnapshot (h : d.Tracks agreed base) :
    d.takeSnapshot.2.Tracks agreed base := by
  rcases d.takeSnapshot_cases with ⟨machine, same | ⟨s, refused, rfl⟩, left⟩ |
    ⟨term, data, machine, new, -, taken, after⟩
  · rw [left, same]
    exact h
  · rw [left, Watched.left_of_snapshot_error refused]
    exact h
  · have kept : QuorumLab.Tracks agreed base machine d.applied
        (d.shelf.snapshots.insert (d.snapshotHere term data)).latest := by
      rw [Snapshots.insert_of_le h.stored_le]
      exact QuorumLab.Tracks.snapshot h rfl taken
    dsimp only at after
    split at after <;> rw [after] <;> exact kept

/-- A driver with entries left to apply. -/
structure Applying (agreed : Nat → Entry) (base : Nat) (es : List Entry)
    (d : Driver κ Recorder) : Prop where
  tracks : d.Tracks agreed base
  run : Consecutive (d.applied + 1) es
  agrees : ∀ e ∈ es, e.Agrees agreed

theorem Applying.apply {e : Entry} {es : List Entry} (h : d.Applying agreed base (e :: es))
    (done : d.apply e = .done d') : d'.Applying agreed base es := by
  obtain ⟨next, run⟩ := h.run
  have agrees := h.agrees e List.mem_cons_self
  rcases apply_cases done with ⟨old, -⟩ | ⟨-, machine, rfl, given⟩
  · omega
  · have k := alike_noteApplied { d with machine } e
    refine ⟨.alike k ?_, ?_, ?_⟩
    · cases command : e.isCommand with
      | true =>
        rw [command, if_pos rfl] at given
        exact QuorumLab.Tracks.apply h.tracks next agrees command given
      | false =>
        rw [command, if_neg (by simp)] at given
        obtain rfl := given
        exact QuorumLab.Tracks.skip h.tracks next agrees command
    · rw [k.applied]
      change Consecutive (e.index + 1) es
      rwa [next]
    · intro x hx
      exact h.agrees x (List.mem_cons_of_mem e hx)

theorem Tracks.restore {s : Snapshot} (h : d.Tracks agreed base) (sound : s.Faithful agreed)
    (ahead : d.applied < s.index) (done : d.restore s = .ok d') :
    d'.Tracks agreed base ∧ d'.applied = s.index := by
  obtain ⟨machine, restored, rfl⟩ := restore_ok done
  have older : ∀ held ∈ d.shelf.snapshots.latest, held.index ≤ s.index := by
    intro held hl
    have := h.stored_le held hl
    omega
  refine ⟨?_, rfl⟩
  change QuorumLab.Tracks agreed base machine s.index (d.shelf.snapshots.insert s).latest
  rw [Snapshots.insert_of_le older]
  exact .restore sound restored

theorem upholds_tracks (κ ω : Type) [Core κ] [Carrier ω] (agreed : Nat → Entry) (base : Nat) :
    Upholds ω (replay κ Recorder agreed (Snapshot.Faithful agreed)) (Tracks agreed base)
      (Tracks agreed base) fun _ => Tracks agreed base where
  always h := h
  atStop h := h
  alike := Tracks.alike
  alike_always := Tracks.alike
  alike_atStop := Tracks.alike
  snapshot := Tracks.takeSnapshot
  round {_ d r} core h given := by
    apply secures_round
      (I := fun d => d.Tracks agreed base ∧ r.Continues agreed (Snapshot.Faithful agreed) d.applied)
      (J := Applying agreed base) (K := Tracks agreed base)
    case always => exact ⟨fun _ h => h.1, fun _ _ h => h.tracks, fun _ h => h, fun _ h => h⟩
    case alike => exact fun d d' k => ⟨fun h => ⟨h.1.alike k, k.applied ▸ h.2⟩, Tracks.alike k⟩
    case start => exact ⟨Tracks.alike (d := d) ⟨rfl, rfl, rfl, rfl, rfl⟩ h, given⟩
    case keep =>
      intro d whole ⟨h, given⟩
      have run := given.committed
      rw [whole] at run
      exact ⟨h, run, given.agrees⟩
    case restore =>
      intro s d offered ⟨h, given⟩
      constructor
      · intro setback refused
        obtain ⟨machine, unread, left⟩ := restore_error refused
        rw [left, show machine = d.machine.machine from LawfulMachine.restore_error unread]
        exact ⟨h, h⟩
      intro d' done
      obtain ⟨sound, ahead⟩ := given.snapshot s offered
      obtain ⟨tracks, applied⟩ := h.restore sound ahead done
      have run := given.committed
      rw [offered] at run
      exact ⟨tracks, applied ▸ run, given.agrees⟩
    case apply => exact fun e es d d' h done => h.apply done
    case nothing => exact fun d _ h => h.tracks
    case append =>
      intro d _ h
      refine ⟨fun _ _ => h.tracks, ?_⟩
      intro d' done
      rcases append_cases d r.entries with ⟨log, -, taken⟩ | ⟨_, -, refused⟩
      · rw [taken] at done
        cases done
        exact h.tracks
      · rw [refused] at done
        cases done
    case same => exact fun d _ h => h
    case hard => exact fun hs d _ h => h
  followup {_ d f} core h given := by
    have h : Tracks agreed base { d with core } := Tracks.alike (d := d) ⟨rfl, rfl, rfl, rfl, rfl⟩ h
    apply secures_followup
      (I := fun d => d.Tracks agreed base ∧ Consecutive (d.applied + 1) f.committed)
      (J := Applying agreed base)
    case always => exact ⟨fun _ h => h.1, fun _ _ h => h.tracks, fun _ h => h⟩
    case alike => exact fun d d' k => ⟨fun h => ⟨h.1.alike k, k.applied ▸ h.2⟩, Tracks.alike k⟩
    case before => exact h
    case same => exact fun _ => ⟨h, given.committed⟩
    case commit => exact fun c _ => ⟨h, given.committed⟩
    case begin => exact fun d h => ⟨h.1, h.2, given.agrees⟩
    case apply => exact fun e es d d' h done => h.apply done
    case done => exact fun d h => h.tracks

end Driver

end QuorumLab
