import QuorumLab.Proofs.Engine.Chain
import QuorumLab.Proofs.Store.History

/-!
# Taking a snapshot

A snapshot is taken whole or not at all. Once the machine has given its bytes nothing can be
refused any more: the term is known, the store keeps the snapshot, and the log is cut to the
window of entries that stay behind it.
-/

namespace QuorumLab

/-- What is left of a log once it is cut at `cut`: everything above, as it was. A log that
begins further on stays whole. -/
structure Log.CutTo (l : Log) (cut : Nat) (l' : Log) : Prop where
  first : l'.first = max l.first (cut + 1)
  last : l'.last = l.last
  entries : l'.entries = l.entries.drop (l'.first - l.first)
  slice : ∀ low high, l'.first ≤ low → l'.slice low high = l.slice low high
  term : ∀ index, l'.offset ≤ index → l'.term index = l.term index

theorem Log.compact_cutTo {l : Log} {cut : Nat} (h : l.Indexed) (inside : cut ≤ l.last) :
    ∃ l', l.compact (cut + 1) = .ok l' ∧ l.CutTo cut l' := by
  obtain ⟨l', moved, -, offset, last⟩ := compact_ok h (Nat.add_le_add_right inside 1)
  refine ⟨l', moved, ?_⟩
  constructor
  case first =>
    simp only [Log.first, offset]
    omega
  case last => exact last
  case entries => exact (entries_compact moved).2
  case slice => exact fun low high above => slice_compact moved last above high
  case term => exact fun index above => term_compact moved above

namespace Driver

variable {κ μ : Type} {d : Driver κ μ}

/-- The log goes back to the last snapshot and on to what is applied, and its indexes are words,
with one to spare. -/
structure Poised (d : Driver κ μ) : Prop where
  offset_le : d.shelf.log.offset ≤ d.shelf.snapshots.index
  lastSnapshot : d.lastSnapshot = d.shelf.snapshots.index
  lastSnapshot_le : d.lastSnapshot ≤ d.applied
  applied_le : d.applied ≤ d.shelf.log.last
  last_lt : d.shelf.log.last < maxWord
  indexed : d.shelf.log.Indexed

/-- A driver whose indexes are in order is ready to take a snapshot, as far as they are words. -/
theorem Chained.poised (h : d.Chained) (small : d.shelf.log.last < maxWord) : d.Poised where
  offset_le := h.shelf.offset_le
  lastSnapshot := h.lastSnapshot
  lastSnapshot_le := h.lastSnapshot ▸ h.shelf.snapshot_le
  applied_le := Nat.le_trans h.shelf.applied_le h.shelf.commit_le
  last_lt := small
  indexed := h.shelf.indexed

/-- What a driver is once its machine, which is `machine` now, has given the snapshot `s`, and that
is stored and the log cut to `log`. -/
def snapped (d : Driver κ μ) (machine : μ) (s : Snapshot) (log : Log) : Driver κ μ :=
  { d with
    machine := {
      machine
      counters := { d.machine.counters with snapshots := d.machine.counters.snapshots + 1 } }
    shelf := { d.shelf with log, snapshots := { latest := some s } }
    lastSnapshot := s.index }

variable [Machine μ]

/-- Take a snapshot with the log behind its lock and indexes that have to be words. -/
def takeSnapshotInWords (d : Driver κ μ) : Except Fault (Except Failure Nat × Driver κ μ) := do
  if d.applied = 0 ∨ d.applied ≤ d.lastSnapshot then return (.error .nothingNewToSnapshot, d)
  let locked : LockedLog := { log := d.shelf.log }
  match ← locked.term d.applied with
  | .error refusal => return (.error (.raft refusal), d)
  | .ok term => match d.machine.snapshot with
    | .error setback => return (.error setback.failure, { d with machine := setback.left })
    | .ok (data, machine) =>
      let d := d.stored machine (d.snapshotHere term data)
      let (result, locked) := locked.compact (← Word.succ (d.applied - d.settings.trailing))
      match ← result with
      | .error refused => return (.error refused.failure, d)
      | .ok () =>
        let _ ← locked.first
        return (.ok d.applied, { d with shelf := { d.shelf with log := locked.log } })

omit [Machine μ] in
/-- The term of what is applied is known. -/
theorem Poised.term_ok (h : d.Poised) : ∃ term, d.shelf.log.term d.applied = .ok term :=
  Log.term_ok (Nat.le_trans (h.lastSnapshot ▸ h.offset_le) h.lastSnapshot_le) h.applied_le

omit [Machine μ] in
/-- The log can be cut where the window behind a snapshot begins. -/
theorem Poised.compact_ok (h : d.Poised) :
    ∃ log, d.shelf.log.compact (d.applied - d.settings.trailing + 1) = .ok log ∧
      d.shelf.log.CutTo (d.applied - d.settings.trailing) log :=
  Log.compact_cutTo h.indexed (Nat.le_trans (Nat.sub_le _ _) h.applied_le)

omit [Machine μ] in
/-- The store holds no later snapshot than one of what is applied. -/
theorem Poised.insert_eq (h : d.Poised) (term : Nat) (data : Bytes) :
    d.shelf.snapshots.insert (d.snapshotHere term data)
      = { latest := some (d.snapshotHere term data) } :=
  Snapshots.insert_of_index_le (h.lastSnapshot ▸ h.lastSnapshot_le)

theorem takeSnapshot_of_old (old : d.applied = 0 ∨ d.applied ≤ d.lastSnapshot) :
    d.takeSnapshot = (.error .nothingNewToSnapshot, d) := by
  rw [takeSnapshot, if_pos old]

section New

variable (h : d.Poised) (new : ¬(d.applied = 0 ∨ d.applied ≤ d.lastSnapshot))
include h new

theorem Poised.takeSnapshot_error {s : Setback μ}
    (refused : Machine.snapshot d.machine.machine = .error s) :
    d.takeSnapshot = (.error s.failure, { d with machine.machine := s.left }) := by
  obtain ⟨term, known⟩ := h.term_ok
  simp only [takeSnapshot, if_neg new, known, Watched.snapshot, refused, Setback.map]

theorem Poised.takeSnapshot_ok {data : Bytes} {machine : μ}
    (given : Machine.snapshot d.machine.machine = .ok (data, machine)) :
    ∃ term log, d.shelf.log.term d.applied = .ok term ∧
      d.shelf.log.CutTo (d.applied - d.settings.trailing) log ∧
      d.takeSnapshot = (.ok d.applied, d.snapped machine (d.snapshotHere term data) log) := by
  obtain ⟨term, known⟩ := h.term_ok
  obtain ⟨log, moved, cut⟩ := h.compact_ok
  have kept := h.insert_eq term data
  refine ⟨term, log, known, cut, ?_⟩
  simp only [snapshotHere] at kept
  simp only [takeSnapshot, if_neg new, known, Watched.snapshot, given,
    Snapshots.create, kept, moved, snapped, snapshotHere]

end New

/-- No index leaves the words, so nothing in it is a fault. -/
theorem Poised.takeSnapshotInWords_eq (h : d.Poised) :
    d.takeSnapshotInWords = .ok d.takeSnapshot := by
  have applied_le := h.applied_le
  have small := h.last_lt
  by_cases old : d.applied = 0 ∨ d.applied ≤ d.lastSnapshot
  · simp only [takeSnapshotInWords, takeSnapshot, if_pos old]
    rfl
  · have looked := LockedLog.term_eq (s := { log := d.shelf.log }) rfl small d.applied
    simp only [takeSnapshotInWords, takeSnapshot, if_neg old, looked, bind, Except.bind]
    cases d.shelf.log.term d.applied with
    | error refusal => rfl
    | ok term =>
      cases d.machine.snapshot with
      | error setback => rfl
      | ok taken =>
        obtain ⟨data, machine⟩ := taken
        have place : Word.succ (d.applied - d.settings.trailing)
            = .ok (d.applied - d.settings.trailing + 1) := LockedLog.sum_ok (by omega)
        obtain ⟨log, moved, cut⟩ := h.compact_ok
        have edited := LockedLog.perform_eq (s := { log := d.shelf.log }) rfl small
          (.compact (d.applied - d.settings.trailing + 1))
        simp only [LockedLog.perform, Log.perform, moved] at edited
        have first := LockedLog.first_ok (s := { log }) rfl (cut.last ▸ small)
        simp only [stored, place, edited, first, moved]
        rfl

/-- Being asked for its state leaves a lawful machine as it is, whatever comes of the snapshot. -/
theorem machine_takeSnapshot [LawfulMachine μ] (d : Driver κ μ) :
    d.takeSnapshot.2.machine.machine = d.machine.machine := by
  rcases d.takeSnapshot_cases with ⟨machine, same | ⟨s, refused, rfl⟩, left⟩ |
    ⟨term, data, machine, -, -, taken, after⟩
  · rw [left, same]
  · rw [left, Watched.left_of_snapshot_error refused]
  · have same := Watched.machine_of_snapshot_ok taken
    dsimp only at after
    split at after <;> rw [after] <;> exact same

/-- A snapshot is refused because there is nothing new or because the machine refuses it, and
then nothing has changed but what the machine made of itself as it refused. Otherwise it is taken,
and of the log the window behind it stays. A machine that is changed by nothing but commands and
restores is the same before and after. -/
theorem takeSnapshot_whole_or_nothing (h : d.Poised) :
    d.takeSnapshotInWords = .ok d.takeSnapshot ∧
      (d.takeSnapshot.1 = .error .nothingNewToSnapshot ↔
        (d.applied = d.lastSnapshot ∨ d.applied = 0) ∨
          ∃ left, Machine.snapshot d.machine.machine =
            .error { failure := .nothingNewToSnapshot, left }) ∧
      (if d.applied = d.lastSnapshot ∨ d.applied = 0 then
        d.takeSnapshot = (.error .nothingNewToSnapshot, d)
      else match Machine.snapshot d.machine.machine with
        | .error s => d.takeSnapshot = (.error s.failure, { d with machine.machine := s.left })
        | .ok (data, machine) => ∃ term log, d.shelf.log.term d.applied = .ok term ∧
            d.shelf.log.CutTo (d.applied - d.settings.trailing) log ∧
            d.takeSnapshot =
              (.ok d.applied, d.snapped machine (d.snapshotHere term data) log)) ∧
      (LawfulMachine μ → d.takeSnapshot.2.machine.machine = d.machine.machine) := by
  refine ⟨h.takeSnapshotInWords_eq, ?_⟩
  rw [← and_assoc]
  refine ⟨?_, fun _ => d.machine_takeSnapshot⟩
  have snapshot_le := h.lastSnapshot_le
  by_cases old : d.applied = d.lastSnapshot ∨ d.applied = 0
  · have refused := d.takeSnapshot_of_old (by omega)
    rw [if_pos old, refused]
    exact ⟨⟨fun _ => Or.inl old, fun _ => rfl⟩, rfl⟩
  · have new : ¬(d.applied = 0 ∨ d.applied ≤ d.lastSnapshot) := by omega
    rw [if_neg old]
    cases given : Machine.snapshot d.machine.machine with
    | error s =>
      have refused := h.takeSnapshot_error new given
      rw [refused]
      refine ⟨?_, rfl⟩
      constructor
      · intro same
        refine Or.inr ⟨s.left, ?_⟩
        rw [← Except.error.inj same]
      · intro same
        obtain ⟨left, same⟩ := same.resolve_left old
        cases same
        rfl
    | ok taken =>
      obtain ⟨data, machine⟩ := taken
      obtain ⟨term, log, known, cut, taken⟩ := h.takeSnapshot_ok new given
      refine ⟨?_, term, log, known, cut, taken⟩
      rw [taken]
      constructor
      · intro impossible
        cases impossible
      · rintro (impossible | ⟨_, impossible⟩)
        · exact absurd impossible old
        · cases impossible

end Driver

/-- Over stores whose indexes are in order a driver is ready to take a snapshot whenever its
loop waits. -/
theorem Engine.poised_at_rest {κ μ ω : Type} [Core κ] [Machine μ] [Carrier ω] {id : Nat}
    {settings : Settings} {core : κ} {machine : μ} {shelf : Shelf} {peers : Directory} {now : Nat}
    (stored : shelf.Chained shelf.snapshots.index) {w₀ : ω} {m : Moment κ μ ω Nat}
    (run : Reachable ((orderly κ μ).system ω)
      ⟨boot id settings core machine shelf peers now, w₀, shelf.stable.hard.commit⟩ m)
    (rest : m.engine.resting = true) (small : m.engine.driver.shelf.log.last < maxWord) :
    m.engine.driver.Poised := by
  have begun : Driver.Steady shelf.stable.hard.commit
      (driverOf settings core machine shelf peers now) := ⟨⟨stored, rfl⟩, rfl⟩
  have upheld := (Driver.upholds_chained κ μ ω).reachable (.boot trivial begun) run
  exact (upheld.at_rest rest).chained.poised small

/-- A follower that has applied three commands keeps one of them behind the snapshot. -/
theorem Driver.takeSnapshot_whole_or_nothing_of_follower :
    let e := Engine.boot 1 { trailing := 1 } (Sample.follower 1 Sample.shelf) ({} : Recorder)
      Sample.shelf [] 0
    let m := ((orderly Replica Recorder).system Station).play ⟨e, default, 0⟩
      (Sample.iteration [Sample.append 1 1, Sample.append 1 2] ++
        Sample.iteration [Sample.append 1 3])
    let d := m.engine.driver
    let s := d.snapshotHere 1 (Recorder.encode ⟨3, [[1], [2], [3]]⟩)
    d.Poised ∧ ∃ log, d.shelf.log.CutTo 2 log ∧ log.entries = [Sample.log 3] ∧
      d.takeSnapshot = (.ok 3, d.snapped d.machine.machine s log) := by
  intro e m d s
  have poised : d.Poised :=
    Engine.poised_at_rest (Shelf.chained_empty _) (System.reachable_play .start (by decide +kernel))
      (by decide +kernel) (by decide +kernel)
  have applied : d.applied = 3 := by decide +kernel
  have taken : d.lastSnapshot = 0 := by decide +kernel
  have trailing : d.settings.trailing = 1 := by decide +kernel
  have machine : d.machine.machine = ⟨3, [[1], [2], [3]]⟩ := by decide +kernel
  have held : d.shelf.log = { entries := [Sample.log 1, Sample.log 2, Sample.log 3] } := by
    decide +kernel
  clear_value d
  obtain ⟨-, -, outcome, -⟩ := takeSnapshot_whole_or_nothing poised
  have given : Machine.snapshot d.machine.machine =
      .ok (Recorder.encode ⟨3, [[1], [2], [3]]⟩, d.machine.machine) := by
    rw [machine]
    rfl
  rw [if_neg (by omega)] at outcome
  simp only [given, applied, trailing] at outcome
  obtain ⟨term, log, known, cut, taken⟩ := outcome
  rw [held] at known
  cases known
  refine ⟨poised, log, cut, ?_, taken⟩
  rw [cut.entries, cut.first, held]
  rfl

end QuorumLab
