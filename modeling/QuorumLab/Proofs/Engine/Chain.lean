import Mathlib.Tactic.MkIffOfInductiveProp
import QuorumLab.Proofs.Engine.Upholds
import QuorumLab.Proofs.Store.Indexed

/-!
# The chain of indexes

A node keeps five indexes in three stores and two fields of its driver: where its log was
compacted, its latest snapshot, what it has applied, what it knows to be committed and the
end of its log. Between iterations they never change places.
-/

namespace QuorumLab

/-- The stores of a node that has applied the entries up to `applied`. -/
structure Shelf.Chained (s : Shelf) (applied : Nat) : Prop where
  offset_le : s.log.offset ≤ s.snapshots.index
  snapshot_le : s.snapshots.index ≤ applied
  applied_le : applied ≤ s.stable.hard.commit
  commit_le : s.stable.hard.commit ≤ s.log.last
  indexed : s.log.Indexed

theorem Shelf.chained_empty (membership : Membership) :
    Shelf.Chained { stable := { membership } } 0 where
  offset_le := Nat.le_refl 0
  snapshot_le := Nat.le_refl 0
  applied_le := Nat.le_refl 0
  commit_le := Nat.le_refl 0
  indexed := trivial

/-- A driver whose indexes are in order. -/
structure Driver.Chained {κ μ : Type} (d : Driver κ μ) : Prop where
  shelf : d.shelf.Chained d.applied
  lastSnapshot : d.lastSnapshot = d.shelf.snapshots.index

namespace Ready

/-- Where a log that ended at `last` ends once the round is stored. -/
def reach (r : Ready) (last : Nat) : Nat :=
  match r.entries.getLast?, r.snapshot with
  | some e, _ => e.index
  | none, some s => s.index
  | none, none => last

/-- The commit index that is known once the round is stored. -/
def commit (r : Ready) (reported : Nat) : Nat := (r.hard.map HardState.commit).getD reported

/-- A round that goes on from the commit index reported before, where the log ends and what
is applied. -/
@[mk_iff]
structure Orderly (reported last applied : Nat) (r : Ready) : Prop where
  entries : ∀ e ∈ r.entries.head?, Consecutive e.index r.entries ∧
    match r.snapshot with
    | some s => e.index = s.index + 1
    | none => reported < e.index ∧ e.index ≤ last + 1
  hard : ∀ h ∈ r.hard, reported ≤ h.commit ∧ h.commit ≤ r.reach last
  committed : Consecutive (applied + 1) r.committed
  within : ∀ e ∈ r.committed, e.index ≤ r.commit reported
  snapshot : ∀ s ∈ r.snapshot, applied < s.index ∧ reported < s.index ∧ r.committed = [] ∧
    ∃ h ∈ r.hard, s.index ≤ h.commit

instance (reported last applied : Nat) (r : Ready) : Decidable (r.Orderly reported last applied) :=
  haveI (e : Entry) : Decidable (match r.snapshot with
      | some s => e.index = s.index + 1
      | none => reported < e.index ∧ e.index ≤ last + 1) :=
    match r.snapshot with
    | some _ => inferInstance
    | none => inferInstance
  decidable_of_iff _ (r.orderly_iff reported last applied).symm

end Ready

namespace Followup

/-- The commit index that is known after the round. -/
def commitAfter (f : Followup) (reported : Nat) : Nat := f.commit.getD reported

/-- What follows a round goes on from the commit index reported in it. -/
@[mk_iff]
structure Orderly (reported last applied : Nat) (f : Followup) : Prop where
  commit : ∀ c ∈ f.commit, reported ≤ c ∧ c ≤ last
  committed : Consecutive (applied + 1) f.committed
  within : ∀ e ∈ f.committed, e.index ≤ f.commitAfter reported

instance (reported last applied : Nat) (f : Followup) :
    Decidable (f.Orderly reported last applied) :=
  decidable_of_iff _ (f.orderly_iff reported last applied).symm

end Followup

/-- The protocol hands out entries and commit indexes in order. The record is the commit
index that was reported last. -/
def orderly (κ μ : Type) : Contract κ μ Nat where
  round reported d := Ready.Orderly reported d.shelf.log.last d.applied
  noteRound reported r := r.commit reported
  followup reported d := Followup.Orderly reported d.shelf.log.last d.applied
  noteFollowup reported f := f.commitAfter reported

instance (κ μ : Type) (g : Nat) (d : Driver κ μ) (r : Ready) :
    Decidable ((orderly κ μ).round g d r) :=
  inferInstanceAs (Decidable (r.Orderly _ _ _))

instance (κ μ : Type) (g : Nat) (d : Driver κ μ) (f : Followup) :
    Decidable ((orderly κ μ).followup g d f) :=
  inferInstanceAs (Decidable (f.Orderly _ _ _))

namespace Driver

variable {κ μ : Type} {d d' : Driver κ μ}

theorem Chained.alike (k : d.Alike d') (h : d.Chained) : d'.Chained := by
  refine ⟨?_, ?_⟩
  · rw [k.shelf, k.applied]
    exact h.shelf
  · rw [k.shelf, k.lastSnapshot]
    exact h.lastSnapshot

theorem Chained.takeSnapshot [Machine μ] (h : d.Chained) :
    d.takeSnapshot.2.Chained ∧ d.takeSnapshot.2.shelf.stable = d.shelf.stable := by
  rcases d.takeSnapshot_cases with ⟨machine, -, same⟩ | ⟨term, data, machine, new, -, -, h'⟩
  · rw [same]
    exact ⟨⟨h.shelf, h.lastSnapshot⟩, rfl⟩
  · have inserted : d.shelf.snapshots.insert (d.snapshotHere term data)
        = { latest := some (d.snapshotHere term data) } :=
      Snapshots.insert_of_index_le h.shelf.snapshot_le
    have place : d.applied - d.settings.trailing + 1 ≤ d.shelf.log.last + 1 := by
      have := h.shelf.applied_le
      have := h.shelf.commit_le
      omega
    obtain ⟨log, compacted, indexed, offset, last⟩ := Log.compact_ok h.shelf.indexed place
    simp only [compacted] at h'
    rw [h']
    have before := Nat.le_trans h.shelf.offset_le h.shelf.snapshot_le
    refine ⟨⟨?_, ?_⟩, rfl⟩
    · constructor
      · change log.offset ≤ (d.shelf.snapshots.insert (d.snapshotHere term data)).index
        rw [inserted, offset]
        change max d.shelf.log.offset _ ≤ d.applied
        omega
      · change (d.shelf.snapshots.insert (d.snapshotHere term data)).index ≤ d.applied
        rw [inserted]
        exact Nat.le_refl d.applied
      · exact h.shelf.applied_le
      · exact last ▸ h.shelf.commit_le
      · exact indexed
    · change d.applied = (d.shelf.snapshots.insert (d.snapshotHere term data)).index
      rw [inserted]
      rfl

/-- In the middle of a round: `es` are left to apply, the stored commit index is still `base`,
and it will be `target`. -/
structure Underway (entries : List Entry) (base target : Nat) (es : List Entry)
    (s : Shelf) (applied lastSnapshot : Nat) : Prop where
  offset_le : s.log.offset ≤ s.snapshots.index
  snapshot_le : s.snapshots.index ≤ min base applied
  commit : s.stable.hard.commit = base
  commit_le : base ≤ s.log.last
  indexed : s.log.Indexed
  lastSnapshot : lastSnapshot = s.snapshots.index
  applied_le : applied ≤ target
  run : Consecutive (applied + 1) es
  within : ∀ e ∈ es, e.index ≤ target
  /-- The new entries fit the log, which will then reach `target`. -/
  fits : if entries = [] then target ≤ s.log.last
    else ∃ n, Consecutive n entries ∧ base < n ∧ n ≤ s.log.last + 1 ∧
      target < n + entries.length

/-- The entries of a round are stored, its commit index is not. -/
structure Caught (base target : Nat) (s : Shelf) (applied lastSnapshot : Nat) : Prop where
  offset_le : s.log.offset ≤ s.snapshots.index
  snapshot_le : s.snapshots.index ≤ applied
  commit : s.stable.hard.commit = base
  applied_le : applied ≤ target
  target_le : target ≤ s.log.last
  indexed : s.log.Indexed
  lastSnapshot : lastSnapshot = s.snapshots.index

variable {entries es : List Entry} {base target : Nat}

theorem Underway.alike (k : d.Alike d')
    (h : Underway entries base target es d.shelf d.applied d.lastSnapshot) :
    Underway entries base target es d'.shelf d'.applied d'.lastSnapshot := by
  rw [k.shelf, k.applied, k.lastSnapshot]
  exact h

theorem Underway.apply [Machine μ] {e : Entry}
    (h : Underway entries base target (e :: es) d.shelf d.applied d.lastSnapshot)
    (done : d.apply e = .done d') :
    Underway entries base target es d'.shelf d'.applied d'.lastSnapshot := by
  obtain ⟨next, run⟩ := h.run
  rcases apply_cases done with ⟨old, -⟩ | ⟨-, machine, rfl, -⟩
  · omega
  · apply alike (alike_noteApplied _ e)
    constructor
    case offset_le => exact h.offset_le
    case snapshot_le =>
      have := h.snapshot_le
      change d.shelf.snapshots.index ≤ min base e.index
      omega
    case commit => exact h.commit
    case commit_le => exact h.commit_le
    case indexed => exact h.indexed
    case lastSnapshot => exact h.lastSnapshot
    case applied_le => exact h.within e List.mem_cons_self
    case run =>
      change Consecutive (e.index + 1) es
      rwa [next]
    case within =>
      intro x hx
      exact h.within x (List.mem_cons_of_mem e hx)
    case fits => exact h.fits

/-- Without new entries the log already reaches the new commit index. -/
theorem Underway.nothing (h : Underway [] base target [] d.shelf d.applied d.lastSnapshot) :
    Caught base target d.shelf d.applied d.lastSnapshot := by
  have low := h.snapshot_le
  exact ⟨h.offset_le, by omega, h.commit, h.applied_le, h.fits, h.indexed, h.lastSnapshot⟩

/-- The entries of a round are never refused, and what is committed is not cut off by them. -/
theorem Underway.append (new : entries ≠ [])
    (h : Underway entries base target [] d.shelf d.applied d.lastSnapshot) :
    ∃ d', d.append entries = .ok d' ∧ Caught base target d'.shelf d'.applied d'.lastSnapshot := by
  have fits := h.fits
  rw [if_neg new] at fits
  obtain ⟨n, run, above, place, reach⟩ := fits
  have low := h.snapshot_le
  have offset := h.offset_le
  obtain ⟨log, taken, indexed, same, last⟩ :=
    Log.append_ok h.indexed new run (by simp only [Log.first]; omega) place
  refine ⟨{ d with shelf := { d.shelf with log } }, by simp only [Driver.append, taken], ?_⟩
  constructor
  case offset_le => exact same ▸ h.offset_le
  case snapshot_le =>
    change d.shelf.snapshots.index ≤ d.applied
    omega
  case commit => exact h.commit
  case applied_le => exact h.applied_le
  case target_le =>
    change target ≤ log.last
    omega
  case indexed => exact indexed
  case lastSnapshot => exact h.lastSnapshot

theorem Caught.chained (h : Caught target target d.shelf d.applied d.lastSnapshot) :
    d.Chained where
  shelf := {
    offset_le := h.offset_le
    snapshot_le := h.snapshot_le
    applied_le := h.commit ▸ h.applied_le
    commit_le := h.commit ▸ h.target_le
    indexed := h.indexed }
  lastSnapshot := h.lastSnapshot

theorem Caught.commit_to (h : Caught base target d.shelf d.applied d.lastSnapshot)
    {f : Stable → Stable} (commit : (f d.shelf.stable).hard.commit = target) :
    (d.setStable f).Chained := by
  have caught : Caught target target (d.setStable f).shelf d.applied d.lastSnapshot :=
    ⟨h.offset_le, h.snapshot_le, commit, h.applied_le, h.target_le, h.indexed, h.lastSnapshot⟩
  exact caught.chained

/-- Between rounds, with the commit index that was reported last. -/
structure Steady (reported : Nat) (d : Driver κ μ) : Prop where
  chained : d.Chained
  commit : d.shelf.stable.hard.commit = reported

variable {reported : Nat}

theorem Steady.alike (k : d.Alike d') (h : Steady reported d) : Steady reported d' :=
  ⟨h.chained.alike k, k.shelf ▸ h.commit⟩

theorem Steady.takeSnapshot [Machine μ] (h : Steady reported d) :
    Steady reported d.takeSnapshot.2 := by
  obtain ⟨chained, stable⟩ := h.chained.takeSnapshot
  exact ⟨chained, by rw [stable]; exact h.commit⟩

end Driver

namespace Ready

variable {r : Ready} {reported last applied : Nat}

theorem reach_of_entries {n : Nat} (last : Nat) (new : r.entries ≠ [])
    (run : Consecutive n r.entries) :
    r.reach last + 1 = n + r.entries.length := by
  cases he : r.entries.getLast? with
  | none => exact absurd (List.getLast?_eq_none_iff.mp he) new
  | some e =>
    simp only [reach, he]
    exact run.index_of_getLast? he

/-- A snapshot comes with a hard state. -/
theorem Orderly.whole (h : r.Orderly reported last applied) (unset : r.hard = none) :
    r.snapshot = none := by
  rw [Option.eq_none_iff_forall_not_mem]
  intro s hs
  obtain ⟨-, -, -, hard, given, -⟩ := h.snapshot s hs
  rw [unset] at given
  cases given

theorem Orderly.commit_le_reach (h : r.Orderly reported last applied) (known : reported ≤ last) :
    r.commit reported ≤ r.reach last := by
  cases hr : r.hard with
  | some hs =>
    simp only [commit, hr]
    exact (h.hard hs hr).2
  | none =>
    have whole := h.whole hr
    simp only [commit, hr]
    change reported ≤ r.reach last
    cases he : r.entries with
    | nil => simpa [reach, he, whole] using known
    | cons e rest =>
      obtain ⟨run, place⟩ := h.entries e (by rw [he]; rfl)
      have end_eq := reach_of_entries last (by simp [he]) run
      simp only [whole] at place
      simp only [he, List.length_cons] at end_eq
      omega

/-- Where the new entries go in a log that ends at `last'`, and that it then reaches the commit
index. -/
theorem Orderly.fits {floor last' : Nat} (h : r.Orderly reported last applied)
    (known : reported ≤ last)
    (above : ∀ e ∈ r.entries.head?, floor < e.index ∧ e.index ≤ last' + 1)
    (same : r.entries = [] → r.reach last = last') :
    if r.entries = [] then r.commit reported ≤ last'
    else ∃ n, Consecutive n r.entries ∧ floor < n ∧ n ≤ last' + 1 ∧
      r.commit reported < n + r.entries.length := by
  have reached := h.commit_le_reach known
  by_cases none : r.entries = []
  · rw [if_pos none, ← same none]
    exact reached
  · rw [if_neg none]
    obtain ⟨e, he⟩ : ∃ e, r.entries.head? = some e :=
      ⟨_, List.head?_eq_some_head none⟩
    obtain ⟨run, -⟩ := h.entries e he
    obtain ⟨low, high⟩ := above e he
    have end_eq := reach_of_entries last none run
    exact ⟨e.index, run, low, high, by omega⟩

end Ready

namespace Driver

variable {κ μ : Type} {d d' : Driver κ μ} {r : Ready} {f : Followup}
variable {es : List Entry} {reported : Nat}

/-- A round without a snapshot begins. -/
theorem Steady.begin (h : Steady reported d) (whole : r.snapshot = none)
    (given : r.Orderly reported d.shelf.log.last d.applied) :
    Underway r.entries reported (r.commit reported) r.committed d.shelf d.applied
      d.lastSnapshot := by
  obtain ⟨⟨shelf, last⟩, commit⟩ := h
  have applied_le := commit ▸ shelf.applied_le
  have commit_le := commit ▸ shelf.commit_le
  have snapshot_le := shelf.snapshot_le
  have grows : reported ≤ r.commit reported := by
    cases hr : r.hard with
    | none => simp [Ready.commit, hr]
    | some hs => simpa [Ready.commit, hr] using (given.hard hs hr).1
  refine ⟨shelf.offset_le, by omega, commit, commit_le, shelf.indexed, last, by omega,
    given.committed, given.within, ?_⟩
  apply given.fits commit_le
  · intro e he
    have place := (given.entries e he).2
    simpa only [whole] using place
  · intro none
    simp [Ready.reach, none, whole]

/-- A round with a snapshot begins by restoring it. -/
theorem Steady.restore [Machine μ] {s : Snapshot} (h : Steady reported d)
    (offered : r.snapshot = some s) (given : r.Orderly reported d.shelf.log.last d.applied)
    (done : d.restore s = .ok d') :
    Underway r.entries s.index (r.commit reported) r.committed d'.shelf d'.applied
      d'.lastSnapshot := by
  obtain ⟨⟨shelf, last⟩, commit⟩ := h
  obtain ⟨machine, -, rfl⟩ := restore_ok done
  obtain ⟨above, -, nothing, hard, hs, reaches⟩ := given.snapshot s offered
  have snapshot_le := shelf.snapshot_le
  have inserted : (d.shelf.snapshots.insert s).index = s.index := by
    rw [Snapshots.insert_of_index_le (by omega)]
    rfl
  have reach : s.index ≤ r.commit reported := by
    simpa only [Ready.commit, Option.mem_def.mp hs, Option.map_some, Option.getD_some] using reaches
  constructor
  case offset_le => exact Nat.le_of_eq inserted.symm
  case snapshot_le =>
    change (d.shelf.snapshots.insert s).index ≤ min s.index s.index
    omega
  case commit => rfl
  case commit_le => exact Nat.le_refl s.index
  case indexed => exact Log.indexed_reset s.index s.term
  case lastSnapshot => exact inserted.symm
  case applied_le => exact reach
  case run =>
    rw [nothing]
    trivial
  case within => exact given.within
  case fits =>
    apply given.fits (commit ▸ shelf.commit_le)
    · intro e he
      have place := (given.entries e he).2
      rw [offered] at place
      change s.index < e.index ∧ e.index ≤ s.index + 1
      omega
    · intro none
      simp [Ready.reach, none, offered, restored, Log.last_reset]

theorem Steady.commit_to {commit : Nat} (h : Steady reported d) (low : reported ≤ commit)
    (high : commit ≤ d.shelf.log.last) : Steady commit (d.setStable (·.setCommit commit)) := by
  obtain ⟨⟨shelf, last⟩, stored⟩ := h
  have applied_le := stored ▸ shelf.applied_le
  exact ⟨⟨⟨shelf.offset_le, shelf.snapshot_le, Nat.le_trans applied_le low, high, shelf.indexed⟩,
    last⟩, rfl⟩

/-- What follows a round is applied once its commit index is stored. -/
theorem Steady.follow (h : Steady reported d) (run : Consecutive (d.applied + 1) es)
    (within : ∀ e ∈ es, e.index ≤ reported) :
    Underway [] reported reported es d.shelf d.applied d.lastSnapshot := by
  obtain ⟨⟨shelf, last⟩, commit⟩ := h
  have applied_le := commit ▸ shelf.applied_le
  have commit_le := commit ▸ shelf.commit_le
  have snapshot_le := shelf.snapshot_le
  exact ⟨shelf.offset_le, by omega, commit, commit_le, shelf.indexed, last, applied_le, run,
    within, commit_le⟩

variable {ω : Type} [Core κ] [Machine μ] [Carrier ω]

theorem upholds_chained (κ μ ω : Type) [Core κ] [Machine μ] [Carrier ω] :
    Upholds ω (orderly κ μ) (fun _ => True) Chained Steady where
  always _ := trivial
  atStop h := h.chained
  alike := Steady.alike
  alike_always _ _ := trivial
  alike_atStop := Chained.alike
  snapshot h := h.takeSnapshot
  round {reported d r} core h given := by
    let base := match r.snapshot with
      | some s => s.index
      | none => reported
    have base_eq : r.snapshot = none → base = reported := fun whole => by simp only [base, whole]
    apply secures_round
      (I := fun d => Steady reported d ∧ r.Orderly reported d.shelf.log.last d.applied)
      (J := fun es d =>
        Underway r.entries base (r.commit reported) es d.shelf d.applied d.lastSnapshot)
      (K := fun d => Caught base (r.commit reported) d.shelf d.applied d.lastSnapshot)
    case always => exact ⟨fun _ _ => trivial, fun _ _ _ => trivial, fun _ _ => trivial,
      fun _ _ => trivial⟩
    case alike =>
      intro d d' k
      refine ⟨fun ⟨h, given⟩ => ⟨h.alike k, ?_⟩, Steady.alike k⟩
      rw [k.shelf, k.applied]
      exact given
    case start => exact ⟨Steady.alike (d := d) ⟨rfl, rfl, rfl, rfl, rfl⟩ h, given⟩
    case keep =>
      intro d whole ⟨h, given⟩
      rw [base_eq whole]
      exact h.begin whole given
    case restore =>
      intro s d offered ⟨h, given⟩
      constructor
      · intro setback refused
        obtain ⟨machine, -, left⟩ := restore_error refused
        rw [left]
        exact ⟨trivial, h.chained.shelf, h.chained.lastSnapshot⟩
      intro d' done
      simpa only [base, offered] using h.restore offered given done
    case apply => exact fun e es d d' h done => h.apply done
    case nothing =>
      intro d empty h
      rw [empty] at h
      exact h.nothing
    case append =>
      intro d new h
      obtain ⟨d', done, caught⟩ := h.append new
      constructor
      · intro f refused
        rw [done] at refused
        cases refused
      · intro d'' done'
        rw [done] at done'
        cases done'
        exact caught
    case same =>
      intro d unset h
      have target : r.commit reported = base := by
        rw [base_eq (given.whole unset), Ready.commit, unset]
        rfl
      change Steady (r.commit reported) d
      rw [target] at h ⊢
      exact ⟨h.chained, h.commit⟩
    case hard =>
      intro hs d stored h
      have target : hs.commit = r.commit reported := by
        simp only [Ready.commit, stored, Option.map_some, Option.getD_some]
      exact ⟨h.commit_to target, target⟩
  followup {reported d f} core h given := by
    have h : Steady reported { d with core } := Steady.alike (d := d) ⟨rfl, rfl, rfl, rfl, rfl⟩ h
    apply secures_followup
      (I := fun d => Steady (f.commitAfter reported) d ∧ Consecutive (d.applied + 1) f.committed)
      (J := fun es d => Underway [] (f.commitAfter reported) (f.commitAfter reported) es
        d.shelf d.applied d.lastSnapshot)
    case always => exact ⟨fun _ _ => trivial, fun _ _ _ => trivial, fun _ _ => trivial⟩
    case alike => exact fun d d' k => ⟨fun h => ⟨h.1.alike k, k.applied ▸ h.2⟩, Steady.alike k⟩
    case before => trivial
    case same =>
      intro unset
      have same : f.commitAfter reported = reported := by rw [Followup.commitAfter, unset]; rfl
      refine ⟨?_, given.committed⟩
      rwa [same]
    case commit =>
      intro c set
      have same : f.commitAfter reported = c := by rw [Followup.commitAfter, set]; rfl
      obtain ⟨low, high⟩ := given.commit c set
      refine ⟨?_, given.committed⟩
      change Steady (f.commitAfter reported) (setStable { d with core } (·.setCommit c))
      rw [same]
      exact h.commit_to low high
    case begin => exact fun d h => h.1.follow h.2 given.within
    case apply => exact fun e es d d' h done => h.apply done
    case done => exact fun d h => ⟨h.nothing.chained, h.commit⟩

end Driver

namespace Engine

variable {κ μ ω : Type} [Core κ] [Machine μ] [Carrier ω]

/-- Over stores whose indexes are in order they stay so: whenever the loop waits, and also when
it returned because a machine refused a snapshot. -/
theorem indexes_chained {id : Nat} {settings : Settings} {core : κ} {machine : μ}
    {shelf : Shelf} {peers : Directory} {now : Nat} (stored : shelf.Chained shelf.snapshots.index)
    {w₀ : ω} {m : Moment κ μ ω Nat}
    (run : Reachable ((orderly κ μ).system ω)
      ⟨boot id settings core machine shelf peers now, w₀, shelf.stable.hard.commit⟩ m)
    (between : m.engine.resting = true ∨ ∃ r, m.engine.ending = some (.returned r)) :
    m.engine.driver.Chained := by
  have begun : Driver.Steady shelf.stable.hard.commit
      (driverOf settings core machine shelf peers now) := ⟨⟨stored, rfl⟩, rfl⟩
  have upheld := (Driver.upholds_chained κ μ ω).reachable (.boot trivial begun) run
  rcases between with rest | ⟨r, returned⟩
  · exact (upheld.at_rest rest).chained
  · exact upheld.returned r returned

/-- A follower applies two commands and takes a snapshot that its whole log is dropped for. -/
theorem indexes_chained_of_follower :
    let events := Sample.iteration [Sample.append 1 1, Sample.append 1 2] ++ Sample.call .snapshot
    let m := ((orderly Replica Recorder).system Station).play
      ⟨Sample.engine 1 Sample.shelf, default, 0⟩ events
    (m.engine.driver.shelf.log.offset = 2 ∧ m.engine.driver.applied = 2) ∧
      m.engine.driver.Chained :=
  ⟨by decide +kernel, indexes_chained (Shelf.chained_empty _)
    (System.reachable_play .start (by decide +kernel)) (Or.inl (by decide +kernel))⟩

end Engine

end QuorumLab
