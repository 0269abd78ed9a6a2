import Mathlib.Tactic.MkIffOfInductiveProp
import QuorumLab.Proofs.Engine.Upholds
import QuorumLab.Proofs.Store.Indexed

/-!
# Serving those that lag

A follower that misses everything from some index on is sent the entries from there, or a
snapshot and the entries behind it. The stores of a node always hold the one or the other:
the log is never compacted past the stored snapshot, and agrees with it on its term.
-/

namespace QuorumLab

namespace Shelf

/-- The log has the entries from `n` on, and the term of the one before. -/
def SendsEntries (s : Shelf) (n : Nat) : Prop :=
  (∃ term, s.log.term (n - 1) = .ok term) ∧
    ∀ limit, ∃ es, s.entries n (s.log.last + 1) limit = .ok es

/-- There is a snapshot that reaches `n`, its term is the log's, and the log goes on from it. -/
def SendsSnapshot (s : Shelf) (n : Nat) : Prop :=
  ∃ t ∈ s.snapshots.latest, (∀ r ≤ t.index, s.snapshot r = .ok t) ∧
    n ≤ t.index ∧ t.index ≤ s.log.last ∧ s.log.term t.index = .ok t.term ∧
    ∀ limit, ∃ es, s.entries (t.index + 1) (s.log.last + 1) limit = .ok es

/-- The snapshot covers what the log has dropped, and nothing that is not applied. -/
structure Covered (s : Shelf) (applied : Nat) : Prop where
  offset_le : s.log.offset ≤ s.snapshots.index
  snapshot_le : s.snapshots.index ≤ applied
  applied_le : applied ≤ s.log.last
  indexed : s.log.Indexed
  term : ∀ t ∈ s.snapshots.latest, s.log.term t.index = .ok t.term

variable {s : Shelf} {applied n : Nat}

theorem covered_empty (stable : Stable) : Covered { stable } 0 where
  offset_le := Nat.le_refl 0
  snapshot_le := Nat.le_refl 0
  applied_le := Nat.le_refl 0
  indexed := trivial
  term := fun t ht => by cases ht

theorem entries_ok (above : s.log.offset < n) (inside : n ≤ s.log.last + 1) (limit : Option Nat) :
    ∃ es, s.entries n (s.log.last + 1) limit = .ok es := by
  obtain ⟨es, held⟩ := Log.slice_ok above inside (Nat.le_refl _)
  exact ⟨page limit es, by rw [entries, held]; rfl⟩

theorem index_of_latest {t : Snapshot} (held : s.snapshots.latest = some t) :
    s.snapshots.index = t.index := by
  simp [Snapshots.index, held]

theorem Covered.serves (h : s.Covered applied) (pos : 1 ≤ n) (inside : n ≤ s.log.last + 1) :
    s.SendsEntries n ∨ s.SendsSnapshot n := by
  have reach := h.offset_le
  have behind := Nat.le_trans h.snapshot_le h.applied_le
  by_cases held : s.log.offset < n
  · exact Or.inl ⟨Log.term_ok (by omega) (by omega), entries_ok held inside⟩
  · cases latest : s.snapshots.latest with
    | none =>
      have none : s.snapshots.index = 0 := by simp [Snapshots.index, latest]
      omega
    | some t =>
      have index := index_of_latest latest
      refine Or.inr ⟨t, latest, ?_, by omega, by omega, h.term t latest, ?_⟩
      · intro r within
        simp only [snapshot, Snapshots.covering, latest, if_pos within]
      · exact entries_ok (by omega) (by omega)

/-- No index is missing from both the log and the snapshot. -/
theorem Covered.holds (h : s.Covered applied) (pos : 1 ≤ n) :
    s.log.first ≤ n ∨ ∃ t ∈ s.snapshots.latest, n ≤ t.index := by
  have reach := h.offset_le
  by_cases held : s.log.offset < n
  · exact Or.inl held
  · cases latest : s.snapshots.latest with
    | none =>
      have none : s.snapshots.index = 0 := by simp [Snapshots.index, latest]
      omega
    | some t =>
      have index := index_of_latest latest
      exact Or.inr ⟨t, rfl, by omega⟩

end Shelf

/-! ## What a protocol hands out -/

/-- New entries go on from the log, or from the snapshot that comes with them, and replace
nothing that is committed; what is committed is in the log; a snapshot is ahead of it. -/
@[mk_iff]
structure Ready.Grounded (last applied : Nat) (r : Ready) : Prop where
  entries : ∀ e ∈ r.entries.head?, Consecutive e.index r.entries ∧
    match r.snapshot with
    | some s => e.index = s.index + 1
    | none => applied < e.index ∧ e.index ≤ last + 1
  committed : ∀ c ∈ r.committed, c.index ≤ last ∧ ∀ e ∈ r.entries.head?, c.index < e.index
  snapshot : ∀ s ∈ r.snapshot, applied < s.index ∧ ∀ c ∈ r.committed, c.index < s.index

instance (last applied : Nat) (r : Ready) : Decidable (r.Grounded last applied) :=
  haveI (e : Entry) : Decidable (match r.snapshot with
      | some s => e.index = s.index + 1
      | none => applied < e.index ∧ e.index ≤ last + 1) :=
    match r.snapshot with
    | some _ => inferInstance
    | none => inferInstance
  decidable_of_iff _ (r.grounded_iff last applied).symm

/-- The protocol hands out only what the log is ready for. -/
def grounded (κ μ : Type) : Contract κ μ Unit where
  round _ d := Ready.Grounded d.shelf.log.last d.applied
  noteRound _ _ := ()
  followup _ d f := ∀ c ∈ f.committed, c.index ≤ d.shelf.log.last
  noteFollowup _ _ := ()

instance (κ μ : Type) (g : Unit) (d : Driver κ μ) (r : Ready) :
    Decidable ((grounded κ μ).round g d r) :=
  inferInstanceAs (Decidable (r.Grounded _ _))

instance (κ μ : Type) (g : Unit) (d : Driver κ μ) (f : Followup) :
    Decidable ((grounded κ μ).followup g d f) :=
  inferInstanceAs (Decidable (∀ c ∈ f.committed, c.index ≤ _))

namespace Driver

variable {κ μ : Type} {d d' : Driver κ μ} {r : Ready}

def Covered (d : Driver κ μ) : Prop := d.shelf.Covered d.applied

theorem Covered.alike (k : d.Alike d') (h : d.Covered) : d'.Covered := by
  rw [Covered, k.shelf, k.applied]
  exact h

/-- Compaction stops at the snapshot that was just stored. -/
theorem Covered.takeSnapshot [Machine μ] (h : d.Covered) : d.takeSnapshot.2.Covered := by
  rcases d.takeSnapshot_cases with ⟨machine, -, same⟩ | ⟨term, data, machine, -, known, -, after⟩
  · rw [same]
    exact h
  · have inserted : d.shelf.snapshots.insert (d.snapshotHere term data)
        = { latest := some (d.snapshotHere term data) } :=
      Snapshots.insert_of_index_le h.snapshot_le
    have place : d.applied - d.settings.trailing + 1 ≤ d.shelf.log.last + 1 := by
      have := h.applied_le
      omega
    obtain ⟨log, compacted, indexed, offset, last⟩ := Log.compact_ok h.indexed place
    have below : log.offset ≤ d.applied := by
      have := Nat.le_trans h.offset_le h.snapshot_le
      omega
    simp only [compacted] at after
    rw [after]
    constructor
    case offset_le =>
      change log.offset ≤ (d.shelf.snapshots.insert (d.snapshotHere term data)).index
      rw [inserted]
      exact below
    case snapshot_le =>
      change (d.shelf.snapshots.insert (d.snapshotHere term data)).index ≤ d.applied
      rw [inserted]
      exact Nat.le_refl d.applied
    case applied_le => exact last ▸ h.applied_le
    case indexed => exact indexed
    case term =>
      intro t ht
      change t ∈ (d.shelf.snapshots.insert (d.snapshotHere term data)).latest at ht
      rw [inserted] at ht
      obtain rfl := Option.some.inj ht
      change log.term d.applied = .ok term
      rw [Log.term_compact compacted below]
      exact known

/-- With `es` left to apply and `entries` to be stored after them. -/
structure Feeding (entries es : List Entry) (d : Driver κ μ) : Prop where
  covered : d.Covered
  stored : ∀ c ∈ es, c.index ≤ d.shelf.log.last
  fits : ∀ e ∈ entries.head?, Consecutive e.index entries ∧ d.applied < e.index ∧
    (∀ c ∈ es, c.index < e.index) ∧ e.index ≤ d.shelf.log.last + 1

variable {entries es : List Entry}

theorem Feeding.apply [Machine μ] {c : Entry} (h : d.Feeding entries (c :: es))
    (done : d.apply c = .done d') : d'.Feeding entries es := by
  have stored := fun x hx => h.stored x (List.mem_cons_of_mem c hx)
  rcases apply_cases done with ⟨-, rfl⟩ | ⟨new, machine, rfl, -⟩
  · refine ⟨h.covered, stored, ?_⟩
    intro e he
    obtain ⟨run, above, older, near⟩ := h.fits e he
    exact ⟨run, above, fun x hx => older x (List.mem_cons_of_mem c hx), near⟩
  · have k := alike_noteApplied { d with machine } c
    have covered := h.covered
    refine ⟨.alike k ?_, ?_, ?_⟩
    · exact ⟨covered.offset_le, Nat.le_trans covered.snapshot_le (Nat.le_of_lt new),
        h.stored c List.mem_cons_self, covered.indexed, covered.term⟩
    · rw [k.shelf]
      exact stored
    · intro e he
      obtain ⟨run, -, older, near⟩ := h.fits e he
      rw [k.applied, k.shelf]
      exact ⟨run, older c List.mem_cons_self, fun x hx => older x (List.mem_cons_of_mem c hx), near⟩

/-- New entries are taken, and change nothing at or below the snapshot. -/
theorem Feeding.append (new : entries ≠ []) (h : d.Feeding entries []) :
    ∃ d', d.append entries = .ok d' ∧ d'.Covered := by
  obtain ⟨e, he⟩ : ∃ e, entries.head? = some e := ⟨_, List.head?_eq_some_head new⟩
  obtain ⟨run, above, -, near⟩ := h.fits e he
  have covered := h.covered
  have low := Nat.le_trans covered.offset_le covered.snapshot_le
  obtain ⟨log, taken, indexed, same, last⟩ :=
    Log.append_ok covered.indexed new run (by simp only [Log.first]; omega) near
  have length := List.length_pos_iff.mpr new
  refine ⟨{ d with shelf := { d.shelf with log } }, by simp only [Driver.append, taken], ?_⟩
  constructor
  case offset_le => exact same ▸ covered.offset_le
  case snapshot_le => exact covered.snapshot_le
  case applied_le =>
    change d.applied ≤ log.last
    omega
  case indexed => exact indexed
  case term =>
    intro t ht
    have behind : t.index ≤ d.applied := Shelf.index_of_latest ht ▸ covered.snapshot_le
    rw [← covered.term t ht]
    exact Log.term_append he taken (by omega)

theorem Covered.begin (h : d.Covered) (whole : r.snapshot = none)
    (given : r.Grounded d.shelf.log.last d.applied) : d.Feeding r.entries r.committed where
  covered := h
  stored := fun c hc => (given.committed c hc).1
  fits := by
    intro e he
    obtain ⟨run, place⟩ := given.entries e he
    rw [whole] at place
    exact ⟨run, place.1, fun c hc => (given.committed c hc).2 e he, place.2⟩

/-- After a snapshot everything begins with it: the log, and what is applied. -/
theorem Covered.restore [Machine μ] {s : Snapshot} (h : d.Covered) (offered : r.snapshot = some s)
    (given : r.Grounded d.shelf.log.last d.applied) (done : d.restore s = .ok d') :
    d'.Feeding r.entries r.committed := by
  obtain ⟨machine, -, rfl⟩ := restore_ok done
  obtain ⟨ahead, behind⟩ := given.snapshot s offered
  have inserted : d.shelf.snapshots.insert s = { latest := some s } :=
    Snapshots.insert_of_index_le (Nat.le_trans h.snapshot_le (Nat.le_of_lt ahead))
  refine ⟨?_, ?_, ?_⟩
  · constructor
    case offset_le =>
      change s.index ≤ (d.shelf.snapshots.insert s).index
      rw [inserted]
      exact Nat.le_refl s.index
    case snapshot_le =>
      change (d.shelf.snapshots.insert s).index ≤ s.index
      rw [inserted]
      exact Nat.le_refl s.index
    case applied_le => exact Nat.le_refl s.index
    case indexed => exact Log.indexed_reset s.index s.term
    case term =>
      intro t ht
      change t ∈ (d.shelf.snapshots.insert s).latest at ht
      rw [inserted] at ht
      obtain rfl := Option.some.inj ht
      exact if_pos rfl
  · exact fun c hc => Nat.le_of_lt (behind c hc)
  · intro e he
    obtain ⟨run, place⟩ := given.entries e he
    rw [offered] at place
    refine ⟨run, ?_, fun c hc => (given.committed c hc).2 e he, Nat.le_of_eq place⟩
    change s.index < e.index
    omega

theorem upholds_covered (κ μ ω : Type) [Core κ] [Machine μ] [Carrier ω] :
    Upholds ω (grounded κ μ) Covered Covered fun _ => Covered where
  always h := h
  atStop h := h
  alike := Covered.alike
  alike_always := Covered.alike
  alike_atStop := Covered.alike
  snapshot := Covered.takeSnapshot
  round {_ d r} core h given := by
    apply secures_round
      (I := fun d => d.Covered ∧ r.Grounded d.shelf.log.last d.applied)
      (J := Feeding r.entries) (K := Covered)
    case always =>
      exact ⟨fun _ h => h.1, fun _ _ h => h.covered, fun _ h => h, fun _ h => h⟩
    case alike =>
      intro d d' k
      refine ⟨fun ⟨h, given⟩ => ⟨h.alike k, ?_⟩, Covered.alike k⟩
      rw [k.shelf, k.applied]
      exact given
    case start => exact ⟨Covered.alike (d := d) ⟨rfl, rfl, rfl, rfl, rfl⟩ h, given⟩
    case keep => exact fun d whole h => h.1.begin whole h.2
    case restore =>
      intro s d offered h
      refine ⟨?_, fun d' done => h.1.restore offered h.2 done⟩
      intro setback refused
      obtain ⟨machine, -, left⟩ := restore_error refused
      rw [left]
      exact ⟨h.1, h.1⟩
    case apply => exact fun c es d d' h done => h.apply done
    case nothing => exact fun d _ h => h.covered
    case append =>
      intro d new h
      obtain ⟨d', done, covered⟩ := h.append new
      constructor
      · intro f refused
        rw [done] at refused
        cases refused
      · intro d'' done'
        rw [done] at done'
        cases done'
        exact covered
    case same => exact fun d _ h => h
    case hard => exact fun hs d _ h => ⟨h.offset_le, h.snapshot_le, h.applied_le, h.indexed, h.term⟩
  followup {_ d f} core h given := by
    have h : Covered { d with core } := Covered.alike (d := d) ⟨rfl, rfl, rfl, rfl, rfl⟩ h
    apply secures_followup
      (I := fun d => d.Covered ∧ ∀ c ∈ f.committed, c.index ≤ d.shelf.log.last)
      (J := Feeding [])
    case always => exact ⟨fun _ h => h.1, fun _ _ h => h.covered, fun _ h => h⟩
    case alike => exact fun d d' k => ⟨fun h => ⟨h.1.alike k, k.shelf ▸ h.2⟩, Covered.alike k⟩
    case before => exact h
    case same => exact fun _ => ⟨h, given⟩
    case commit =>
      exact fun c _ =>
        ⟨⟨h.offset_le, h.snapshot_le, h.applied_le, h.indexed, h.term⟩, given⟩
    case begin => exact fun d h => ⟨h.1, h.2, fun e he => by cases he⟩
    case apply => exact fun c es d d' h done => h.apply done
    case done => exact fun d h => h.covered

end Driver

namespace Engine

variable {κ μ ω : Type} [Core κ] [Machine μ] [Carrier ω]

/-- A node that began with empty stores can serve every follower, wherever that one's log ends,
in every state and even between two statements of an iteration: it has the entries, or a
snapshot and the entries behind it. No index is in neither. -/
theorem laggards_served {id : Nat} {settings : Settings} {core : κ} {machine : μ}
    {stable : Stable} {peers : Directory} {now : Nat} {w₀ : ω} {m : Moment κ μ ω Unit}
    (run : Reachable ((grounded κ μ).system ω)
      ⟨boot id settings core machine { stable } peers now, w₀, ()⟩ m) :
    let s := m.engine.driver.shelf
    (∀ n, 1 ≤ n → n ≤ s.log.last + 1 → s.SendsEntries n ∨ s.SendsSnapshot n) ∧
      ∀ i, 1 ≤ i → i ≤ s.log.last → s.log.first ≤ i ∨ ∃ t ∈ s.snapshots.latest, i ≤ t.index := by
  intro s
  have begun : (driverOf settings core machine { stable } peers now).Covered :=
    Shelf.covered_empty stable
  have covered := ((Driver.upholds_covered κ μ ω).reachable (.boot begun begun) run).always
  exact ⟨fun n pos inside => covered.serves pos inside, fun i pos _ => covered.holds pos⟩

/-- A follower drops two entries behind a snapshot and stores a third: who has nothing yet is
sent the snapshot. -/
theorem laggards_served_of_follower :
    let events := Sample.iteration [Sample.append 1 1, Sample.append 1 2] ++
      Sample.call .snapshot ++ Sample.iteration [Sample.append 1 3]
    let m := ((grounded Replica Recorder).system Station).play
      ⟨Sample.engine 1 Sample.shelf, default, ()⟩ events
    let s := m.engine.driver.shelf
    (s.log.offset = 2 ∧ s.log.last = 3) ∧ s.SendsSnapshot 1 := by
  intro events m s
  have bounds : s.log.offset = 2 ∧ s.log.last = 3 := by decide +kernel
  have run : Reachable ((grounded Replica Recorder).system Station) _ m :=
    System.reachable_play .start (by decide +kernel)
  have served := (laggards_served run).1 1 (Nat.le_refl 1)
  clear_value m
  have dropped : s.log.term 0 = .error .compacted := by
    rw [Log.term, if_neg (by omega), if_pos (by omega)]
  rcases served (by omega) with ⟨⟨term, known⟩, -⟩ | sends
  · rw [dropped] at known
    cases known
  · exact ⟨bounds, sends⟩

end Engine

end QuorumLab
