import Mathlib.Data.List.Basic
import Mathlib.Data.List.Induction
import QuorumLab.Proofs.Store.Indexed

/-!
# The snapshot on offer

Whatever is supplied to a snapshot store, taken here or received, in whatever order: it holds the
last of those that reach furthest. So what a follower can be offered never goes back.
-/

namespace QuorumLab.Snapshots

/-- A call that supplies a snapshot. -/
inductive Supply where
  | create (index term : Nat) (membership : Membership) (data : Bytes)
  | insert (s : Snapshot)
  deriving Repr, DecidableEq

def Supply.snapshot : Supply → Snapshot
  | create index term membership data => { index, term, membership, data }
  | insert s => s

def perform (store : Snapshots) : Supply → Snapshots
  | .create index term membership data => (store.create index term membership data).2
  | .insert s => store.insert s

/-- An empty store after some calls. -/
def after (calls : List Supply) : Snapshots := calls.foldl perform {}

/-- `s` is the last of those in `l` that have the greatest index. -/
def Furthest (l : List Snapshot) (s : Snapshot) : Prop :=
  ∃ before later, l = before ++ s :: later ∧
    (∀ t ∈ before, t.index ≤ s.index) ∧ ∀ t ∈ later, t.index < s.index

namespace Furthest

variable {l : List Snapshot} {s t : Snapshot}

theorem mem (h : Furthest l s) : s ∈ l := by
  obtain ⟨before, later, rfl, -, -⟩ := h
  exact List.mem_append_right before List.mem_cons_self

theorem index_le (h : Furthest l s) (ht : t ∈ l) : t.index ≤ s.index := by
  obtain ⟨before, later, rfl, upTo, below⟩ := h
  rcases List.mem_append.mp ht with ht | ht
  · exact upTo t ht
  · rcases List.mem_cons.mp ht with rfl | ht
    · exact Nat.le_refl _
    · exact Nat.le_of_lt (below t ht)

/-- One that reaches as far as all before takes their place. -/
theorem concat (h : ∀ t ∈ l, t.index ≤ s.index) : Furthest (l ++ [s]) s :=
  ⟨l, [], rfl, h, fun _ ht => absurd ht List.not_mem_nil⟩

/-- One that does not reach as far is passed over. -/
theorem concat_of_lt (h : Furthest l s) (short : t.index < s.index) : Furthest (l ++ [t]) s := by
  obtain ⟨before, later, rfl, upTo, below⟩ := h
  refine ⟨before, later ++ [t], by rw [List.append_assoc, List.cons_append], upTo, ?_⟩
  intro u hu
  rcases List.mem_append.mp hu with hu | hu
  · exact below u hu
  · exact List.mem_singleton.mp hu ▸ short

/-- None that reaches as far as `s` stands behind it. -/
theorem not_behind {before middle later : List Snapshot}
    (below : ∀ u ∈ middle ++ t :: later, u.index < s.index)
    (upTo : ∀ u ∈ before ++ s :: middle, u.index ≤ t.index) : False := by
  have short := below t (List.mem_append_right middle List.mem_cons_self)
  have reaches := upTo s (List.mem_append_right before List.mem_cons_self)
  omega

theorem unique (hs : Furthest l s) (ht : Furthest l t) : s = t := by
  obtain ⟨before, later, rfl, upTo, below⟩ := hs
  obtain ⟨before', later', same, upTo', below'⟩ := ht
  rcases List.append_eq_append_iff.mp same with ⟨middle, rfl, rest⟩ | ⟨middle, rfl, rest⟩
  · cases middle with
    | nil => exact (List.cons.inj rest).1
    | cons u middle =>
      obtain ⟨rfl, rfl⟩ := List.cons.inj rest
      exact (not_behind below upTo').elim
  · cases middle with
    | nil => exact (List.cons.inj rest).1.symm
    | cons u middle =>
      obtain ⟨rfl, rfl⟩ := List.cons.inj rest
      exact (not_behind below' upTo).elim

end Furthest

/-! ## What the store holds -/

variable {calls : List Supply} {s : Snapshot}

theorem perform_eq (store : Snapshots) (c : Supply) :
    store.perform c = store.insert c.snapshot := by
  cases c <;> rfl

theorem after_snoc (calls : List Supply) (c : Supply) :
    after (calls ++ [c]) = (after calls).insert c.snapshot :=
  (List.foldl_concat perform {} c calls).trans (perform_eq _ c)

/-- The induction is on the last call: a snapshot is kept if it reaches as far as the one held. -/
theorem holds_after (calls : List Supply) :
    match (after calls).latest with
    | none => calls = []
    | some s => Furthest (calls.map Supply.snapshot) s := by
  induction calls using List.reverseRecOn with
  | nil => rfl
  | append_singleton calls c ih =>
    rw [after_snoc, List.map_append, List.map_singleton]
    cases held : (after calls).latest with
    | none =>
      rw [held] at ih
      subst ih
      exact Furthest.concat fun t ht => absurd ht List.not_mem_nil
    | some s =>
      rw [held] at ih
      by_cases short : c.snapshot.index < s.index
      · rw [insert_of_lt held short, held]
        exact ih.concat_of_lt short
      · have reaches : ∀ s ∈ (after calls).latest, s.index ≤ c.snapshot.index := by
          intro t ht
          rw [held] at ht
          exact Option.some.inj ht ▸ Nat.not_lt.mp short
        rw [insert_of_le reaches]
        exact Furthest.concat fun t ht => Nat.le_trans (ih.index_le ht) (Nat.not_lt.mp short)

theorem latest_after_eq_none_iff : (after calls).latest = none ↔ calls = [] := by
  have holds := holds_after calls
  constructor
  · intro none
    rwa [none] at holds
  · rintro rfl
    rfl

theorem latest_after_eq_some_iff :
    (after calls).latest = some s ↔ Furthest (calls.map Supply.snapshot) s := by
  have holds := holds_after calls
  cases held : (after calls).latest with
  | none =>
    obtain rfl := latest_after_eq_none_iff.mp held
    constructor
    · intro h
      cases h
    · intro h
      exact absurd h.mem List.not_mem_nil
  | some t =>
    rw [held] at holds
    constructor
    · intro same
      exact Option.some.inj same ▸ holds
    · intro h
      rw [h.unique holds]

/-- However calls go on, the index of the snapshot that is held does not decrease. -/
theorem index_le_of_more (more : List Supply) (held : (after calls).latest = some s) :
    ∃ s', (after (calls ++ more)).latest = some s' ∧ s.index ≤ s'.index := by
  have supplied := (latest_after_eq_some_iff.mp held).mem
  cases later : (after (calls ++ more)).latest with
  | none =>
    obtain ⟨rfl, -⟩ := List.append_eq_nil_iff.mp (latest_after_eq_none_iff.mp later)
    cases held
  | some s' =>
    refine ⟨s', rfl, (latest_after_eq_some_iff.mp later).index_le ?_⟩
    rw [List.map_append]
    exact List.mem_append_left _ supplied

/-! ## What a follower is offered -/

theorem covering_eq_ok_iff {store : Snapshots} {request : Nat} :
    store.covering request = .ok s ↔ store.latest = some s ∧ request ≤ s.index := by
  unfold covering
  cases store.latest with
  | none => simp
  | some held =>
    by_cases reaches : request ≤ held.index
    · simp only [if_pos reaches, Except.ok.injEq, Option.some.injEq]
      constructor
      · rintro rfl
        exact ⟨rfl, reaches⟩
      · exact And.left
    · simp only [if_neg reaches, reduceCtorEq, Option.some.injEq, false_iff, not_and]
      rintro rfl
      exact reaches

theorem covering_eq_error_iff {store : Snapshots} {request : Nat} {f : Refusal} :
    store.covering request = .error f ↔
      f = .snapshotNotReady ∧ ∀ s ∈ store.latest, s.index < request := by
  unfold covering
  cases store.latest with
  | none => simp [eq_comm]
  | some held =>
    by_cases reaches : request ≤ held.index
    · simp [reaches]
    · simp [reaches, Nat.not_le.mp reaches, eq_comm]

/-- The store holds the last supplied of the snapshots of the greatest index, as it was supplied,
and none only before the first; so the index does not decrease. A snapshot that is created is given
back whether it is kept or not. Whatever else is on the shelf, a follower is offered what the store
holds, if that reaches as far as it asks for; once it is, it always will be. -/
theorem offers_never_go_back (calls : List Supply) :
    let store := after calls
    (∀ s, store.latest = some s ↔ Furthest (calls.map Supply.snapshot) s) ∧
    (store.latest = none ↔ calls = []) ∧
    (∀ more s, store.latest = some s →
      ∃ s', (after (calls ++ more)).latest = some s' ∧ s.index ≤ s'.index) ∧
    (∀ index term membership data, let s : Snapshot := { index, term, membership, data }
      ((∀ held ∈ store.latest, held.index ≤ index) →
        store.create index term membership data = (s, { latest := some s })) ∧
      ∀ held ∈ store.latest, index < held.index →
        store.create index term membership data = (s, store)) ∧
    ∀ log stable request, let shelf : Shelf := { log, stable, snapshots := store }
      (∀ s, shelf.snapshot request = .ok s ↔ store.latest = some s ∧ request ≤ s.index) ∧
      (∀ f, shelf.snapshot request = .error f ↔
        f = .snapshotNotReady ∧ ∀ s ∈ store.latest, s.index < request) ∧
      ∀ more log stable s, shelf.snapshot request = .ok s → ∃ s',
        Shelf.snapshot { log, stable, snapshots := after (calls ++ more) } request = .ok s' := by
  intro store
  refine ⟨fun s => latest_after_eq_some_iff, latest_after_eq_none_iff,
    fun more s => index_le_of_more more, ?_, ?_⟩
  · intro index term membership data s
    constructor
    · intro reaches
      rw [create, insert_of_le (s := s) reaches]
    · intro held latest short
      rw [create, insert_of_lt (s := s) latest short]
  · intro log stable request shelf
    refine ⟨fun s => covering_eq_ok_iff, fun f => covering_eq_error_iff, ?_⟩
    intro more log' stable' s given
    obtain ⟨held, reaches⟩ := covering_eq_ok_iff.mp given
    obtain ⟨s', later, further⟩ := index_le_of_more more held
    exact ⟨s', covering_eq_ok_iff.mpr ⟨later, Nat.le_trans reaches further⟩⟩

/-- Of four snapshots the second and the third reach furthest, and the third is held. A follower
that asks for the seventh index is offered it, one that asks for the eighth is not. -/
theorem offers_never_go_back_of_tie :
    let taken (index : Nat) (data : Bytes) : Supply := .create index 1 {} data
    let received : Snapshot := { index := 7, term := 2, membership := {}, data := [3] }
    let calls := [taken 3 [1], taken 7 [2], .insert received, taken 5 [4]]
    (after calls).latest = some received ∧
      Furthest (calls.map Supply.snapshot) received ∧
      Shelf.snapshot { snapshots := after calls } 7 = .ok received ∧
      Shelf.snapshot { snapshots := after calls } 8 = .error .snapshotNotReady := by
  intro taken received calls
  obtain ⟨latest, -, -, -, offered⟩ := offers_never_go_back calls
  have held : (after calls).latest = some received := by decide
  refine ⟨held, (latest received).mp held, ?_, ?_⟩
  · exact ((offered {} {} 7).1 received).mpr ⟨held, by decide⟩
  · refine ((offered {} {} 8).2.1 .snapshotNotReady).mpr ⟨rfl, ?_⟩
    intro s hs
    rw [held] at hs
    cases hs
    decide

end QuorumLab.Snapshots
