import Mathlib.Data.List.Basic
import Mathlib.Data.List.Induction
import QuorumLab.Store.Stable

/-!
# Votes and the terms they are stored with

A vote belongs to the term it was cast in, and a hard state that is set brings both. A restored
snapshot raises the term alone: the vote that is held then is read as one of the snapshot's term.
-/

namespace QuorumLab.Stable

/-- A call that changes a stable store. -/
inductive Call where
  | setHardState (hard : HardState)
  | setCommit (commit : Nat)
  | setMembership (membership : Membership)
  | restore (index term : Nat) (membership : Membership)
  deriving Repr, DecidableEq

def perform (s : Stable) : Call → Stable
  | .setHardState hard => s.setHardState hard
  | .setCommit commit => s.setCommit commit
  | .setMembership membership => s.setMembership membership
  | .restore index term membership => s.restore index term membership

/-- An empty store after some calls. -/
def after (calls : List Call) : Stable := calls.foldl perform {}

/-! ## What the calls say -/

namespace Call

/-- The hard state that a call sets. -/
def hard? : Call → Option HardState
  | setHardState hard => some hard
  | _ => none

/-- The term of the snapshot that a call restores. -/
def term? : Call → Option Nat
  | restore _ term _ => some term
  | _ => none

end Call

/-- The hard state that was set last, before any that of an empty store. -/
def lastSet (calls : List Call) : HardState := (calls.filterMap Call.hard?).getLast?.getD {}

/-- The terms of the snapshots that were restored since then, the latest first. -/
def termsSince (calls : List Call) : List Nat :=
  (calls.reverse.takeWhile fun c => c.hard?.isNone).filterMap Call.term?

variable {calls : List Call} {c : Call}

theorem after_snoc (calls : List Call) (c : Call) :
    after (calls ++ [c]) = (after calls).perform c := List.foldl_concat perform {} c calls

theorem lastSet_snoc (calls : List Call) (c : Call) :
    lastSet (calls ++ [c]) = c.hard?.getD (lastSet calls) := by
  cases sets : c.hard? with
  | none => simp [lastSet, sets]
  | some hard => simp [lastSet, sets]

theorem termsSince_snoc_of_set {hard : HardState} (sets : c.hard? = some hard) :
    termsSince (calls ++ [c]) = [] := by
  simp [termsSince, sets]

theorem termsSince_snoc (other : c.hard? = none) :
    termsSince (calls ++ [c]) = c.term?.toList ++ termsSince calls := by
  cases restores : c.term? <;> simp [termsSince, other, restores]

/-! ## The stored pair -/

theorem perform_of_set {s : Stable} {hard : HardState} (sets : c.hard? = some hard) :
    (s.perform c).hard = hard := by
  cases c with
  | setHardState h => exact Option.some.inj sets
  | setCommit | setMembership | restore => cases sets

/-- A call that sets no hard state leaves the vote, and raises the term to that of a snapshot. -/
theorem perform_of_other {s : Stable} (other : c.hard? = none) :
    (s.perform c).hard.vote = s.hard.vote ∧
      (s.perform c).hard.term = max s.hard.term (c.term?.getD 0) := by
  cases c with
  | setHardState => cases other
  | setCommit | setMembership => exact ⟨rfl, (Nat.max_zero _).symm⟩
  | restore => exact ⟨rfl, rfl⟩

theorem vote_after (calls : List Call) : (after calls).hard.vote = (lastSet calls).vote := by
  induction calls using List.reverseRecOn with
  | nil => rfl
  | append_singleton calls c ih =>
    rw [after_snoc, lastSet_snoc]
    cases sets : c.hard? with
    | some hard =>
      rw [perform_of_set sets]
      rfl
    | none => exact (perform_of_other sets).1.trans ih

/-- The stored term is the greatest of the one that was set last and those restored since. -/
theorem term_after (calls : List Call) :
    (after calls).hard.term ∈ (lastSet calls).term :: termsSince calls ∧
      ∀ t ∈ (lastSet calls).term :: termsSince calls, t ≤ (after calls).hard.term := by
  induction calls using List.reverseRecOn with
  | nil => simp [after, lastSet, termsSince]
  | append_singleton calls c ih =>
    obtain ⟨among, greatest⟩ := ih
    rw [after_snoc, lastSet_snoc]
    cases sets : c.hard? with
    | some hard =>
      rw [perform_of_set sets, termsSince_snoc_of_set sets]
      simp
    | none =>
      rw [(perform_of_other sets).2, termsSince_snoc sets]
      cases restores : c.term? with
      | none =>
        simp only [Option.getD_none, Nat.max_zero]
        exact ⟨among, greatest⟩
      | some t =>
        simp only [Option.getD_some, Option.toList_some, Option.getD_none, List.singleton_append,
          List.mem_cons, forall_eq_or_imp] at among greatest ⊢
        obtain ⟨set, restored⟩ := greatest
        refine ⟨?_, by omega, by omega, fun u hu => Nat.le_trans (restored u hu) (by omega)⟩
        rcases Nat.le_total t (after calls).hard.term with old | later
        · rw [Nat.max_eq_left old]
          exact among.imp_right Or.inr
        · rw [Nat.max_eq_right later]
          exact Or.inr (Or.inl rfl)

/-- A call keeps a vote, but in a later term than before. -/
def CarriesOver (s : Stable) (c : Call) : Prop :=
  c.hard? = none ∧ (s.perform c).hard.vote ≠ 0 ∧ s.hard.term < (s.perform c).hard.term

theorem carriesOver_iff {s : Stable} : s.CarriesOver c ↔
    s.hard.vote ≠ 0 ∧ ∃ index term membership, c = .restore index term membership ∧
      s.hard.term < term := by
  cases c with
  | setHardState => simp [CarriesOver, Call.hard?]
  | setCommit | setMembership => simp [CarriesOver, perform, setCommit, setMembership]
  | restore index term membership =>
    have raised : s.hard.term < max s.hard.term term ↔ s.hard.term < term := by omega
    simp [CarriesOver, Call.hard?, perform, restore, raised]

/-- After any calls the stored vote is the one that was set last, and the stored term the greatest
of the one set with it and those of the snapshots restored since. So a vote is in the term it was
set with until a snapshot of a later term is restored, and no other call carries it over. A
restored snapshot never lowers the term. -/
theorem vote_in_its_term_iff (calls : List Call) :
    let s := after calls
    let cast := lastSet calls
    s.hard.vote = cast.vote ∧
    (s.hard.term ∈ cast.term :: termsSince calls ∧
      ∀ t ∈ cast.term :: termsSince calls, t ≤ s.hard.term) ∧
    ((s.hard.vote ≠ 0 → (s.hard.term, s.hard.vote) = (cast.term, cast.vote)) ↔
      cast.vote = 0 ∨ ∀ t ∈ termsSince calls, t ≤ cast.term) ∧
    (∀ c, s.CarriesOver c ↔ s.hard.vote ≠ 0 ∧ ∃ index term membership,
      c = .restore index term membership ∧ s.hard.term < term) ∧
    ∀ index term membership, s.hard.term ≤ (s.restore index term membership).hard.term := by
  intro s cast
  have vote : s.hard.vote = cast.vote := vote_after calls
  obtain ⟨among, greatest⟩ := term_after calls
  have same : s.hard.term = cast.term ↔ ∀ t ∈ termsSince calls, t ≤ cast.term := by
    constructor
    · intro same t ht
      exact same ▸ greatest t (List.mem_cons_of_mem _ ht)
    · intro old
      rcases List.mem_cons.mp among with set | restored
      · exact set
      · exact Nat.le_antisymm (old _ restored) (greatest _ List.mem_cons_self)
  refine ⟨vote, ⟨among, greatest⟩, ?_, fun c => carriesOver_iff, fun _ _ _ => Nat.le_max_left _ _⟩
  rw [Prod.mk.injEq, vote, ← same]
  by_cases none : cast.vote = 0
  · simp [none]
  · simp [none]

/-- A vote for the first node is stored in the second term; then a snapshot of the fifth is
restored, and the vote is held as one of the fifth term. -/
theorem vote_in_its_term_iff_of_later_snapshot :
    let set : Call := .setHardState { term := 2, vote := 1, commit := 3 }
    let later : Call := .restore 10 5 { voters := [1, 2, 3] }
    (after [set]).CarriesOver later ∧ (after [set, later]).hard.vote ≠ 0 ∧
      ((after [set, later]).hard.term, (after [set, later]).hard.vote) ≠ (2, 1) := by
  intro set later
  obtain ⟨-, -, -, carries, -⟩ := vote_in_its_term_iff [set]
  obtain ⟨-, -, whole, -, -⟩ := vote_in_its_term_iff [set, later]
  refine ⟨(carries later).mpr ⟨by decide, 10, 5, _, rfl, by decide⟩, by decide, ?_⟩
  intro same
  have kept := whole.mp fun _ => same
  revert kept
  decide

end QuorumLab.Stable
