import QuorumLab.Entry
import QuorumLab.Failure

/-!
# The snapshot store

Only the latest snapshot is kept: it is the one a lagging follower is sent.
-/

namespace QuorumLab

structure Snapshots where
  latest : Option Snapshot := none
  deriving Repr, DecidableEq, Inhabited

namespace Snapshots

/-- Keep `s` unless a snapshot of a greater index is held. -/
def insert (store : Snapshots) (s : Snapshot) : Snapshots :=
  match store.latest with
  | some held => if held.index ≤ s.index then { latest := some s } else store
  | none => { latest := some s }

/-- Build a snapshot and offer it to the store; it is returned even when it is not kept. -/
def create (store : Snapshots) (index term : Nat) (membership : Membership) (data : Bytes) :
    Snapshot × Snapshots :=
  let s : Snapshot := { index, term, membership, data }
  (s, store.insert s)

/-- The latest snapshot, if it reaches `index`. -/
def covering (store : Snapshots) (index : Nat) : Except Refusal Snapshot :=
  match store.latest with
  | some held => if index ≤ held.index then .ok held else .error .snapshotNotReady
  | none => .error .snapshotNotReady

/-- Index of the latest snapshot, 0 if there is none. -/
def index (store : Snapshots) : Nat := (store.latest.map Snapshot.index).getD 0

end Snapshots

end QuorumLab
