import QuorumLab.Store.Log
import QuorumLab.Store.Stable
import QuorumLab.Store.Snapshots

/-!
# The shelf of one node

The three stores of a node together, with the questions a replica asks of them.
-/

namespace QuorumLab

structure Shelf where
  log : Log := {}
  stable : Stable := {}
  snapshots : Snapshots := {}
  deriving Repr, DecidableEq, Inhabited

namespace Shelf

/-- Entries `low, …, high - 1`, cut to one page of `limit` bytes. -/
def entries (s : Shelf) (low high : Nat) (limit : Option Nat) : Except Refusal (List Entry) :=
  (s.log.slice low high).map (page limit)

/-- The latest snapshot, if it reaches `index`. -/
def snapshot (s : Shelf) (index : Nat) : Except Refusal Snapshot := s.snapshots.covering index

end Shelf

end QuorumLab
