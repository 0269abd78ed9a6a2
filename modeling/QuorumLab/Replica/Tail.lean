import QuorumLab.Entry
import QuorumLab.Failure
import QuorumLab.Word

/-!
# The unstored tail of a replica's log

What a replica has accepted but its driver has not stored yet: entries from
`offset` on, and possibly a snapshot that comes before them.
-/

namespace QuorumLab

structure Tail where
  snapshot : Option Snapshot := none
  offset : Nat := 0
  entries : List Entry := []
  deriving Repr, DecidableEq, Inhabited

namespace Tail

/-- One more than the last index held. -/
def upper (t : Tail) : Nat := t.offset + t.entries.length

/-- The first index after the pending snapshot. -/
def first? (t : Tail) : Option Nat := t.snapshot.map (·.index + 1)

/-- The last index that the tail itself knows. -/
def last? (t : Tail) : Option Nat :=
  if t.entries.isEmpty then t.snapshot.map (·.index) else some (t.upper - 1)

/-- The term at `index`, if the tail itself knows it. -/
def term? (t : Tail) (index : Nat) : Option Nat :=
  if index < t.offset then
    match t.snapshot with
    | some s => if index = s.index then some s.term else none
    | none => none
  else (t.entries[index - t.offset]?).map Entry.term

/-- Entries `low, …, high - 1`, which have to be in the tail. -/
def slice (t : Tail) (low high : Nat) : Except Fault (List Entry) :=
  if high < low ∨ low < t.offset ∨ t.upper < high then
    .error (.breach (.rule "slice out of the unstored tail"))
  else .ok ((t.entries.drop (low - t.offset)).take (high - low))

/-- Put `batch` in place of everything from `start` on. -/
def splice (t : Tail) (start : Nat) (batch : List Entry) : Except Fault Tail :=
  if start = t.upper then .ok { t with entries := t.entries ++ batch }
  else if start ≤ t.offset then .ok { t with offset := start, entries := batch }
  else if t.upper < start then .error (.breach (.rule "slice out of the unstored tail"))
  else .ok { t with entries := t.entries.take (start - t.offset) ++ batch }

/-- The entries up to the last one, of this index and term, have been stored. -/
def entriesStored (t : Tail) (index term : Nat) : Except Fault Tail :=
  if t.snapshot.isSome then .error (.breach (.rule "entries stored before the snapshot"))
  else match t.entries.getLast? with
    | some e =>
      if e.index = index ∧ e.term = term then
        (Word.succ index).map fun offset => { t with offset, entries := [] }
      else .error (.breach (.rule "the last stored entry is not the last of the tail"))
    | none => .error (.breach (.rule "no entries to store"))

/-- The snapshot of this index has been stored. -/
def snapshotStored (t : Tail) (index : Nat) : Except Fault Tail :=
  match t.snapshot with
  | some s =>
    if s.index = index then .ok { t with snapshot := none }
    else .error (.breach (.rule "the stored snapshot is not the pending one"))
  | none => .error (.breach (.rule "no snapshot to store"))

/-- Start again after a snapshot. -/
def restore (s : Snapshot) : Tail := { snapshot := some s, offset := s.index + 1 }

end Tail

end QuorumLab
