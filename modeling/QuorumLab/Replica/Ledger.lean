import QuorumLab.Replica.Tail
import QuorumLab.Store.Shelf
import QuorumLab.Word

/-!
# The log as a replica sees it

The stored log continued by the unstored tail, with three marks: how far it is
committed, how far it is known to be stored, and how far it is applied. The stored
part belongs to the driver, so every question takes the shelf it is asked about.
-/

namespace QuorumLab

structure Ledger where
  tail : Tail := {}
  committed : Nat := 0
  persisted : Nat := 0
  applied : Nat := 0
  deriving Repr, DecidableEq, Inhabited

namespace Ledger

/-- The ledger of a replica that starts over this shelf. The place after the stored log has
to be a word; from then on that of the whole log stays one. -/
def ofShelf (s : Shelf) : Except Fault Ledger := do
  let _ ← Word.sum s.log.first
  let offset ← Word.succ s.log.last
  return {
    tail := { offset }
    committed := s.log.first - 1
    persisted := s.log.last
    applied := s.log.first - 1 }

def first (l : Ledger) (s : Shelf) : Nat := l.tail.first?.getD s.log.first

def last (l : Ledger) (s : Shelf) : Nat := l.tail.last?.getD s.log.last

/-- The term at `index`; outside the log it is 0. -/
def term (l : Ledger) (s : Shelf) (index : Nat) : Except Refusal Nat :=
  if index < l.first s - 1 ∨ l.last s < index then .ok 0
  else match l.tail.term? index with
    | some t => .ok t
    | none => s.log.term index

def matchesTerm (l : Ledger) (s : Shelf) (index term : Nat) : Bool :=
  match l.term s index with
  | .ok t => t == term
  | .error _ => false

/-- The term at an index that has to be in the log. -/
def knownTerm (l : Ledger) (s : Shelf) (index : Nat) : Except Fault Nat :=
  match l.term s index with
  | .ok t => .ok t
  | .error _ => .error (.breach (.rule "the term of a log entry is missing"))

def lastTerm (l : Ledger) (s : Shelf) : Except Fault Nat := l.knownTerm s (l.last s)

/-- The commit index and the term there. -/
def commitInfo (l : Ledger) (s : Shelf) : Except Fault (Nat × Nat) :=
  (l.knownTerm s l.committed).map (l.committed, ·)

/-- Whether a log that ends with this index and term is at least as complete as this one. -/
def isUpToDate (l : Ledger) (s : Shelf) (index term : Nat) : Except Fault Bool :=
  (l.lastTerm s).map fun own => decide (own < term) || (term == own && decide (l.last s ≤ index))

/-- The first entry that is not in the log already, 0 if there is none. -/
def firstConflict (l : Ledger) (s : Shelf) (batch : List Entry) : Nat :=
  match batch.find? fun e => !l.matchesTerm s e.index e.term with
  | some e => e.index
  | none => 0

/-- The greatest index from `index` down whose term is not above `term`, with its term;
the term is `none` when it cannot be told. -/
def lastAtMost (l : Ledger) (s : Shelf) (term : Nat) : Nat → Except Fault (Nat × Option Nat)
  | 0 =>
    match l.term s 0 with
    | .ok t => if term < t then .error (.overflow .subtract) else .ok (0, some t)
    | .error _ => .ok (0, none)
  | index + 1 =>
    match l.term s (index + 1) with
    | .ok t => if term < t then l.lastAtMost s term index else .ok (index + 1, some t)
    | .error _ => .ok (index + 1, none)

/-- Where a log that rejected an append at `index` may agree with a log whose entry there
has this `term`. -/
def conflictByTerm (l : Ledger) (s : Shelf) (index term : Nat) :
    Except Fault (Nat × Option Nat) :=
  if l.last s < index then .ok (index, none) else l.lastAtMost s term index

/-- Raise the commit index; it never goes back and never passes the last entry. -/
def commitTo (l : Ledger) (s : Shelf) (index : Nat) : Except Fault Ledger :=
  if index ≤ l.committed then .ok l
  else if l.last s < index then .error (.breach (.rule "commit index beyond the log"))
  else .ok { l with committed := index }

/-- Commit `index` if the entry there is of this term and not committed yet. -/
def maybeCommit (l : Ledger) (s : Shelf) (index term : Nat) : Except Fault (Bool × Ledger) :=
  if l.committed < index ∧ l.matchesTerm s index term then
    (l.commitTo s index).map (true, ·)
  else .ok (false, l)

/-- Append a batch after the committed part. The place after the log remains a word. -/
def append (l : Ledger) (batch : List Entry) : Except Fault Ledger :=
  match batch with
  | [] => .ok l
  | e :: _ => do
    let after ← Word.minus e.index 1
    if after < l.committed then
      throw (.breach (.rule "append below the commit index"))
    let tail ← l.tail.splice e.index batch
    let _ ← Word.sum tail.upper
    return { l with tail }

/-- Accept the entries that follow `index` at `term`, if the log has that place: the last
index they reach, and the ledger with what was new. -/
def maybeAppend (l : Ledger) (s : Shelf) (index term committed : Nat) (batch : List Entry) :
    Except Fault (Option Nat × Ledger) := do
  if !l.matchesTerm s index term then
    return (none, l)
  let conflict := l.firstConflict s batch
  let l ←
    if conflict = 0 then pure l
    else if conflict ≤ l.committed then
      throw (.breach (.rule "conflict with a committed entry"))
    else do
      let start ← Word.minus conflict (← Word.succ index)
      if batch.length < start then
        throw (.outOfBounds batch.length start)
      let l ← l.append (batch.drop start)
      pure { l with persisted := min l.persisted (conflict - 1) }
  let reached ← Word.sum (index + batch.length)
  let l ← l.commitTo s (min committed reached)
  return (some reached, l)

/-- Entries `low, …, high - 1` in one page. `low` may have been compacted away; all else
about the bounds is the caller's promise. -/
def slice (l : Ledger) (s : Shelf) (low high : Nat) (limit : Option Nat) :
    Except Fault (Except Refusal (List Entry)) := do
  if high < low then
    throw (.breach (.rule "slice with its ends exchanged"))
  if low < l.first s then
    return .error .compacted
  if l.last s + 1 < high then
    throw (.breach (.rule "slice beyond the log"))
  if low = high then
    return .ok []
  let offset := l.tail.offset
  let stored := if low < offset then s.entries low (min high offset) limit else .ok []
  match stored with
  | .error .compacted => return .error .compacted
  | .error _ => throw (.breach (.rule "stored entries are missing"))
  | .ok entries =>
    if low < offset ∧ entries.length < min high offset - low then
      return .ok entries
    if offset < high then
      let unstored ← l.tail.slice (max low offset) high
      return .ok (page limit (entries ++ unstored))
    return .ok (page limit entries)

/-- One page of the entries from `index` on. -/
def entriesFrom (l : Ledger) (s : Shelf) (index : Nat) (limit : Option Nat) :
    Except Fault (Except Refusal (List Entry)) :=
  if l.last s < index then .ok (.ok []) else l.slice s index (l.last s + 1) limit

/-- One more than the last index that may be applied. -/
def applicable (l : Ledger) : Nat := min l.committed l.persisted + 1

def hasNextSince (l : Ledger) (s : Shelf) (since : Nat) : Except Fault Bool := do
  return decide (max (← Word.succ since) (l.first s) < l.applicable)

/-- The committed and stored entries after `since`. -/
def nextSince (l : Ledger) (s : Shelf) (since : Nat) : Except Fault (List Entry) := do
  let low := max (← Word.succ since) (l.first s)
  if low < l.applicable then
    match ← l.slice s low l.applicable none with
    | .ok entries => return entries
    | .error _ => throw (.breach (.rule "committed entries are missing"))
  return []

/-- The entries up to `index` have been applied. -/
def appliedTo (l : Ledger) (id index : Nat) : Except Fault Ledger :=
  if index = 0 then .ok l
  else if min l.committed l.persisted < index ∨ index < l.applied then
    .error (.breach (.appliedOutOfRange index l.applied l.committed l.persisted id))
  else .ok { l with applied := index }

/-- The pending snapshot, else the stored one. -/
def snapshot (l : Ledger) (s : Shelf) : Except Refusal Snapshot :=
  match l.tail.snapshot with
  | some held => .ok held
  | none => s.snapshot 0

/-- The entries up to `index`, the last one at `term`, have been stored. -/
def persistEntries (l : Ledger) (s : Shelf) (index term : Nat) : Bool × Ledger :=
  let updated := (l.tail.snapshot.map Snapshot.index).getD l.tail.offset
  let stored := match s.log.term index with
    | .ok t => t == term
    | .error _ => false
  if decide (l.persisted < index) && decide (index < updated) && stored then
    (true, { l with persisted := index })
  else (false, l)

/-- The snapshot at `index` has been stored. -/
def persistSnapshot (l : Ledger) (index : Nat) : Except Fault Ledger :=
  if index ≤ l.persisted then .ok l
  else if l.committed < index ∨ l.tail.offset ≤ index then
    .error (.breach (.rule "stored snapshot beyond the committed log"))
  else .ok { l with persisted := index }

/-- Start again after a snapshot, which is committed by that. -/
def restore (l : Ledger) (snap : Snapshot) : Except Fault Ledger := do
  let _ ← Word.succ snap.index
  return { l with
    persisted := min l.persisted l.committed, committed := snap.index, tail := Tail.restore snap }

end Ledger

end QuorumLab
