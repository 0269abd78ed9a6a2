import QuorumLab.Entry
import QuorumLab.Failure

/-!
# The log store

A log keeps a contiguous run of entries and, for the place just before the first
of them, an index and a term: the point up to which it was compacted. What lies
below that point is `compacted`, what lies past the tail is `unavailable`.
-/

namespace QuorumLab

/-- Entries `offset + 1, offset + 2, …`, and the term of the entry at `offset`. -/
structure Log where
  offset : Nat := 0
  offsetTerm : Nat := 0
  entries : List Entry := []
  deriving Repr, DecidableEq, Inhabited

namespace Log

/-- Why an edit of a log was refused. -/
inductive Refused where
  | overwrites (index first : Nat)
  | gap (last index : Nat)
  | beyond (index last : Nat)
  deriving Repr, DecidableEq, Inhabited

def Refused.message : Refused → String
  | overwrites index first => s!"overwriting compacted entry {index} (first index {first})"
  | gap last index => s!"gap in log: last index {last}, appending {index}"
  | beyond index last => s!"compacting to {index} beyond last index {last}"

/-- The refusal as an engine reports it. -/
def Refused.failure (r : Refused) : Failure := .storage r.message

def first (l : Log) : Nat := l.offset + 1

/-- Index of the last entry, or of the compaction point when there is none. -/
def last (l : Log) : Nat := l.offset + l.entries.length

def length (l : Log) : Nat := l.entries.length

def isEmpty (l : Log) : Bool := l.length == 0

def term (l : Log) (index : Nat) : Except Refusal Nat :=
  if index = l.offset then .ok l.offsetTerm
  else if index < l.offset then .error .compacted
  else match l.entries[index - l.first]? with
    | some e => .ok e.term
    | none => .error .unavailable

/-- Entries `low, …, high - 1`. -/
def slice (l : Log) (low high : Nat) : Except Refusal (List Entry) :=
  if low < l.first then .error .compacted
  else if l.last + 1 < high ∨ high < low then .error .unavailable
  else .ok ((l.entries.drop (low - l.first)).take (high - low))

/-- Put `batch` in place of everything from its first index on. Only that index is
looked at; it may neither leave a gap nor touch compacted history. -/
def append (l : Log) (batch : List Entry) : Except Refused Log :=
  match batch with
  | [] => .ok l
  | e :: _ =>
    if e.index < l.first then .error (.overwrites e.index l.first)
    else if l.last + 1 < e.index then .error (.gap l.last e.index)
    else .ok { l with entries := l.entries.take (e.index - l.first) ++ batch }

/-- Drop the entries below `index`; the one just before it becomes the compaction point. -/
def compact (l : Log) (index : Nat) : Except Refused Log :=
  if index ≤ l.first then .ok l
  else match l.entries[index - l.first - 1]? with
    | none => .error (.beyond index l.last)
    | some e => .ok
      { offset := index - 1, offsetTerm := e.term, entries := l.entries.drop (index - l.first) }

/-- The empty log that starts after `index`. -/
def reset (index term : Nat) : Log := { offset := index, offsetTerm := term }

end Log

end QuorumLab
