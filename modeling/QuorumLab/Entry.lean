/-!
# Log entries, memberships and snapshots

The records that a replicated log is made of, as they are stored and sent.
-/

namespace QuorumLab

abbrev Bytes := List UInt8

/-- The largest 64-bit word; indexes, terms and sizes do not exceed it. -/
def maxWord : Nat := UInt64.size - 1

/-- What an entry is: a command, or a change of the membership in either of two forms. -/
inductive EntryKind where
  | normal | memberChange | memberChangeBatch
  deriving Repr, DecidableEq, Inhabited

/-- The number that stands for the kind on the wire. -/
def EntryKind.code : EntryKind → Nat
  | normal => 0
  | memberChange => 1
  | memberChangeBatch => 2

structure Entry where
  kind : EntryKind := .normal
  term : Nat := 0
  index : Nat := 0
  data : Bytes := []
  context : Bytes := []
  syncLog : Bool := false
  deriving Repr, DecidableEq, Inhabited

/-- The ids that vote and the ids that only learn, in the order they were given. -/
structure Membership where
  voters : List Nat := []
  learners : List Nat := []
  deriving Repr, DecidableEq, Inhabited

/-- The state of a machine after `index`, with the membership at that point. -/
structure Snapshot where
  index : Nat := 0
  term : Nat := 0
  membership : Membership := {}
  data : Bytes := []
  deriving Repr, DecidableEq, Inhabited

/-- What a replica must not forget: its term, the vote it cast in it, and its commit index. -/
structure HardState where
  term : Nat := 0
  vote : Nat := 0
  commit : Nat := 0
  deriving Repr, DecidableEq, Inhabited

namespace Entry

/-- Bytes of a number in base 128, at least one. -/
def varintSize (n : Nat) : Nat :=
  if _h : n < 128 then 1 else 1 + varintSize (n / 128)
termination_by n

/-- Bytes of a numeric field: none for zero, else a tag and the number. -/
def numberSize (n : Nat) : Nat := if n = 0 then 0 else 1 + varintSize n

/-- Bytes of a byte-string field: none if empty, else a tag, the length and the bytes. -/
def bytesSize (b : Bytes) : Nat :=
  if b = [] then 0 else 1 + varintSize b.length + b.length

/-- Bytes of the entry as it is written on the wire. -/
def size (e : Entry) : Nat :=
  numberSize e.kind.code + numberSize e.term + numberSize e.index + bytesSize e.data +
    bytesSize e.context + if e.syncLog then 2 else 0

end Entry

/-- The longest run of entries whose sizes, on top of `used`, stay within `limit`; while
nothing is used yet an entry is taken whatever its size. -/
def takePage (limit : Nat) : Nat → List Entry → List Entry
  | _, [] => []
  | used, e :: rest =>
    let total := used + e.size
    if used = 0 || total ≤ limit then e :: takePage limit total rest else []

/-- One page of entries: everything when there is no limit (or the largest word), else
as many as fit, but never cut below one entry. -/
def page (limit : Option Nat) (entries : List Entry) : List Entry :=
  match limit with
  | none => entries
  | some max =>
    if entries.length ≤ 1 || max = maxWord then entries else takePage max 0 entries

end QuorumLab
