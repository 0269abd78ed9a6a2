import QuorumLab.Store.Log
import QuorumLab.Word

/-!
# The log store behind its lock

The same log as its callers meet it. Its indexes are words: a call that has to name one
past the largest word is a fault. A fault in the middle of an edit leaves the log
unusable, so that every later call is a fault as well.
-/

namespace QuorumLab

structure LockedLog where
  log : Log := {}
  /-- Whether an edit has ended in a fault. -/
  poisoned : Bool := false
  deriving Repr, DecidableEq, Inhabited

namespace LockedLog

def unlock (s : LockedLog) : Except Fault Log :=
  if s.poisoned then .error .poisoned else .ok s.log

/-! ## Reading -/

def first (s : LockedLog) : Except Fault Nat := do Word.sum (← s.unlock).first

def last (s : LockedLog) : Except Fault Nat := do Word.sum (← s.unlock).last

def length (s : LockedLog) : Except Fault Nat := return (← s.unlock).length

def isEmpty (s : LockedLog) : Except Fault Bool := return (← s.unlock).isEmpty

/-- The place after the last entry has to be a word once `index` is not below the first. -/
def bounded (l : Log) (index : Nat) : Except Fault Unit := do
  let first ← Word.sum l.first
  if first ≤ index then
    let _ ← Word.sum (l.last + 1)

/-- The last index has to be a word once `index` lies past the compaction point. -/
def term (s : LockedLog) (index : Nat) : Except Fault (Except Refusal Nat) := do
  let l ← s.unlock
  if l.offset < index then
    let _ ← Word.sum l.last
  return l.term index

/-- Entries `low, …, high - 1`. -/
def slice (s : LockedLog) (low high : Nat) : Except Fault (Except Refusal (List Entry)) := do
  let l ← s.unlock
  bounded l low
  return l.slice low high

/-- Entries `low, …, high - 1`, cut to one page of `limit` bytes. -/
def paged (s : LockedLog) (low high : Nat) (limit : Option Nat) :
    Except Fault (Except Refusal (List Entry)) := do
  return (← s.slice low high).map (page limit)

/-- Every entry that is held. -/
def all (s : LockedLog) : Except Fault (Except Refusal (List Entry)) := do
  s.slice (← s.first) (← Word.succ (← s.last))

/-! ## Editing -/

/-- Edit the log under its lock: what was refused changes nothing, and a fault poisons. -/
def edit (s : LockedLog) (change : Log → Except Fault (Except Log.Refused Log)) :
    Except Fault (Except Log.Refused Unit) × LockedLog :=
  match s.unlock >>= change with
  | .error fault => (.error fault, { s with poisoned := true })
  | .ok (.error refused) => (.ok (.error refused), s)
  | .ok (.ok log) => (.ok (.ok ()), { s with log })

/-- Put `batch` in place of everything from its first index on. The lock is left alone when
there is nothing to append. -/
def append (s : LockedLog) (batch : List Entry) :
    Except Fault (Except Log.Refused Unit) × LockedLog :=
  match batch with
  | [] => (.ok (.ok ()), s)
  | e :: _ => s.edit fun l => do
    bounded l e.index
    return l.append batch

/-- Drop the entries below `index`. -/
def compact (s : LockedLog) (index : Nat) : Except Fault (Except Log.Refused Unit) × LockedLog :=
  s.edit fun l => do
    let first ← Word.sum l.first
    if first < index then
      let _ ← Word.sum (l.last + 1)
    return l.compact index

/-- Start the log again after `index`. -/
def reset (s : LockedLog) (index term : Nat) : Except Fault Unit × LockedLog :=
  match s.unlock with
  | .error fault => (.error fault, s)
  | .ok _ => (.ok (), { s with log := Log.reset index term })

end LockedLog

end QuorumLab
