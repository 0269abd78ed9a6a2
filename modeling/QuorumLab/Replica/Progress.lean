import QuorumLab.Replica.Ledger

/-!
# What a leader knows about one member

A member is probed with one append at a time until it acknowledges, then it is
replicated to with up to `window` appends in flight, and while a snapshot is on its
way to it nothing else is sent.
-/

namespace QuorumLab

inductive Pace where
  | probe | replicate | snapshot
  deriving Repr, DecidableEq, Inhabited

structure Progress where
  /-- The greatest index the member is known to hold. -/
  matched : Nat := 0
  /-- The next index to send to it. -/
  next : Nat := 0
  pace : Pace := .probe
  paused : Bool := false
  pendingSnapshot : Nat := 0
  recentlyActive : Bool := false
  /-- The last index of every append in flight, in order. -/
  inflight : List Nat := []
  window : Nat := 0
  deriving Repr, DecidableEq, Inhabited

namespace Progress

def full (p : Progress) : Bool := decide (p.window ≤ p.inflight.length)

def isPaused (p : Progress) : Bool :=
  match p.pace with
  | .probe => p.paused
  | .replicate => p.full
  | .snapshot => true

def setPace (p : Progress) (pace : Pace) : Progress :=
  { p with pace, paused := false, pendingSnapshot := 0, inflight := [] }

/-- Probe from what is known, or from the snapshot that was sent. -/
def probe (p : Progress) : Progress :=
  let next :=
    if p.pace = .snapshot then max (p.matched + 1) (p.pendingSnapshot + 1) else p.matched + 1
  { p.setPace .probe with next }

def replicate (p : Progress) : Progress := { p.setPace .replicate with next := p.matched + 1 }

def awaitSnapshot (p : Progress) (index : Nat) : Progress :=
  { p.setPace .snapshot with pendingSnapshot := index }

/-- Forget everything; the next entry to send is the one after `last`. -/
def reset (p : Progress) (last : Nat) : Progress := { next := last + 1, window := p.window }

/-- The member holds everything up to `index`: whether that is news. -/
def acknowledge (p : Progress) (index : Nat) : Except Fault (Bool × Progress) := do
  let after ← Word.succ index
  let news := decide (p.matched < index)
  let p := if news then { p with matched := index, paused := false } else p
  return (news, { p with next := max p.next after })

/-- The member rejected the append after `index`, hinting at an earlier place: whether the
rejection is not stale. -/
def stepBack (p : Progress) (index hint : Nat) : Except Fault (Bool × Progress) :=
  match p.pace with
  | .replicate =>
    if index ≤ p.matched then .ok (false, p) else .ok (true, { p with next := p.matched + 1 })
  | _ =>
    if p.next = 0 ∨ p.next - 1 ≠ index then .ok (false, p)
    else do
      let after ← Word.succ hint
      return (true, { p with next := max 1 (min index after), paused := false })

/-- Entries up to `last` were sent. -/
def sent (p : Progress) (last : Nat) : Except Fault Progress :=
  match p.pace with
  | .probe => .ok { p with paused := true }
  | .replicate => (Word.succ last).map fun next => { p with next, inflight := p.inflight ++ [last] }
  | .snapshot => .error (.breach (.rule "entries sent while a snapshot is on its way"))

/-- Appends up to `index` have arrived. -/
def free (p : Progress) (index : Nat) : Progress :=
  { p with inflight := p.inflight.dropWhile (decide <| · ≤ index) }

/-- The first append in flight has arrived. -/
def freeFirst (p : Progress) : Progress :=
  match p.inflight with
  | [] => p
  | index :: _ => p.free index

end Progress

end QuorumLab
