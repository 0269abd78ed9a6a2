import QuorumLab.Engine.Basic
import QuorumLab.Network.Directory
import QuorumLab.Replica.Start

/-!
# Starting an engine

An engine is started over the shelf of its node. If that knows no membership yet, the
node and its peers become it, before anything else that could fail is tried.
-/

namespace QuorumLab

/-- How a protocol begins over a shelf: with a core, or with the reason why there is none. -/
abbrev Genesis (κ : Type) := ReplicaSettings → Shelf → Except Fault (Except Failure κ)

namespace Engine

variable {κ μ : Type} [Machine μ]

/-- Record the node and its peers as the members, unless members are recorded already. -/
def recordMembers (id : Nat) (peers : Directory) (s : Shelf) : Shelf :=
  if s.stable.initialized then s
  else
    let voters := (peers.ids ++ [id]).mergeSort fun a b => decide (a ≤ b)
    { s with stable := s.stable.setMembership { voters } }

/-- Why an engine cannot be started at all under this id and directory. -/
def misfit? (id : Nat) (peers : Directory) : Option Failure :=
  if id = 0 then some (.config "node id must be non-zero")
  else if peers.ids.contains id then some (.config s!"node {id} lists itself as a peer")
  else none

/-- The driver of a protocol that was started at `now`. Its machine holds nothing yet, though
everything up to the latest snapshot counts as applied. -/
def driverOf [Core κ] (settings : Settings) (core : κ) (machine : μ) (shelf : Shelf)
    (peers : Directory) (now : Nat) : Driver κ μ :=
  let applied := shelf.snapshots.index
  let d : Driver κ μ :=
    { settings, core, machine := { machine }, shelf
      addresses := (peers.map fun p => (p.id, p.address)).reverse
      applied, lastSnapshot := applied, lastCheck := now, nextTick := now + settings.tick }
  d.publish

/-- The engine around that driver, before anything has happened to it. -/
def boot [Core κ] (id : Nat) (settings : Settings) (core : κ) (machine : μ) (shelf : Shelf)
    (peers : Directory) (now : Nat) : Engine κ μ :=
  { id, loop := { driver := driverOf settings core machine shelf peers now } }

/-- The clock counts seconds in a signed word: it cannot tell moments from here on. -/
def horizon : Nat := Nat.pow 2 63 * Span.second

/-- Start an engine whose protocol begins so. The shelf is returned as well: a failed start may
have changed it. -/
def startBy [Core κ] (genesis : Genesis κ) (id : Nat) (settings : Settings) (machine : μ)
    (shelf : Shelf) (peers : Directory) (now : Nat) :
    Except Fault (Except Failure (Engine κ μ)) × Shelf :=
  match misfit? id peers with
  | some failure => (.ok (.error failure), shelf)
  | none =>
    let shelf := recordMembers id peers shelf
    let started := do
      match ← settings.toReplica id shelf.snapshots.index with
      | .error failure => return .error failure
      | .ok replica =>
        match ← genesis replica shelf with
        | .error failure => return .error failure
        | .ok core =>
          if horizon ≤ now + settings.tick then
            throw .instantOverflow
          return .ok (boot id settings core machine shelf peers now)
    (started, shelf)

def start (id : Nat) (settings : Settings) (machine : μ) (shelf : Shelf) (peers : Directory)
    (now : Nat) : Except Fault (Except Failure (Engine Replica μ)) × Shelf :=
  startBy Replica.start id settings machine shelf peers now

end Engine

end QuorumLab
