import QuorumLab.Engine.Core
import QuorumLab.Machine.Basic
import QuorumLab.Network.Carrier
import QuorumLab.Settings

/-!
# The driver of an engine

A driver owns a node's protocol state, its machine and its shelf. It takes commands from
its handle and messages from its peers, stores and applies what the protocol hands out,
takes snapshots, and publishes what an observer may see. Each operation here is one
statement of its loop.
-/

namespace QuorumLab

/-- The role of a node as its driver last published it. -/
inductive State where
  | follower | candidate | leader | shutdown
  deriving Repr, DecidableEq, Inhabited

namespace State

def ofRole : Role → State
  | .follower => follower
  | .candidate | .preCandidate => candidate
  | .leader => leader

def text : State → String
  | follower => "Follower"
  | candidate => "Candidate"
  | leader => "Leader"
  | shutdown => "Shutdown"

end State

/-- What an observer sees of a driver; leader 0 is none. -/
structure Published where
  state : State := .follower
  term : Nat := 0
  leader : Nat := 0
  applied : Nat := 0
  lastIndex : Nat := 0
  deriving Repr, DecidableEq, Inhabited

namespace Published

def leader? (p : Published) : Option Nat := if p.leader = 0 then none else some p.leader

end Published

/-- What a handle asks of its driver. The answer goes to the holder of the ticket. -/
inductive Command where
  | propose (ticket : Nat) (data : Bytes)
  | snapshot (ticket : Nat)
  | membership (ticket : Nat)
  | stop
  deriving Repr, DecidableEq, Inhabited

inductive Answer where
  | index (n : Nat)
  | membership (m : Membership)
  deriving Repr, DecidableEq, Inhabited

abbrev Outcome := Except Failure Answer

/-- A command that is answered when the entry it became is applied. -/
structure Proposal where
  term : Nat
  ticket : Nat
  deriving Repr, DecidableEq, Inhabited

/-- How an entry says that it is a command. -/
def commandMark : Bytes := [0x63, 0x6d, 0x64]

def Entry.isCommand (e : Entry) : Bool := e.kind == .normal && e.context == commandMark

structure Driver (κ μ : Type) where
  settings : Settings
  core : κ
  machine : Watched μ
  shelf : Shelf
  /-- Where each peer is reached. -/
  addresses : List (Nat × String)
  /-- The proposals under way, ascending by index. -/
  pending : List (Nat × Proposal) := []
  applied : Nat
  /-- Index of the last snapshot that was taken or restored. -/
  lastSnapshot : Nat
  /-- When the snapshot policy last looked. -/
  lastCheck : Nat
  nextTick : Nat
  role : Role := .follower
  published : Published := {}
  /-- Every answer given so far, oldest first. -/
  answers : List (Nat × Outcome) := []
  deriving Repr

namespace Driver

variable {κ μ ω : Type} [Core κ] [Machine μ] [Carrier ω]

def answer (d : Driver κ μ) (ticket : Nat) (o : Outcome) : Driver κ μ :=
  { d with answers := d.answers ++ [(ticket, o)] }

/-! ## Commands and messages -/

/-- Wait for the entry at `index`. Whoever waited for one there before is let go. -/
def enlist (d : Driver κ μ) (index : Nat) (p : Proposal) : Driver κ μ :=
  let before := d.pending.filter (·.1 < index)
  let after := d.pending.filter (index < ·.1)
  let d := match d.pending.lookup index with
    | some old => d.answer old.ticket (.error .shutdown)
    | none => d
  { d with pending := before ++ (index, p) :: after }

/-- Let every proposal under way fail. -/
def failPending (d : Driver κ μ) (f : Failure) : Driver κ μ :=
  { d with
    pending := []
    answers := d.answers ++ d.pending.map fun p => (p.2.ticket, .error f) }

/-- Only a leader proposes; anyone else names the leader it knows. -/
def propose (d : Driver κ μ) (ticket : Nat) (data : Bytes) : Except Fault (Driver κ μ) :=
  if Core.role d.core ≠ .leader then
    let leader := Core.leader d.core
    .ok (d.answer ticket (.error (.notLeader (if leader = 0 then none else some leader))))
  else match Core.propose d.shelf commandMark data d.core with
    | .error fault => .error fault
    | .ok (.error refusal, core) =>
      .ok (({ d with core } : Driver κ μ).answer ticket (.error (.raft refusal)))
    | .ok (.ok (), core) =>
      .ok (({ d with core } : Driver κ μ).enlist (Core.lastIndex core d.shelf)
        { term := Core.term core, ticket })

/-- Take in a message; one that the protocol refuses is dropped. -/
def receive (d : Driver κ μ) (m : Message) : Except Fault (Driver κ μ) :=
  (Core.step d.shelf m d.core).map fun (_, core) => { d with core }

/-- Send a message to its target. A peer without an address is skipped; the protocol is told
what could not be sent, and how a snapshot fared. -/
def send (d : Driver κ μ) (m : Message) (w : ω) : Except Fault (Driver κ μ × ω) :=
  match d.addresses.lookup m.target with
  | none => .ok (d, w)
  | some address => do
    let isSnapshot := m.kind == .snapshot
    match Carrier.send address m w with
    | (.ok (), w) =>
      let core ← if isSnapshot then Core.reportSnapshot d.shelf m.target true d.core
        else .ok d.core
      return ({ d with core }, w)
    | (.error _, w) =>
      let core ← Core.reportUnreachable d.shelf m.target d.core
      let core ← if isSnapshot then Core.reportSnapshot d.shelf m.target false core else .ok core
      return ({ d with core }, w)

/-! ## Applying and restoring -/

/-- The entry counts as applied, and who proposed it is answered: with its index, if it is
the entry of that term. -/
def noteApplied (d : Driver κ μ) (e : Entry) : Driver κ μ :=
  let d := { d with applied := e.index }
  match d.pending.lookup e.index with
  | none => d
  | some p =>
    let d := { d with pending := d.pending.filter (·.1 ≠ e.index) }
    if p.term = e.term then d.answer p.ticket (.ok (.index e.index))
    else d.answer p.ticket (.error .leadershipLost)

/-- Apply a committed entry, unless it lies below what is applied. Only commands reach the
machine. -/
def apply (d : Driver κ μ) (e : Entry) : Applied (Driver κ μ) :=
  if e.index ≤ d.applied then .done d
  else if e.isCommand then
    match d.machine.apply e.index e.data with
    | .done machine => .done (({ d with machine } : Driver κ μ).noteApplied e)
    | .held => .held
    | .fault f => .fault f
  else .done (d.noteApplied e)

/-- Put the machine and the shelf where a received snapshot says. If the machine refuses it,
nothing else is touched. -/
def restore (d : Driver κ μ) (s : Snapshot) : Except (Setback (Driver κ μ)) (Driver κ μ) :=
  match d.machine.restore s.data with
  | .ok machine => .ok
    { d with
      machine
      shelf := {
        log := Log.reset s.index s.term
        stable := d.shelf.stable.restore s.index s.term s.membership
        snapshots := d.shelf.snapshots.insert s }
      applied := s.index
      lastSnapshot := s.index }
  | .error setback => .error (setback.map fun machine => { d with machine })

/-- Store new entries. -/
def append (d : Driver κ μ) (batch : List Entry) : Except (Setback (Driver κ μ)) (Driver κ μ) :=
  match d.shelf.log.append batch with
  | .ok log => .ok { d with shelf := { d.shelf with log } }
  | .error refused => .error { failure := refused.failure, left := d }

def setStable (d : Driver κ μ) (f : Stable → Stable) : Driver κ μ :=
  { d with shelf := { d.shelf with stable := f d.shelf.stable } }

/-! ## Snapshots -/

/-- Take a snapshot at the applied index and drop the log behind it, except for the last
entries that stay for peers that lag a little. -/
def takeSnapshot (d : Driver κ μ) : Except Failure Nat × Driver κ μ :=
  if d.applied = 0 ∨ d.applied ≤ d.lastSnapshot then (.error .nothingNewToSnapshot, d)
  else match d.shelf.log.term d.applied with
    | .error refusal => (.error (.raft refusal), d)
    | .ok term => match d.machine.snapshot with
      | .error setback => (.error setback.failure, { d with machine := setback.left })
      | .ok (data, machine) =>
        let (_, snapshots) :=
          d.shelf.snapshots.create d.applied term d.shelf.stable.membership data
        let d := { d with
          machine, lastSnapshot := d.applied, shelf := { d.shelf with snapshots } }
        match d.shelf.log.compact (d.applied - d.settings.trailing + 1) with
        | .error refused => (.error refused.failure, d)
        | .ok log => (.ok d.applied, { d with shelf := { d.shelf with log } })

/-- The snapshot policy: once per interval it looks whether enough has been applied since
the last snapshot. A snapshot that fails is tried again the next time. -/
def checkPolicy (d : Driver κ μ) (now later : Nat) : Driver κ μ :=
  if now - d.lastCheck < d.settings.snapshotInterval then d
  else
    let d := { d with lastCheck := later }
    if d.applied - d.lastSnapshot < d.settings.snapshotThreshold then d else d.takeSnapshot.2

/-- Do what a command asks for. Stopping is the loop's part. -/
def handle (d : Driver κ μ) (c : Command) : Except Fault (Driver κ μ) :=
  match c with
  | .propose ticket data => d.propose ticket data
  | .snapshot ticket =>
    let (result, d) := d.takeSnapshot
    .ok (d.answer ticket (result.map .index))
  | .membership ticket => .ok (d.answer ticket (.ok (.membership d.shelf.stable.membership)))
  | .stop => .ok d

/-! ## Time and observers -/

/-- Tick if it is time. The next tick is one interval after this one was due, or after the
later reading of the clock if that has passed by then. -/
def tickIfDue (d : Driver κ μ) (now later : Nat) : Except Fault (Driver κ μ) :=
  if now < d.nextTick then .ok d
  else (Core.tick d.shelf d.core).map fun core =>
    let next := d.nextTick + d.settings.tick
    { d with core, nextTick := if next < later then later + d.settings.tick else next }

/-- Note the role; one that no longer leads cannot keep its proposals. -/
def observeRole (d : Driver κ μ) : Driver κ μ :=
  let role := Core.role d.core
  if role = d.role then d
  else
    let d := if d.role = .leader then d.failPending .leadershipLost else d
    { d with role }

def publish (d : Driver κ μ) : Driver κ μ :=
  { d with published := {
      state := State.ofRole (Core.role d.core)
      term := Core.term d.core
      leader := Core.leader d.core
      applied := d.applied
      lastIndex := Core.lastIndex d.core d.shelf } }

end Driver

end QuorumLab
