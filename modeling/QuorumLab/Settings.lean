import QuorumLab.Failure
import QuorumLab.Entry

/-!
# Settings of an engine

Timing is given as spans and turned into ticks of the logical clock when an engine
starts. Settings are checked first: every timeout has to fill whole ticks, and an
election has to take longer than a heartbeat, in spans and in ticks.
-/

namespace QuorumLab

/-- Spans are in nanoseconds. -/
structure Settings where
  tick : Nat := Span.ofMillis 100
  heartbeat : Nat := Span.ofMillis 200
  election : Nat := Span.second
  snapshotInterval : Nat := 120 * Span.second
  snapshotThreshold : Nat := 8192
  trailing : Nat := 10240
  maxMessageSize : Nat := 1024 * 1024
  maxInflight : Nat := 256
  preVote : Bool := true
  checkQuorum : Bool := true
  deriving Repr, DecidableEq, Inhabited

/-- The settings of a consensus replica, in ticks. -/
structure ReplicaSettings where
  id : Nat
  applied : Nat := 0
  election : Nat
  heartbeat : Nat
  maxMessageSize : Nat
  maxInflight : Nat
  preVote : Bool
  checkQuorum : Bool
  deriving Repr, DecidableEq, Inhabited

namespace Settings

/-- Settings for clusters in memory, with all timeouts scaled down. -/
def scaledDown : Settings where
  tick := Span.ofMillis 10
  heartbeat := Span.ofMillis 20
  election := Span.ofMillis 50
  snapshotInterval := Span.ofMillis 50

/-- What makes settings unusable. -/
inductive Defect where
  | zeroTick
  | heartbeatBelowTick (heartbeat tick : Nat)
  | electionBelowHeartbeat (election heartbeat : Nat)
  | zeroSnapshotInterval
  | zeroSnapshotThreshold
  | zeroInflight
  | ticksCoincide (election heartbeat : Nat)
  deriving Repr, DecidableEq, Inhabited

def Defect.message : Defect → String
  | zeroTick => "tick_interval must be positive"
  | heartbeatBelowTick heartbeat tick =>
    s!"heartbeat_interval {Span.text heartbeat} shorter than tick_interval {Span.text tick}"
  | electionBelowHeartbeat election heartbeat =>
    s!"election_timeout {Span.text election} must exceed heartbeat_interval {Span.text heartbeat}"
  | zeroSnapshotInterval => "snapshot_interval must be positive"
  | zeroSnapshotThreshold => "snapshot_threshold must be positive"
  | zeroInflight => "max_inflight_msgs must be positive"
  | ticksCoincide election heartbeat =>
    s!"election timeout rounds to {election} ticks, heartbeat to {heartbeat}"

/-- Whole ticks in a span, in one word. -/
def ticks (span tick : Nat) : Nat := if tick = 0 then 0 else span / tick % UInt64.size

def heartbeatTicks (s : Settings) : Nat := ticks s.heartbeat s.tick

def electionTicks (s : Settings) : Nat := ticks s.election s.tick

/-- The first defect, in a fixed order. -/
def defect? (s : Settings) : Option Defect :=
  if s.tick = 0 then some .zeroTick
  else if s.heartbeat < s.tick then some (.heartbeatBelowTick s.heartbeat s.tick)
  else if s.election ≤ s.heartbeat then some (.electionBelowHeartbeat s.election s.heartbeat)
  else if s.snapshotInterval = 0 then some .zeroSnapshotInterval
  else if s.snapshotThreshold = 0 then some .zeroSnapshotThreshold
  else if s.maxInflight = 0 then some .zeroInflight
  else if s.electionTicks ≤ s.heartbeatTicks then
    some (.ticksCoincide s.electionTicks s.heartbeatTicks)
  else none

def validate (s : Settings) : Except Failure Unit :=
  match s.defect? with
  | some d => .error (.config d.message)
  | none => .ok ()

end Settings

namespace ReplicaSettings

/-- What a replica itself requires. Elections are drawn from `[election, 2 * election)`, so
twice the election timeout has to be a word. -/
def validate (r : ReplicaSettings) : Except Fault (Except Failure Unit) :=
  let invalid (reason : String) : Except Fault (Except Failure Unit) :=
    .ok (.error (.raft (.invalid reason)))
  if r.id = 0 then invalid "invalid node id"
  else if r.heartbeat = 0 then invalid "heartbeat tick must greater than 0"
  else if r.election ≤ r.heartbeat then
    invalid "election tick must be greater than heartbeat tick"
  else if maxWord < 2 * r.election then .error (.overflow .multiply)
  else if r.maxInflight = 0 then invalid "max inflight messages must be greater than 0"
  else .ok (.ok ())

end ReplicaSettings

namespace Settings

/-- The settings of the replica with this id, whose machine has applied everything up to
`applied`: first these settings are checked, then the replica's. -/
def toReplica (s : Settings) (id applied : Nat) :
    Except Fault (Except Failure ReplicaSettings) :=
  match s.validate with
  | .error e => .ok (.error e)
  | .ok () =>
    let r : ReplicaSettings :=
      { id, applied, election := s.electionTicks, heartbeat := s.heartbeatTicks,
        maxMessageSize := s.maxMessageSize, maxInflight := s.maxInflight,
        preVote := s.preVote, checkQuorum := s.checkQuorum }
    r.validate.map fun result => result.map fun _ => r

end Settings

end QuorumLab
