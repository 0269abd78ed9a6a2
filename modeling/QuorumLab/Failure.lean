import QuorumLab.Text.Decimal
import QuorumLab.Text.Span

/-!
# Failures and faults

A *failure* is an answer: the caller asked for something and is told why it was
not done. A *fault* ends the calling thread. Both are kept as causes; the wording
stands in `message` alone.
-/

namespace QuorumLab

/-- Why the consensus protocol or its storage refused a call. -/
inductive Refusal where
  | compacted
  | unavailable
  | snapshotOutOfDate
  | snapshotNotReady
  | localMessage
  | unknownPeer
  | proposalDropped
  | present (id : Nat) (set : String)
  | absent (id : Nat) (set : String)
  | invalid (reason : String)
  deriving Repr, DecidableEq, Inhabited

namespace Refusal

def message : Refusal → String
  | compacted => "log compacted"
  | unavailable => "log unavailable"
  | snapshotOutOfDate => "snapshot out of date"
  | snapshotNotReady => "snapshot is temporarily unavailable"
  | localMessage => "raft: cannot step raft local message"
  | unknownPeer => "raft: cannot step as peer not found"
  | proposalDropped => "raft: proposal dropped"
  | present id set => s!"The node {id} already exists in the {set} set."
  | absent id set => s!"The node {id} is not in the {set} set."
  | invalid reason => reason

end Refusal

/-- Why an engine, a store or a wait did not do what it was asked for. -/
inductive Failure where
  | config (reason : String)
  | raft (refusal : Refusal)
  | storage (reason : String)
  | notLeader (leader : Option Nat)
  | leadershipLost
  | shutdown
  | timeout (subject : String)
  | unreachable (address : String)
  | machine (reason : String)
  | nothingNewToSnapshot
  | panicked (id : Nat)
  | waitTimeout (subject condition : String) (span : Nat) (observed : String)
  deriving Repr, DecidableEq, Inhabited

namespace Failure

/-- An optional id as it is shown: `Some(3)` or `None`. -/
def optionText : Option Nat → String
  | some n => s!"Some({n})"
  | none => "None"

def message : Failure → String
  | config reason => s!"invalid configuration: {reason}"
  | raft refusal => s!"raft: {refusal.message}"
  | storage reason => s!"storage: {reason}"
  | notLeader leader => s!"node is not the leader (leader: {optionText leader})"
  | leadershipLost => "leadership lost while committing command"
  | shutdown => "raft is shutdown"
  | timeout subject => s!"timed out waiting for {subject}"
  | unreachable address => s!"peer {address} is unreachable"
  | machine reason => s!"fsm: {reason}"
  | nothingNewToSnapshot => "nothing new to snapshot"
  | panicked id => s!"driver thread of node {id} panicked"
  | waitTimeout subject condition span observed =>
    s!"{subject}: timed out after {Span.text span} waiting for {condition} (last observed: {observed})"

end Failure

/-- The machine operations that can leave the range of 64-bit words. -/
inductive WordOp where
  | add | subtract | multiply
  deriving Repr, DecidableEq, Inhabited

/-- A rule of the consensus protocol that the state of one replica breaks. -/
inductive Breach where
  | commitOutOfRange (commit low high id : Nat)
  | appliedOutOfRange (applied previous committed persisted id : Nat)
  | membershipDisagrees (stored derived : List (String × Nat)) (id : Nat)
  | rule (what : String)
  deriving Repr, DecidableEq, Inhabited

namespace Breach

/-- The members of a configuration, each after the name of its set. -/
def memberText (members : List (String × Nat)) : String :=
  " ".intercalate (members.map fun m => s!"{m.1}: {m.2}")

def message : Breach → String
  | commitOutOfRange commit low high id =>
    s!"hs.commit {commit} is out of range [{low}, {high}], raft_id: {id}"
  | appliedOutOfRange applied previous committed persisted id =>
    s!"applied({applied}) is out of range [prev_applied({previous}), " ++
      s!"min(committed({committed}), persisted({persisted}))], raft_id: {id}"
  | membershipDisagrees stored derived id =>
    s!"invalid restore: {memberText stored} != {memberText derived}, raft_id: {id}"
  | rule what => what

end Breach

/-- Why a call did not return at all. -/
inductive Fault where
  | outOfBounds (length index : Nat)
  | poisoned
  | lengthsDiffer (left right : Nat)
  | dropRate (rate : String)
  | overflow (op : WordOp)
  | breach (b : Breach)
  | machine (text : String)
  | serverOutOfRange (index size : Nat)
  | notInCluster (index : Nat)
  | notRunning (index : Nat)
  | noMachines
  | startFailed (index : Nat) (cause : Failure)
  | foreignEngine (id : Nat)
  | noOther (running : Nat)
  | waited (cause : Failure)
  | clusterShutdown (failures : List (Nat × Failure))
  | enginesShutdown (failures : List (Nat × Failure))
  | instantOverflow
  | capacityOverflow
  | caller (text : String)
  deriving Repr, DecidableEq, Inhabited

namespace Fault

def message : Fault → String
  | outOfBounds length index =>
    s!"index out of bounds: the len is {length} but the index is {index}"
  | poisoned => "called `Result::unwrap()` on an `Err` value: PoisonError \x7b .. \x7d"
  | lengthsDiffer left right =>
    s!"assertion `left == right` failed: peer store count ({left}) does not match transport count ({right})" ++
      s!"\n  left: {left}\n right: {right}"
  | dropRate rate => s!"drop rate {rate} outside 0.0..=1.0"
  | overflow .add => "attempt to add with overflow"
  | overflow .subtract => "attempt to subtract with overflow"
  | overflow .multiply => "attempt to multiply with overflow"
  | breach b => b.message
  | machine text => text
  | serverOutOfRange index size =>
    s!"server index {index} out of range for a cluster of {size}"
  | notInCluster index => s!"node {index} is not in the cluster"
  | notRunning index => s!"node {index} is not running"
  | noMachines => "a cluster needs at least one state machine"
  | startFailed index cause => s!"failed to start raft node {index}: {cause.message}"
  | foreignEngine id => s!"raft {id} does not belong to this cluster"
  | noOther running =>
    s!"no other node: every one of the {running} running nodes is excluded"
  | waited cause => cause.message
  | clusterShutdown failures =>
    "failed to shut down cluster:\n" ++
      String.join (failures.map fun f => s!"node {f.1}: {f.2.message}\n")
  | enginesShutdown failures =>
    "failed to shut down raft nodes: " ++
      "; ".intercalate (failures.map fun f => s!"raft {f.1}: {f.2.message}")
  | instantOverflow => "overflow when adding duration to instant"
  | capacityOverflow => "capacity overflow"
  | caller text => text

end Fault

end QuorumLab
