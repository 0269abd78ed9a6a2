import QuorumLab.Entry

/-!
# Messages between replicas

A message of term 0 is local: it was not sent by a replica at any term.
-/

namespace QuorumLab

inductive MessageKind where
  | hup
  | beat
  | propose
  | append
  | appendResponse
  | requestVote
  | requestVoteResponse
  | snapshot
  | heartbeat
  | heartbeatResponse
  | unreachable
  | snapshotStatus
  | checkQuorum
  | transferLeader
  | timeoutNow
  | readIndex
  | readIndexResponse
  | requestPreVote
  | requestPreVoteResponse
  deriving Repr, DecidableEq, Inhabited

structure Message where
  kind : MessageKind := .hup
  sender : Nat := 0
  target : Nat := 0
  term : Nat := 0
  logTerm : Nat := 0
  index : Nat := 0
  commit : Nat := 0
  commitTerm : Nat := 0
  reject : Bool := false
  rejectHint : Nat := 0
  context : Bytes := []
  entries : List Entry := []
  snapshot : Snapshot := {}
  deriving Repr, DecidableEq, Inhabited

namespace MessageKind

/-- Kinds that only a replica itself may produce. -/
def isLocal : MessageKind → Bool
  | hup | beat | unreachable | snapshotStatus | checkQuorum => true
  | _ => false

/-- Kinds that answer an earlier message, so that their sender has to be a member. -/
def isResponse : MessageKind → Bool
  | appendResponse | requestVoteResponse | heartbeatResponse | unreachable
  | requestPreVoteResponse => true
  | _ => false

/-- Kinds that only the leader of a term sends. -/
def isFromLeader : MessageKind → Bool
  | append | heartbeat | snapshot => true
  | _ => false

def isVoteRequest : MessageKind → Bool
  | requestVote | requestPreVote => true
  | _ => false

/-- The answer to a vote request of either kind. -/
def voteResponse : MessageKind → MessageKind
  | requestVote => requestVoteResponse
  | _ => requestPreVoteResponse

end MessageKind

end QuorumLab
