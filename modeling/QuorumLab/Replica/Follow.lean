import QuorumLab.Replica.Campaign

/-!
# Following a leader

How a replica takes entries, commit indexes and snapshots from the leader of its term,
and what it answers.
-/

namespace QuorumLab.Replica

/-- Take entries. A refusal points at the last place where the two logs may agree. -/
def takeEntries (m : Message) : ReplicaM Unit := do
  let known := (← get).ledger.committed
  if m.index < known then
    send { kind := .appendResponse, target := m.sender, index := known, commit := known }
  else
    match ← amend fun l s => l.maybeAppend s m.index m.logTerm m.commit m.entries with
    | some reached =>
      let commit := (← get).ledger.committed
      send { kind := .appendResponse, target := m.sender, index := reached, commit }
    | none =>
      let last ← inquire Ledger.last
      match ← inquire! fun l s => l.conflictByTerm s (min m.index last) m.logTerm with
      | (_, none) => breach "the term of a log entry is missing"
      | (rejectHint, some logTerm) =>
        send { kind := .appendResponse, target := m.sender, index := m.index, reject := true,
               rejectHint, logTerm, commit := known }

def takeHeartbeat (m : Message) : ReplicaM Unit := do
  commitTo m.commit
  let commit := (← get).ledger.committed
  send { kind := .heartbeatResponse, target := m.sender, context := m.context, commit }

/-- Start over from a snapshot: whether that was done. It is refused if it is older than
the commit index, if this replica is not a member in it, or if the log already agrees
with it, which then commits up to it. -/
def startFrom (s : Snapshot) : ReplicaM Bool := do
  let r ← get
  if s.index < r.ledger.committed then
    return false
  if r.role ≠ .follower then
    becomeFollower (← lift (Word.succ r.term)) 0
    return false
  if !(s.membership.voters ++ s.membership.learners).contains r.id then
    return false
  if ← inquire fun l shelf => l.matchesTerm shelf s.index s.term then
    commitTo s.index
    return false
  amend fun l _ => (l.restore s).map ((), ·)
  match ← lift (Electorate.ofMembership r.electorate.window s.index s.membership) with
  | .error _ => breach "membership of a snapshot cannot be taken over"
  | .ok electorate =>
    adopt s.membership electorate
    match ← progress? r.id with
    | none => breach "replica outside its own membership"
    | some p =>
      let (_, p) ← lift (p.acknowledge (← lift (Word.minus p.next 1)))
      setProgress r.id p
      return true

def takeSnapshot (m : Message) : ReplicaM Unit := do
  let index ←
    if ← startFrom m.snapshot then inquire Ledger.last
    else pure (← get).ledger.committed
  send { kind := .appendResponse, target := m.sender, index }

/-- Pass a message on to the leader. -/
def forward (m : Message) : ReplicaM Unit := do
  send { m with target := (← get).leader }

/-- What a message of the leader does to a replica that follows it. -/
def obey (m : Message) : ReplicaM Unit :=
  match m.kind with
  | .append => takeEntries m
  | .heartbeat => takeHeartbeat m
  | .snapshot => takeSnapshot m
  | _ => pure ()

def stepFollower (m : Message) : ReplicaM (Except Refusal Unit) := do
  let leader := (← get).leader
  match m.kind with
  | .propose =>
    if leader = 0 then
      return .error .proposalDropped
    forward m
  | .append | .heartbeat | .snapshot =>
    modify ({ · with electionElapsed := 0, leader := m.sender })
    obey m
  | .transferLeader | .readIndex =>
    if leader ≠ 0 then
      forward m
  | .timeoutNow =>
    if (← get).promotable then
      campaign .transfer
  | .readIndexResponse =>
    match m.entries with
    | [e] =>
      modify fun r => { r with answeredReads := r.answeredReads ++ [(m.index, e.data)] }
      let _ ← maybeCommitAt m.index m.term
    | _ => pure ()
  | _ => pure ()
  return .ok ()

def stepCandidate (m : Message) : ReplicaM (Except Refusal Unit) := do
  let r ← get
  match m.kind with
  | .propose => return .error .proposalDropped
  | .append | .heartbeat | .snapshot =>
    if m.term ≠ r.term then
      breach "message of a leader at another term"
    becomeFollower m.term m.sender
    obey m
  | .requestVoteResponse =>
    if r.role = .candidate then
      receiveVote m.sender (!m.reject)
      commitByVote m
  | .requestPreVoteResponse =>
    if r.role = .preCandidate then
      receiveVote m.sender (!m.reject)
      commitByVote m
  | _ => pure ()
  return .ok ()

end QuorumLab.Replica
