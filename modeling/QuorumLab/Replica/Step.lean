import QuorumLab.Replica.Lead

/-!
# Stepping a replica

Every message is first held against the replica's term; what it then does depends on
its kind and on the replica's role. Time passes in ticks.
-/

namespace QuorumLab.Replica

/-- Whether a known leader has been heard of so recently that no vote is given. -/
def inLease (r : Replica) : Bool :=
  r.settings.checkQuorum && r.leader ≠ 0 && decide (r.electionElapsed < r.settings.election)

/-- Give the vote, unless it is taken or the sender's log is behind. -/
def answerVote (m : Message) : ReplicaM Unit := do
  let r ← get
  let free := r.vote == m.sender || (r.vote == 0 && r.leader == 0) ||
    (m.kind == .requestPreVote && decide (r.term < m.term))
  let kind := m.kind.voteResponse
  let given ← if free then inquire! fun l s => l.isUpToDate s m.index m.logTerm else pure false
  if given then
    send { kind, target := m.sender, term := m.term }
    if m.kind = .requestVote then
      modify ({ · with electionElapsed := 0, vote := m.sender })
  else
    let (commit, commitTerm) ← inquire! Ledger.commitInfo
    send { kind, target := m.sender, term := r.term, reject := true, commit, commitTerm }
    commitByVote m

/-- What is left to do with a message once its term is settled. -/
def handle (m : Message) : ReplicaM (Except Refusal Unit) := do
  if m.kind = .hup then
    let r ← get
    campaign (if r.settings.preVote then .trial else .vote)
    return .ok ()
  if m.kind.isVoteRequest then
    answerVote m
    return .ok ()
  match (← get).role with
  | .follower => stepFollower m
  | .candidate | .preCandidate => stepCandidate m
  | .leader => stepLeader m

/-- A message of a term gone by: a leader or a trial candidate there is told the current one. -/
def answerStale (m : Message) : ReplicaM Unit := do
  let r ← get
  if (r.settings.checkQuorum || r.settings.preVote) &&
      (m.kind == .heartbeat || m.kind == .append) then
    send { kind := .appendResponse, target := m.sender }
  else if m.kind = .requestPreVote then
    send { kind := .requestPreVoteResponse, target := m.sender, term := r.term, reject := true }

/-- Step with any message. A higher term makes the replica a follower at that term, except
that trial votes never do and that votes are not heard within a lease. -/
def stepAny (m : Message) : ReplicaM (Except Refusal Unit) := do
  let r ← get
  if m.term = 0 ∨ m.term = r.term then
    handle m
  else if m.term < r.term then
    answerStale m
    return .ok ()
  else if m.kind.isVoteRequest && m.context != transferTag && inLease r then
    return .ok ()
  else
    let trial := m.kind == .requestPreVote || (m.kind == .requestPreVoteResponse && !m.reject)
    if !trial then
      becomeFollower m.term (if m.kind.isFromLeader then m.sender else 0)
    handle m

/-- Step with a message from outside: local kinds are refused, and so are answers of
replicas that are no members. -/
def step (m : Message) : ReplicaM (Except Refusal Unit) := do
  if m.kind.isLocal then
    return .error .localMessage
  if m.kind.isResponse && !(← get).electorate.contains m.sender then
    return .error .unknownPeer
  stepAny m

/-- A message to `member` could not be sent. -/
def reportUnreachable (member : Nat) : ReplicaM Unit := do
  let _ ← stepAny { kind := .unreachable, sender := member }

/-- A snapshot to `member` was delivered or lost. -/
def reportSnapshot (member : Nat) (delivered : Bool) : ReplicaM Unit := do
  let _ ← stepAny { kind := .snapshotStatus, sender := member, reject := !delivered }

/-- Propose one entry. -/
def proposeEntry (context data : Bytes) : ReplicaM (Except Refusal Unit) := do
  let id := (← get).id
  stepAny { kind := .propose, sender := id, entries := [{ context, data }] }

/-- A tick of a replica that does not lead. Elections are not spread at random: the timeout
is the shortest one allowed. -/
def tickElection : ReplicaM Unit := do
  modify fun r => { r with electionElapsed := r.electionElapsed + 1 }
  let r ← get
  if r.settings.election ≤ r.electionElapsed ∧ r.promotable then
    set { r with electionElapsed := 0 }
    let _ ← stepAny { kind := .hup, sender := r.id }

/-- A tick of a leader: it checks on its quorum once per election timeout, gives up a
transfer that took as long, and sends heartbeats. -/
def tickHeartbeat : ReplicaM Unit := do
  modify fun r =>
    { r with heartbeatElapsed := r.heartbeatElapsed + 1, electionElapsed := r.electionElapsed + 1 }
  let r ← get
  if r.settings.election ≤ r.electionElapsed then
    set { r with electionElapsed := 0 }
    if r.settings.checkQuorum then
      let _ ← stepAny { kind := .checkQuorum, sender := r.id }
    if (← get).role = .leader then
      modify ({ · with transferee := none })
  let r ← get
  if r.role = .leader ∧ r.settings.heartbeat ≤ r.heartbeatElapsed then
    set { r with heartbeatElapsed := 0 }
    let _ ← stepAny { kind := .beat, sender := r.id }

def tick : ReplicaM Unit := do
  if (← get).role = .leader then tickHeartbeat else tickElection

end QuorumLab.Replica
