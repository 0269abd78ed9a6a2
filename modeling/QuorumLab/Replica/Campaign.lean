import QuorumLab.Replica.Replicate

/-!
# Elections

A replica asks the other voters for their votes, after a trial round if pre-votes are
on. It stays away from elections while a committed membership change is not applied.
-/

namespace QuorumLab.Replica

inductive Ballot where
  | trial | vote | transfer
  deriving Repr, DecidableEq, Inhabited

/-- The tag of a campaign that a leader asked for; it is not held up by a known leader. -/
def transferTag : Bytes := "CampaignTransfer".toUTF8.toList

/-- Whether there is a membership change among the entries `low, …, high - 1`. -/
def changesPending (low high : Nat) : ReplicaM Bool := do
  let l := (← get).ledger
  if l.committed ≤ l.applied ∨ high ≤ low then
    return false
  match ← inquire! fun l s => l.slice s low high none with
  | .ok entries => return entries.any (·.kind ≠ .normal)
  | .error _ => breach "unapplied entries are missing"

/-- Ask every other voter for its vote, at `term`. -/
def requestVotes (kind : MessageKind) (term : Nat) (tag : Bytes) : ReplicaM Unit := do
  let (commit, commitTerm) ← inquire! Ledger.commitInfo
  let index ← inquire Ledger.last
  let logTerm ← inquire! Ledger.lastTerm
  let r ← get
  for member in r.electorate.voters do
    if member ≠ r.id then
      send { kind, target := member, term, index, logTerm, commit, commitTerm, context := tag }

/-- Count a ballot and see how the election stands. -/
def countVote (id : Nat) (granted : Bool) : ReplicaM Verdict := do
  modify fun r => { r with electorate := r.electorate.recordVote id granted }
  return (← get).electorate.tally

def takeLead : ReplicaM Unit := do
  becomeLeader
  broadcastAppend

/-- Stand for election at the next term; the own vote may be enough. -/
def standForElection (tag : Bytes) : ReplicaM Unit := do
  becomeCandidate
  let r ← get
  if (← countVote r.id true) = .won then
    takeLead
  else
    requestVotes .requestVote r.term tag

/-- Ask, at the next term, whether an election could be won. -/
def standForTrial : ReplicaM Unit := do
  becomePreCandidate
  let r ← get
  let term ← lift (Word.succ r.term)
  if (← countVote r.id true) = .won then
    standForElection []
  else
    requestVotes .requestPreVote term []

/-- Start an election, unless this replica leads or still has a change to apply. -/
def campaign (ballot : Ballot) : ReplicaM Unit := do
  let r ← get
  if r.role = .leader then
    return
  let low := r.ledger.tail.first?.getD (r.ledger.applied + 1)
  if ← changesPending low (r.ledger.committed + 1) then
    return
  match ballot with
  | .trial => standForTrial
  | .vote => standForElection []
  | .transfer => standForElection transferTag

/-- A ballot of another replica: the election may be decided by it. -/
def receiveVote (id : Nat) (granted : Bool) : ReplicaM Unit := do
  let r ← get
  match ← countVote id granted with
  | .won => if r.role = .preCandidate then standForElection [] else takeLead
  | .lost => becomeFollower r.term 0
  | .undecided => pure ()

/-- Learn from a vote message what its sender has committed. A candidate that thereby
commits a membership change gives up. -/
def commitByVote (m : Message) : ReplicaM Unit := do
  let r ← get
  let known := r.ledger.committed
  if m.commit = 0 ∨ m.commitTerm = 0 ∨ m.commit ≤ known ∨ r.role = .leader then
    return
  if !(← maybeCommitAt m.commit m.commitTerm) then
    return
  if r.role = .candidate ∨ r.role = .preCandidate then
    if ← changesPending (known + 1) ((← get).ledger.committed + 1) then
      becomeFollower r.term 0

end QuorumLab.Replica
