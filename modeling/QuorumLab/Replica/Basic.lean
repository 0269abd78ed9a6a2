import QuorumLab.Replica.Electorate
import QuorumLab.Replica.Reads
import QuorumLab.Engine.Core
import QuorumLab.Settings

/-!
# The state of a replica

A replica is a pure protocol machine: it is stepped with messages and ticks, reads the
shelf of its node, and leaves in its outbox what has to be sent. Storing, sending and
applying are its driver's work.
-/

namespace QuorumLab

/-- What the driver was last given to store: the index of a snapshot, and the index and
term of the last entry. -/
structure Handout where
  snapshot : Option Nat := none
  lastEntry : Option (Nat × Nat) := none
  deriving Repr, DecidableEq, Inhabited

structure Replica where
  settings : ReplicaSettings
  term : Nat := 0
  vote : Nat := 0
  leader : Nat := 0
  role : Role := .follower
  ledger : Ledger
  electorate : Electorate
  promotable : Bool := false
  electionElapsed : Nat := 0
  heartbeatElapsed : Nat := 0
  transferee : Option Nat := none
  /-- No membership change is proposed before this index is applied. -/
  pendingChange : Nat := 0
  reads : Reads := {}
  answeredReads : List (Nat × Bytes) := []
  outbox : List Message := []
  /-- The last committed index that was handed out for application. -/
  handed : Nat := 0
  shownHard : HardState := {}
  shownLeader : Nat := 0
  shownRole : Role := .follower
  handout : Handout := {}
  deriving Repr, DecidableEq, Inhabited

abbrev ReplicaM := ReaderT Shelf (StateT Replica (Except Fault))

namespace Replica

def id (r : Replica) : Nat := r.settings.id

def hard (r : Replica) : HardState :=
  { term := r.term, vote := r.vote, commit := r.ledger.committed }

def lift (x : Except Fault α) : ReplicaM α := fun _ r => x.map (·, r)

def breach (rule : String) : ReplicaM α := lift (.error (.breach (.rule rule)))

/-- Ask the ledger. -/
def inquire (f : Ledger → Shelf → α) : ReplicaM α := return f (← get).ledger (← read)

/-- Ask the ledger something that only a sound log can answer. -/
def inquire! (f : Ledger → Shelf → Except Fault α) : ReplicaM α := do lift (← inquire f)

/-- Change the ledger. -/
def amend (f : Ledger → Shelf → Except Fault (α × Ledger)) : ReplicaM α := do
  let (a, ledger) ← inquire! f
  modify ({ · with ledger })
  return a

def commitTo (index : Nat) : ReplicaM Unit :=
  amend fun l s => (l.commitTo s index).map ((), ·)

def maybeCommitAt (index term : Nat) : ReplicaM Bool :=
  amend fun l s => l.maybeCommit s index term

def progress? (id : Nat) : ReplicaM (Option Progress) := return (← get).electorate.get? id

def setProgress (id : Nat) (p : Progress) : ReplicaM Unit :=
  modify fun r => { r with electorate := r.electorate.set id p }

/-- The other members. -/
def others : ReplicaM (List Nat) := do
  let r ← get
  return (r.electorate.progress.map Prod.fst).filter (· ≠ r.id)

def voteKind : MessageKind → Bool
  | .requestVote | .requestVoteResponse | .requestPreVote | .requestPreVoteResponse => true
  | _ => false

/-- Put a message into the outbox. A vote message brings its term along, any other gets the
term of the replica, except that what is forwarded to a leader stays local. -/
def send (m : Message) : ReplicaM Unit := do
  let r ← get
  let m := if m.sender = 0 then { m with sender := r.id } else m
  if voteKind m.kind then
    if m.term = 0 then breach "vote message without a term"
    else modify fun r => { r with outbox := r.outbox ++ [m] }
  else if m.term ≠ 0 then breach "message with a term of its own"
  else
    let term := if m.kind = .propose ∨ m.kind = .readIndex then 0 else r.term
    modify fun r => { r with outbox := r.outbox ++ [{ m with term }] }

/-- Start over at `term`: nobody leads, nothing is known about the members, no vote runs. A
vote is forgotten only with its term. -/
def reset (term : Nat) : ReplicaM Unit := do
  let last ← inquire Ledger.last
  modify fun r =>
    let progress := r.electorate.progress.map fun m =>
      let p := m.2.reset last
      (m.1, if m.1 = r.id then { p with matched := r.ledger.persisted } else p)
    { r with
      term
      vote := if r.term = term then r.vote else 0
      leader := 0
      electionElapsed := 0
      heartbeatElapsed := 0
      transferee := none
      pendingChange := 0
      reads := {}
      electorate := { r.electorate with progress, votes := [] } }

def becomeFollower (term leader : Nat) : ReplicaM Unit := do
  reset term
  modify ({ · with leader, role := .follower })

def becomeCandidate : ReplicaM Unit := do
  let term ← lift (Word.succ (← get).term)
  reset term
  modify fun r => { r with vote := r.id, role := .candidate }

/-- A pre-candidate asks before it raises its term. -/
def becomePreCandidate : ReplicaM Unit :=
  modify fun r =>
    { r with role := .preCandidate, leader := 0, electorate := { r.electorate with votes := [] } }

/-- Append entries at the replica's term. -/
def appendOwn (batch : List Entry) : ReplicaM Unit := do
  let last ← inquire Ledger.last
  let r ← get
  let stamped := batch.zipIdx.map fun (e, i) => { e with term := r.term, index := last + 1 + i }
  amend fun l _ => (l.append stamped).map ((), ·)

/-- A new leader knows nothing about the others and appends an empty entry, by which
earlier entries get committed. -/
def becomeLeader : ReplicaM Unit := do
  reset (← get).term
  modify fun r => { r with leader := r.id, role := .leader }
  let last ← inquire Ledger.last
  let r ← get
  if last ≠ r.ledger.persisted then
    breach "leader with unstored entries"
  match r.electorate.get? r.id with
  | none => breach "leader outside the membership"
  | some p => setProgress r.id p.replicate
  modify ({ · with pendingChange := last })
  appendOwn [{}]

/-- Take over a membership: whether this replica votes in it decides if it may campaign. -/
def adopt (m : Membership) (electorate : Electorate) : ReplicaM Unit := do
  let id := (← get).id
  if !electorate.agreesWith m then
    let derived := electorate.membership
    lift (.error (.breach
      (.membershipDisagrees (Electorate.members m) (Electorate.members derived) id)))
  modify ({ · with electorate, promotable := electorate.voters.contains id })

end Replica

end QuorumLab
