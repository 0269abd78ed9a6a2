import QuorumLab.Replica.Rounds

/-!
# Starting a replica

A replica starts from what its node's shelf holds: the membership, the hard state and
the bounds of the log.
-/

namespace QuorumLab.Replica

/-- Take over a stored hard state, whose commit index has to lie in the log. -/
def load (hard : HardState) : ReplicaM Unit := do
  let r ← get
  let last ← inquire Ledger.last
  if hard.commit < r.ledger.committed ∨ last < hard.commit then
    lift (.error (.breach (.commitOutOfRange hard.commit r.ledger.committed last r.id)))
  set { r with
    term := hard.term, vote := hard.vote, ledger := { r.ledger with committed := hard.commit } }

/-- The first steps of a replica: its membership, its hard state, and that everything up to
the settings' `applied` has been applied. -/
def wake (m : Membership) (electorate : Electorate) : ReplicaM Unit := do
  adopt m electorate
  let hard := (← read).stable.hard
  if hard ≠ {} then
    load hard
  let applied := (← get).settings.applied
  noteApplied applied
  becomeFollower (← get).term 0
  modify fun r =>
    { r with
      handed := applied, shownHard := r.hard, shownLeader := r.leader, shownRole := r.role }

/-- A replica over this shelf. -/
def start (settings : ReplicaSettings) (s : Shelf) :
    Except Fault (Except Failure Replica) := do
  match ← settings.validate with
  | .error failure => return .error failure
  | .ok () =>
    let ledger ← Ledger.ofShelf s
    let m := s.stable.membership
    match ← Electorate.ofMembership settings.maxInflight s.log.last m with
    | .error refusal => return .error (.raft refusal)
    | .ok electorate =>
      let (_, r) ← wake m electorate s { settings, ledger, electorate }
      return .ok r

end QuorumLab.Replica
