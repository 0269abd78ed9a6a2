import QuorumLab.Replica.Step

/-!
# The rounds of a replica

A replica hands out its work in rounds and is told when a round has been stored and
applied. A leader's messages may go out at once; any other replica's are promises about
its store and have to wait.
-/

namespace QuorumLab.Replica

/-- Whether a round would hold anything. -/
def hasWork (r : Replica) (s : Shelf) : Except Fault Bool :=
  if !r.outbox.isEmpty || r.leader != r.shownLeader || r.role != r.shownRole ||
      r.hard != r.shownHard || !r.answeredReads.isEmpty || !r.ledger.tail.entries.isEmpty ||
      r.ledger.tail.snapshot.any (·.index != 0) then
    .ok true
  else r.ledger.hasNextSince s r.handed

/-- Hand out the committed entries that are stored by now. -/
def takeCommitted : ReplicaM (List Entry) := do
  let since := (← get).handed
  let committed ← inquire! fun l s => l.nextSince s since
  match committed.getLast? with
  | some e =>
    if e.index ≤ since then
      breach "entries handed out twice"
    modify ({ · with handed := e.index })
  | none => pure ()
  return committed

def takeOutbox : ReplicaM (List Message) := do
  let r ← get
  set { r with outbox := [] }
  return r.outbox

/-- Hand out a pending snapshot; no entry after it can be stored before it. -/
def takeSnapshotRound : ReplicaM (Option Snapshot) := do
  match (← get).ledger.tail.snapshot with
  | none => return none
  | some snap =>
    if snap.index < (← get).handed then
      breach "snapshot below what was handed out"
    modify ({ · with handed := snap.index })
    if ← inquire! fun l s => l.hasNextSince s snap.index then
      breach "committed entries behind a pending snapshot"
    return some snap

/-- The next round. -/
def takeRound : ReplicaM Ready := do
  let before ← get
  let hard := if before.hard = before.shownHard then none else some before.hard
  modify ({ · with answeredReads := [] })
  let snapshot ← takeSnapshotRound
  let entries := before.ledger.tail.entries
  let lastEntry := entries.getLast?.map fun e => (e.index, e.term)
  let committed ← takeCommitted
  let outgoing ← takeOutbox
  let leads := before.role = .leader
  modify fun r =>
    { r with
      handout := { snapshot := snapshot.map Snapshot.index, lastEntry }
      shownLeader := before.leader
      shownRole := before.role
      shownHard := before.hard }
  return {
    snapshot := snapshot.filter (·.index ≠ 0), committed, entries, hard
    messages := if leads then outgoing else []
    heldMessages := if leads then [] else outgoing }

/-- The entries up to `index` have been stored; a leader counts itself among their holders. -/
def noteStored (index term : Nat) : ReplicaM Unit := do
  let news ← amend fun l s => .ok (l.persistEntries s index term)
  let r ← get
  if news ∧ r.role = .leader then
    match r.electorate.get? r.id with
    | none => breach "leader outside the membership"
    | some p =>
      let (newer, p) ← lift (p.acknowledge index)
      setProgress r.id p
      if newer then
        if ← commitByQuorum then
          broadcastAppend

/-- Apply what was handed out up to `index`. -/
def noteApplied (index : Nat) : ReplicaM Unit := do
  let id := (← get).id
  amend fun l _ => (l.appliedTo id index).map ((), ·)

/-- The round has been stored. -/
def closeRound : ReplicaM Followup := do
  let handed := (← get).handed
  let handout := (← get).handout
  if let some index := handout.snapshot then
    amend fun l _ => (l.tail.snapshotStored index).map fun tail => ((), { l with tail })
  if let some (index, term) := handout.lastEntry then
    amend fun l _ => (l.tail.entriesStored index term).map fun tail => ((), { l with tail })
  if let some index := handout.snapshot then
    if index ≠ 0 then
      amend fun l _ => (l.persistSnapshot index).map ((), ·)
  if let some (index, term) := handout.lastEntry then
    if index ≠ 0 then
      noteStored index term
  modify ({ · with handout := {} })
  let committed ← takeCommitted
  let messages ← takeOutbox
  let r ← get
  if r.role ≠ .leader ∧ !messages.isEmpty then
    breach "messages of a follower after its round"
  let commit := if r.shownHard.commit < r.hard.commit then some r.hard.commit else none
  let shownHard := { r.shownHard with commit := r.hard.commit }
  if r.hard ≠ shownHard then
    breach "hard state changed within a round"
  set { r with shownHard }
  noteApplied handed
  return { commit, messages, committed }

/-- Everything handed out has been applied. -/
def closeApplication : ReplicaM Unit := do
  noteApplied (← get).handed

end QuorumLab.Replica

namespace QuorumLab

/-- The replica as a protocol for drivers. -/
instance : Core Replica where
  role := Replica.role
  term := Replica.term
  leader := Replica.leader
  lastIndex r s := r.ledger.last s
  step s m r := Replica.step m s r
  tick s r := (Replica.tick s r).map Prod.snd
  propose s context data r := Replica.proposeEntry context data s r
  reportUnreachable s member r := (Replica.reportUnreachable member s r).map Prod.snd
  reportSnapshot s member delivered r := (Replica.reportSnapshot member delivered s r).map Prod.snd
  ready s r := do
    if ← r.hasWork s then return some (← Replica.takeRound s r) else return none
  advance s r := Replica.closeRound s r
  advanceApplied r := (Replica.closeApplication {} r).map Prod.snd

end QuorumLab
