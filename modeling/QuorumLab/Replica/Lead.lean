import QuorumLab.Replica.Follow
import QuorumLab.Replica.Change

/-!
# Leading

How a leader takes proposals and reads, and what it does about the answers and the
failures of the members.
-/

namespace QuorumLab.Replica

/-- Answer a read: its own one at once, that of another replica by a message. -/
def answerRead (request : Message) (index : Nat) : ReplicaM Unit := do
  let r ← get
  if request.sender = 0 ∨ request.sender = r.id then
    match request.entries with
    | [] => lift (.error (.outOfBounds 0 0))
    | e :: _ => modify fun r => { r with answeredReads := r.answeredReads ++ [(index, e.data)] }
  else
    send { kind := .readIndexResponse, target := request.sender, index, entries := request.entries }

/-- Serve a read once an entry of the current term is committed; later reads of the same tag
wait with the first. -/
def serveRead (m : Message) : ReplicaM Unit := do
  let r ← get
  let committed := r.ledger.committed
  if !(← inquire fun l s => l.matchesTerm s committed r.term) then
    return
  if r.electorate.voters.length = 1 then
    answerRead m committed
  else
    match m.entries with
    | [] => lift (.error (.outOfBounds 0 0))
    | e :: _ =>
      modify fun r => { r with reads := r.reads.add r.id e.data committed m }
      broadcastHeartbeat e.data

/-- Decide about an entry that is proposed for `index`: at most one membership change may be
under way, another becomes an empty entry; one that cannot be read drops the proposal. -/
def vet (index : Nat) (e : Entry) : ReplicaM (Except Refusal Entry) := do
  match MemberChange.count? e with
  | .unreadable => return .error .proposalDropped
  | .notAChange => return .ok e
  | .changes n =>
    let r ← get
    if r.ledger.applied < r.pendingChange ∨ n = 0 then
      return .ok {}
    let pendingChange ← lift (Word.sum index)
    modify ({ · with pendingChange })
    return .ok e

/-- The entries that are proposed after `last`, one after the other. -/
def vetAll (last : Nat) : List Entry → ReplicaM (Except Refusal (List Entry))
  | [] => return .ok []
  | e :: rest => do
    match ← vet (last + 1) e with
    | .error refusal => return .error refusal
    | .ok e => return (← vetAll (last + 1) rest).map (e :: ·)

def propose (m : Message) : ReplicaM (Except Refusal Unit) := do
  if m.entries.isEmpty then
    breach "empty proposal"
  let r ← get
  if !r.electorate.contains r.id ∨ r.transferee.isSome then
    return .error .proposalDropped
  let last ← inquire Ledger.last
  match ← vetAll last m.entries with
  | .error e => return .error e
  | .ok entries =>
    appendOwn entries
    broadcastAppend
    return .ok ()

/-- Step back or move on as a member answers an append. -/
def onAppendResponse (m : Message) : ReplicaM Unit := do
  let hint ←
    if m.reject ∧ 0 < m.logTerm then
      Prod.fst <$> inquire! fun l s => l.conflictByTerm s m.rejectHint m.logTerm
    else pure m.rejectHint
  let some p ← progress? m.sender | return
  let p := { p with recentlyActive := true }
  setProgress m.sender p
  if m.reject then
    let (moved, p) ← lift (p.stepBack m.index hint)
    if moved then
      setProgress m.sender (if p.pace = .replicate then p.probe else p)
      sendAppend m.sender
    return
  let wasPaused := p.isPaused
  let (news, p) ← lift (p.acknowledge m.index)
  setProgress m.sender p
  if !news then
    return
  setProgress m.sender <|
    match p.pace with
    | .probe => p.replicate
    | .snapshot => if p.pendingSnapshot ≤ p.matched then p.probe else p
    | .replicate => p.free m.index
  if ← commitByQuorum then
    broadcastAppend
  else if wasPaused then
    sendAppend m.sender
  sendRest m.sender
  if (← get).transferee = some m.sender then
    let last ← inquire Ledger.last
    if ((← progress? m.sender).map Progress.matched) = some last then
      send { kind := .timeoutNow, target := m.sender }

/-- A member is alive: send what it lacks, and count it for the reads in waiting. -/
def onHeartbeatResponse (m : Message) : ReplicaM Unit := do
  let some p ← progress? m.sender | return
  let p := { p with recentlyActive := true, paused := false }
  let p := if p.pace = .replicate ∧ p.full then p.freeFirst else p
  setProgress m.sender p
  let last ← inquire Ledger.last
  if p.matched < last then
    sendAppend m.sender
  if m.context.isEmpty then
    return
  let r ← get
  let (acks, reads) := r.reads.confirm m.sender m.context
  set { r with reads }
  match acks with
  | none => return
  | some ids =>
    if !r.electorate.hasQuorum ids then
      return
    let (confirmed, reads) := reads.release m.context
    modify ({ · with reads })
    for read in confirmed do
      answerRead read.request read.index

/-- A snapshot was delivered or lost: wait for the member before going on. -/
def onSnapshotStatus (m : Message) : ReplicaM Unit := do
  let some p ← progress? m.sender | return
  if p.pace = .snapshot then
    let p := if m.reject then { p with pendingSnapshot := 0 } else p
    setProgress m.sender { p.probe with paused := true }

def onUnreachable (m : Message) : ReplicaM Unit := do
  let some p ← progress? m.sender | return
  if p.pace = .replicate then
    setProgress m.sender p.probe

/-- Hand leadership to the sender as soon as it holds everything. -/
def transferTo (m : Message) : ReplicaM Unit := do
  let r ← get
  let some p := r.electorate.get? m.sender | return
  if r.electorate.learners.contains m.sender ∨ r.transferee = some m.sender then
    return
  set { r with transferee := none }
  if m.sender = r.id then
    return
  modify ({ · with electionElapsed := 0, transferee := some m.sender })
  let last ← inquire Ledger.last
  if p.matched = last then
    send { kind := .timeoutNow, target := m.sender }
  else
    sendAppend m.sender

def stepLeader (m : Message) : ReplicaM (Except Refusal Unit) := do
  match m.kind with
  | .propose => return ← propose m
  | .beat => broadcastHeartbeat (((← get).reads.lastTag).getD [])
  | .checkQuorum =>
    let r ← get
    let (active, electorate) := r.electorate.pollActivity r.id
    set { r with electorate }
    if !active then
      becomeFollower r.term 0
  | .readIndex => serveRead m
  | .appendResponse => onAppendResponse m
  | .heartbeatResponse => onHeartbeatResponse m
  | .snapshotStatus => onSnapshotStatus m
  | .unreachable => onUnreachable m
  | .transferLeader => transferTo m
  | _ => pure ()
  return .ok ()

end QuorumLab.Replica
