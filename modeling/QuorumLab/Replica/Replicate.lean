import QuorumLab.Replica.Basic

/-!
# Bringing members up to date

What a leader sends to a member depends on its progress: the entries that follow, an
empty append that only carries the commit index, or a snapshot when the entries have
been compacted away.
-/

namespace QuorumLab.Replica

/-- The latest snapshot as a message to `member`, if the member is active and one exists. -/
def snapshotFor (member : Nat) (p : Progress) : ReplicaM (Option (Message × Progress)) := do
  if !p.recentlyActive then
    return none
  match ← inquire Ledger.snapshot with
  | .error _ => return none
  | .ok snapshot =>
    if snapshot.index = 0 then
      breach "empty snapshot"
    return some ({ kind := .snapshot, target := member, snapshot }, p.awaitSnapshot snapshot.index)

/-- Entries after `p.next - 1`, whose term is `logTerm`, as a message to `member`. -/
def appendFor (member : Nat) (p : Progress) (logTerm : Nat) (entries : List Entry) :
    ReplicaM (Message × Progress) := do
  let commit := (← get).ledger.committed
  let m : Message :=
    { kind := .append, target := member, index := p.next - 1, logTerm, entries, commit }
  match entries.getLast? with
  | some e => return (m, ← lift (p.sent e.index))
  | none => return (m, p)

/-- Send what is next to a member: whether anything was sent. -/
def trySend (member : Nat) (allowEmpty : Bool) : ReplicaM Bool := do
  let some p ← progress? member | return false
  if p.isPaused then
    return false
  let limit := (← get).settings.maxMessageSize
  let entries ← inquire! fun l s => l.entriesFrom s p.next (some limit)
  let nothing := match entries with
    | .ok batch => batch.isEmpty
    | .error _ => true
  if !allowEmpty && nothing then
    return false
  let logTerm ← inquire fun l s => l.term s (p.next - 1)
  let message ← match logTerm, entries with
    | .ok logTerm, .ok batch => some <$> appendFor member p logTerm batch
    | _, _ => snapshotFor member p
  match message with
  | none => return false
  | some (m, p) =>
    setProgress member p
    send m
    return true

def sendAppend (member : Nat) : ReplicaM Unit := do
  let _ ← trySend member true

/-- Send up to `chunks` chunks, until nothing is left or the member is paused. -/
def sendChunks (member : Nat) : Nat → ReplicaM Unit
  | 0 => return
  | chunks + 1 => do
    if ← trySend member false then
      sendChunks member chunks

/-- Send everything that is left, without empty appends. Every chunk takes a place in the
window or pauses the member, so that no more are sent than the window is wide. -/
def sendRest (member : Nat) : ReplicaM Unit := do
  sendChunks member ((← get).electorate.window + 1)

def broadcastAppend : ReplicaM Unit := do
  for member in ← others do
    sendAppend member

/-- A heartbeat tells a member to commit no more than what it is known to hold. -/
def sendHeartbeat (tag : Bytes) (member : Nat) : ReplicaM Unit := do
  let matched := ((← progress? member).map Progress.matched).getD 0
  let commit := min matched (← get).ledger.committed
  send { kind := .heartbeat, target := member, commit, context := tag }

def broadcastHeartbeat (tag : Bytes) : ReplicaM Unit := do
  for member in ← others do
    sendHeartbeat tag member

/-- Commit what a majority holds, if it is of the current term. -/
def commitByQuorum : ReplicaM Bool := do
  let r ← get
  maybeCommitAt r.electorate.quorumIndex r.term

end QuorumLab.Replica
