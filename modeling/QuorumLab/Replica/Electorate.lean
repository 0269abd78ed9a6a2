import QuorumLab.Replica.Progress

/-!
# The electorate of a replica

Who votes and who learns, what is known about each of them, and the votes of the
running election. A majority of the voters decides.
-/

namespace QuorumLab

inductive Verdict where
  | won | lost | undecided
  deriving Repr, DecidableEq, Inhabited

structure Electorate where
  voters : List Nat := []
  learners : List Nat := []
  progress : List (Nat × Progress) := []
  votes : List (Nat × Bool) := []
  window : Nat := 0
  deriving Repr, DecidableEq, Inhabited

namespace Electorate

def majority (n : Nat) : Nat := n / 2 + 1

def get? (e : Electorate) (id : Nat) : Option Progress := e.progress.lookup id

def contains (e : Electorate) (id : Nat) : Bool := (e.get? id).isSome

/-- Put `p` in place of what is known about `id`. -/
def set (e : Electorate) (id : Nat) (p : Progress) : Electorate :=
  { e with progress := e.progress.map fun m => if m.1 = id then (id, p) else m }

def membership (e : Electorate) : Membership := { voters := e.voters, learners := e.learners }

/-- A window keeps an index of eight bytes for every append in flight, and fewer than
`2 ^ 63` bytes can be set aside. -/
def widest : Nat := Nat.pow 2 60 - 1

/-- Start to know about `id`; a new member counts as active. -/
def introduce (e : Electorate) (id next : Nat) : Except Fault Electorate :=
  if e.contains id then .ok e
  else if widest < e.window then .error .capacityOverflow
  else .ok
    { e with
      progress := e.progress ++ [(id, { next, recentlyActive := true, window := e.window })] }

/-- Let `id` vote. -/
def enfranchise (e : Electorate) (id : Nat) : Electorate :=
  { e with voters := e.voters.filter (· ≠ id) ++ [id], learners := e.learners.filter (· ≠ id) }

/-- Let `id` learn, without a vote. -/
def demote (e : Electorate) (id : Nat) : Electorate :=
  { e with voters := e.voters.filter (· ≠ id), learners := e.learners.filter (· ≠ id) ++ [id] }

/-- One member after the other; id 0 stands for nobody, and voters must remain. -/
def addEach (place : Electorate → Nat → Electorate) (next : Nat) :
    List Nat → Electorate → Except Fault (Except Refusal Electorate)
  | [], e => .ok (.ok e)
  | id :: rest, e => do
    let e := if id = 0 then e else place e id
    if e.voters.isEmpty then
      return .error (.invalid "removed all voters")
    let e ← if id = 0 then pure e else e.introduce id next
    addEach place next rest e

/-- The electorate of a membership: its voters, then its learners. -/
def ofMembership (window next : Nat) (m : Membership) :
    Except Fault (Except Refusal Electorate) := do
  match ← addEach enfranchise next m.voters { window } with
  | .error refusal => return .error refusal
  | .ok e => addEach demote next m.learners e

def sameMembers (a b : List Nat) : Bool := a.all b.contains && b.all a.contains

/-- Whether the electorate is that of `m`, order and repetition aside. -/
def agreesWith (e : Electorate) (m : Membership) : Bool :=
  sameMembers m.voters e.voters && sameMembers m.learners e.learners

/-- The members as a list of set names and ids, for a fault's text. -/
def members (m : Membership) : List (String × Nat) :=
  m.voters.map ("voters", ·) ++ m.learners.map ("learners", ·)

/-- The outcome of a vote in which `ballot id` is what `id` said, if anything. -/
def verdict (e : Electorate) (ballot : Nat → Option Bool) : Verdict :=
  if e.voters.isEmpty then .won
  else
    let yes := e.voters.countP fun id => ballot id == some true
    let missing := e.voters.countP fun id => ballot id == none
    let needed := majority e.voters.length
    if needed ≤ yes then .won else if needed ≤ yes + missing then .undecided else .lost

def hasQuorum (e : Electorate) (ids : List Nat) : Bool :=
  e.verdict (fun id => if ids.contains id then some true else none) == .won

/-- The first word of each voter counts. -/
def recordVote (e : Electorate) (id : Nat) (granted : Bool) : Electorate :=
  if (e.votes.lookup id).isSome then e else { e with votes := (id, granted) :: e.votes }

def tally (e : Electorate) : Verdict := e.verdict fun id => e.votes.lookup id

/-- The greatest index that a majority of the voters holds; without voters, the largest word. -/
def quorumIndex (e : Electorate) : Nat :=
  if e.voters.isEmpty then maxWord
  else
    let held := e.voters.map fun id => ((e.get? id).map Progress.matched).getD 0
    let backed := held.filter fun i => majority held.length ≤ held.countP (i ≤ ·)
    backed.foldl max 0

/-- Whether a quorum was active since the last time this was asked, from the view of `own`. -/
def pollActivity (e : Electorate) (own : Nat) : Bool × Electorate :=
  let active := (e.progress.filter fun m => m.1 == own || m.2.recentlyActive).map Prod.fst
  let progress := e.progress.map fun m => (m.1, { m.2 with recentlyActive := m.1 == own })
  (e.hasQuorum active, { e with progress })

end Electorate

end QuorumLab
