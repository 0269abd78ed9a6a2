import QuorumLab.Engine.Start
import QuorumLab.Machine.Recorder
import QuorumLab.Proofs.Runs

/-!
# What can happen to an engine

One engine as its surroundings see it: handles call it, its loop is woken and does one
statement after another, the network changes under it. A run is any order of such events.
-/

namespace QuorumLab

inductive Event (ω : Type) where
  | apply (data : Bytes)
  | snapshot
  | membership
  | requestStop
  /-- The loop takes the oldest command, along with the messages that have come in. -/
  | command (inbox : List Message) (t : Readings)
  /-- The loop is woken by a message or by the clock. -/
  | wake (inbox : List Message) (t : Readings)
  /-- The last handle is dropped. -/
  | abandon
  | statement
  | network (w : ω)
  deriving Repr, DecidableEq

theorem bind_ok {ε α β : Type} {x : Except ε α} {g : α → Except ε β} {b : β}
    (h : (x >>= g) = .ok b) : ∃ a, x = .ok a ∧ g a = .ok b := by
  cases x with
  | error e => cases h
  | ok a => exact ⟨a, rfl, h⟩

namespace Replica

variable {s : Shelf} {r r' : Replica}

/-- Where a step of a replica and what follows it succeed, both do. -/
theorem bind_ok {α β : Type} {x : ReplicaM α} {g : α → ReplicaM β} {b : β}
    (h : (x >>= g) s r = .ok (b, r')) : ∃ a r₁, x s r = .ok (a, r₁) ∧ g a s r₁ = .ok (b, r') := by
  obtain ⟨⟨a, r₁⟩, first, rest⟩ := QuorumLab.bind_ok h
  exact ⟨a, r₁, first, rest⟩

theorem wake_role {m : Membership} {electorate : Electorate}
    (h : wake m electorate s r = .ok ((), r')) : r'.role = .follower := by
  obtain ⟨-, r₁, -, h⟩ := bind_ok h
  obtain ⟨shelf, r₂, -, h⟩ := bind_ok h
  dsimp only at h
  split at h
  case' isTrue => obtain ⟨-, r₃, -, h⟩ := bind_ok h
  all_goals
    obtain ⟨r₄, r₅, -, h⟩ := bind_ok h
    obtain ⟨-, r₆, -, h⟩ := bind_ok h
    obtain ⟨r₇, r₈, -, h⟩ := bind_ok h
    obtain ⟨_, r₉, followed, h⟩ := bind_ok h
    obtain ⟨_, r₁₀, -, last⟩ := bind_ok followed
    cases last
    cases h
    rfl

theorem start_role {settings : ReplicaSettings} (h : start settings s = .ok (.ok r)) :
    r.role = .follower := by
  obtain ⟨valid, -, h⟩ := QuorumLab.bind_ok h
  cases valid with
  | error failure => cases h
  | ok _ =>
    obtain ⟨ledger, -, h⟩ := QuorumLab.bind_ok h
    obtain ⟨e, -, h⟩ := QuorumLab.bind_ok h
    cases e with
    | error refusal => cases h
    | ok electorate =>
      obtain ⟨⟨_, r'⟩, woken, h⟩ := QuorumLab.bind_ok h
      cases h
      exact wake_role woken

end Replica

namespace Engine

section Start

variable {κ μ : Type} {id : Nat} {settings : Settings} {machine : μ}
variable {shelf s : Shelf} {peers : Directory} {now : Nat}

/-- An engine that was started is one that nothing has happened to since its protocol began. -/
theorem startBy_ok [Core κ] {genesis : Genesis κ} {e : Engine κ μ}
    (h : startBy genesis id settings machine shelf peers now = (.ok (.ok e), s)) :
    s = recordMembers id peers shelf ∧ ∃ replica core, genesis replica s = .ok (.ok core) ∧
      e = boot id settings core machine s peers now := by
  unfold startBy at h
  split at h
  · cases h
  · obtain ⟨started, rfl⟩ := Prod.mk.inj h
    refine ⟨rfl, ?_⟩
    obtain ⟨r, -, started⟩ := bind_ok started
    cases r with
    | error failure => cases started
    | ok replica =>
      obtain ⟨c, begun, started⟩ := bind_ok started
      cases c with
      | error failure => cases started
      | ok core =>
        by_cases late : horizon ≤ now + settings.tick
        · simp only [late, if_true] at started
          cases started
        · simp only [late, if_false] at started
          cases started
          exact ⟨replica, core, begun, rfl⟩

/-- A new replica follows. -/
theorem start_ok {e : Engine Replica μ}
    (h : start id settings machine shelf peers now = (.ok (.ok e), s)) :
    s = recordMembers id peers shelf ∧
      ∃ core, core.role = .follower ∧ e = boot id settings core machine s peers now := by
  obtain ⟨recorded, replica, core, begun, new⟩ := startBy_ok h
  exact ⟨recorded, core, Replica.start_role begun, new⟩

end Start

variable {κ μ ω : Type} [Core κ] [Machine μ] [Carrier ω]

/-- Whether the loop waits for something to happen. -/
def resting (e : Engine κ μ) : Bool := !e.ended && e.loop.idle

/-- The round that the next statement is given by the protocol, if it asks for one. -/
def round? (e : Engine κ μ) : Option Ready :=
  match e.ending, e.loop.stage, e.loop.todo with
  | none, .opening, [] =>
    match Core.ready e.driver.shelf e.driver.core with
    | .ok (some (r, _)) => some r
    | _ => none
  | _, _, _ => none

/-- What the next statement is given by the protocol once a round is stored. -/
def followup? (e : Engine κ μ) : Option Followup :=
  match e.ending, e.loop.stage, e.loop.todo with
  | none, .storing, [] =>
    match Core.advance e.driver.shelf e.driver.core with
    | .ok (f, _) => some f
    | _ => none
  | _, _, _ => none

/-- Begin an iteration with what is in the queue. -/
def take (e : Engine κ μ) (inbox : List Message) (t : Readings) : Engine κ μ :=
  match e.queue with
  | [] => e
  | .stop :: rest => ({ e with queue := rest } : Engine κ μ).finish (.returned (.ok ()))
  | c :: rest => { e with queue := rest, loop := e.loop.wake [.handle c] inbox t }

/-- One statement of an iteration that is under way. -/
def advance (e : Engine κ μ) (w : ω) : Engine κ μ × ω :=
  if e.ended || e.loop.idle then (e, w)
  else match e.loop.advance w with
    | .done (loop, w) => ({ e with loop }, w)
    | .held => (e, w)
    | .stopped f (loop, w) => (({ e with loop } : Engine κ μ).finish (.returned (.error f)), w)
    | .fault f => (e.finish (.crashed f), w)

/-- The engine and the network after an event. What is not possible changes nothing. -/
def after (e : Engine κ μ) (w : ω) : Event ω → Engine κ μ × ω
  | .apply data => ((e.apply data).2, w)
  | .snapshot => (e.snapshot.2, w)
  | .membership => (e.membership.2, w)
  | .requestStop => (e.requestStop.2, w)
  | .command inbox t => (if e.resting then e.take inbox t else e, w)
  | .wake inbox t => (if e.resting then { e with loop := e.loop.wake [] inbox t } else e, w)
  | .abandon =>
    (if e.resting && e.queue.isEmpty then e.finish (.returned (.ok ())) else e, w)
  | .statement => e.advance w
  | .network w => (e, w)

end Engine

/-- An engine and its network, with a record of what has happened so far. -/
structure Moment (κ μ ω γ : Type) where
  engine : Engine κ μ
  network : ω
  record : γ

/-- The moment after an event, which is recorded as `record`. -/
def Moment.next {κ μ ω γ : Type} [Core κ] [Machine μ] [Carrier ω] (m : Moment κ μ ω γ)
    (v : Event ω) (record : γ) : Moment κ μ ω γ :=
  { engine := (m.engine.after m.network v).1
    network := (m.engine.after m.network v).2
    record }

/-! ## A follower to try runs on -/

namespace Sample

/-- The stores of a member of three, before anything is replicated. -/
def shelf : Shelf := { stable := { membership := { voters := [1, 2, 3] } } }

/-- A follower as it starts over some stores. -/
def follower (id : Nat) (s : Shelf) : Replica :=
  let started : Except Fault (Except Failure Replica) := do
    match ← ({} : Settings).toReplica id s.snapshots.index with
    | .error failure => return .error failure
    | .ok replica => Replica.start replica s
  match started with
  | .ok (.ok core) => core
  | _ => default

/-- Its engine keeps no entry behind a snapshot. -/
def engine (id : Nat) (s : Shelf) : Engine Replica Recorder :=
  Engine.boot id { trailing := 0 } (follower id s) {} s [] 0

/-- Every entry of the log is a command that says its index. -/
def log (index : Nat) : Entry :=
  { term := 1, index, data := [UInt8.ofNat index], context := commandMark }

/-- The leader appends the entry at `index` and says that it is committed. -/
def append (id index : Nat) : Message where
  kind := .append
  sender := 3
  target := id
  term := 1
  logTerm := if index = 1 then 0 else 1
  index := index - 1
  commit := index
  entries := [log index]

/-- The leader sends a snapshot of the first two commands. -/
def ship (id : Nat) : Message where
  kind := .snapshot
  sender := 3
  target := id
  term := 1
  snapshot :=
    { index := 2, term := 1, membership := shelf.stable.membership
      data := Recorder.encode ⟨2, [[1], [2]]⟩ }

/-- The stores of a node that is alone. -/
def solo : Shelf := { stable := { membership := { voters := [1] } } }

/-- What makes a node campaign at once. -/
def campaign (id : Nat) : Message := { kind := .timeoutNow, sender := id, target := id }

/-- A whole iteration that some messages set off. -/
def iteration (inbox : List Message) : List (Event Station) :=
  .wake inbox (.moment 0) :: List.replicate 16 .statement

/-- A call, and the whole iteration that takes it from the queue. -/
def call (v : Event Station) : List (Event Station) :=
  v :: .command [] (.moment 0) :: List.replicate 16 .statement

end Sample

end QuorumLab
