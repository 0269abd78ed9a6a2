import QuorumLab.Engine.Driver

/-!
# The loop of a driver

Every iteration of a driver's loop takes in what woke it, ticks if it is time, looks at
the snapshot policy, works off one round of the protocol and publishes. The loop advances
one statement at a time, so that it can be watched, held up or ended between any two.
-/

namespace QuorumLab

/-- A statement of the loop, with what it needs from outside: messages, commands, entries
and readings of the clock. -/
inductive Act where
  | receive (m : Message)
  | handle (c : Command)
  | tick (now later : Nat)
  | policy (now later : Nat)
  | send (m : Message)
  | restore (s : Snapshot)
  | apply (e : Entry)
  | append (batch : List Entry)
  | setHardState (h : HardState)
  | setCommit (index : Nat)
  | settle
  | observe
  | publish
  deriving Repr, DecidableEq, Inhabited

/-- What came of a statement: it was done, is held up, or ended the driver with a failure, which
leaves it behind changed or not, or with a fault. -/
inductive Effect (α : Type) where
  | done (a : α)
  | held
  | stopped (f : Failure) (left : α)
  | fault (f : Fault)
  deriving Repr

namespace Effect

variable {α β : Type}

def ofFault : Except Fault α → Effect α
  | .ok a => done a
  | .error f => fault f

def ofSetback : Except (Setback α) α → Effect α
  | .ok a => done a
  | .error s => stopped s.failure s.left

def ofApplied : Applied α → Effect α
  | .done a => done a
  | .held => held
  | .fault f => fault f

def map (g : α → β) : Effect α → Effect β
  | done a => done (g a)
  | held => held
  | stopped f left => stopped f (g left)
  | fault f => fault f

end Effect

namespace Driver

variable {κ μ ω : Type} [Core κ] [Machine μ] [Carrier ω]

def perform (d : Driver κ μ) (w : ω) : Act → Effect (Driver κ μ × ω)
  | .receive m => (Effect.ofFault (d.receive m)).map (·, w)
  | .handle c => (Effect.ofFault (d.handle c)).map (·, w)
  | .tick now later => (Effect.ofFault (d.tickIfDue now later)).map (·, w)
  | .policy now later => .done (d.checkPolicy now later, w)
  | .send m => Effect.ofFault (d.send m w)
  | .restore s => (Effect.ofSetback (d.restore s)).map (·, w)
  | .apply e => (Effect.ofApplied (d.apply e)).map (·, w)
  | .append batch => (Effect.ofSetback (d.append batch)).map (·, w)
  | .setHardState h => .done (d.setStable (·.setHardState h), w)
  | .setCommit index => .done (d.setStable (·.setCommit index), w)
  | .settle => (Effect.ofFault (Core.advanceApplied d.core)).map fun core => ({ d with core }, w)
  | .observe => .done (d.observeRole, w)
  | .publish => .done (d.publish, w)

end Driver

/-- Everything before the round, the round until it is stored, and everything after. -/
inductive Stage where
  | opening | storing | closing
  deriving Repr, DecidableEq, Inhabited

namespace Stage

/-- How many stages follow. -/
def left : Stage → Nat
  | opening => 2
  | storing => 1
  | closing => 0

end Stage

/-- A driver in the middle of an iteration: what is left to do of the current stage. -/
structure Loop (κ μ : Type) where
  driver : Driver κ μ
  stage : Stage := .closing
  todo : List Act := []
  deriving Repr

/-- The clock as the statements of one iteration read it. -/
structure Readings where
  /-- When the loop looks whether a tick is due, and after the tick. -/
  due : Nat
  ticked : Nat
  /-- When the snapshot policy looks, and when it notes that it did. -/
  checked : Nat
  noted : Nat
  deriving Repr, DecidableEq, Inhabited

namespace Readings

/-- All statements at the same moment. -/
def moment (now : Nat) : Readings := { due := now, ticked := now, checked := now, noted := now }

end Readings

namespace Ready

/-- A round in the order it is worked off. What was held back is sent once everything is
stored. -/
def acts (r : Ready) : List Act :=
  r.messages.map .send ++ (r.snapshot.map .restore).toList ++ r.committed.map .apply ++
    (if r.entries.isEmpty then [] else [.append r.entries]) ++
    (r.hard.map .setHardState).toList ++ r.heldMessages.map .send

end Ready

namespace Followup

def acts (f : Followup) : List Act :=
  (f.commit.map .setCommit).toList ++ f.messages.map .send ++ f.committed.map .apply ++ [.settle]

end Followup

namespace Loop

variable {κ μ ω : Type} [Core κ] [Machine μ] [Carrier ω]

/-- The last statements of every iteration. -/
def coda : List Act := [.observe, .publish]

def idle (l : Loop κ μ) : Bool := l.stage == .closing && l.todo.isEmpty

/-- Begin an iteration: what woke the loop, then all messages that have come in. -/
def wake (l : Loop κ μ) (cause : List Act) (inbox : List Message) (t : Readings) : Loop κ μ :=
  { l with
    stage := .opening
    todo := cause ++ inbox.map .receive ++ [.tick t.due t.ticked, .policy t.checked t.noted] }

/-- Go on to the next stage. -/
def turn (l : Loop κ μ) : Effect (Loop κ μ) :=
  match l.stage with
  | .opening =>
    match Core.ready l.driver.shelf l.driver.core with
    | .error f => .fault f
    | .ok none => .done { l with stage := .closing, todo := coda }
    | .ok (some (ready, core)) =>
      .done { driver := { l.driver with core }, stage := .storing, todo := ready.acts }
  | .storing =>
    match Core.advance l.driver.shelf l.driver.core with
    | .error f => .fault f
    | .ok (followup, core) => .done
      { driver := { l.driver with core }, stage := .closing, todo := followup.acts ++ coda }
  | .closing => .done l

/-- One statement, or one turn when the stage has none left. -/
def advance (l : Loop κ μ) (w : ω) : Effect (Loop κ μ × ω) :=
  match l.todo with
  | a :: rest =>
    (l.driver.perform w a).map fun (driver, w) => ({ l with driver, todo := rest }, w)
  | [] => l.turn.map (·, w)

omit [Machine μ] in
theorem left_turn_lt {l l' : Loop κ μ} (h : l.turn = .done l') (stage : l.stage ≠ .closing) :
    l'.stage.left < l.stage.left := by
  unfold turn at h
  split at h
  · rename_i hs
    split at h <;> cases h <;> simp [hs, Stage.left]
  · rename_i hs
    split at h <;> cases h
    simp [hs, Stage.left]
  · contradiction

/-- Why a loop came to rest. -/
inductive Rest where
  | idle
  | held
  | stopped (f : Failure)
  | fault (f : Fault)
  deriving Repr, DecidableEq, Inhabited

/-- Advance until the iteration is finished, held up, or the driver ends. -/
def run (l : Loop κ μ) (w : ω) : Loop κ μ × ω × Rest :=
  match _hl : l.todo with
  | a :: rest =>
    match l.driver.perform w a with
    | .done (driver, w) => run { l with driver, todo := rest } w
    | .held => (l, w, .held)
    | .stopped f (driver, w) => ({ l with driver, todo := rest }, w, .stopped f)
    | .fault f => (l, w, .fault f)
  | [] =>
    if _hs : l.stage = .closing then (l, w, .idle)
    else match _ht : l.turn with
      | .done l' => run l' w
      | .held => (l, w, .held)
      | .stopped f l' => (l', w, .stopped f)
      | .fault f => (l, w, .fault f)
termination_by (l.stage.left, l.todo.length)
decreasing_by
  · apply Prod.Lex.right
    simp [_hl]
  · exact Prod.Lex.left _ _ (left_turn_lt _ht _hs)

end Loop

end QuorumLab
