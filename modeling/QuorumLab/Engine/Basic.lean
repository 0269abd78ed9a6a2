import QuorumLab.Engine.Loop

/-!
# Engines

An engine is a driver behind a queue of commands, together with what its handle knows of
it. Handles only enqueue: the answers come from the loop. The queue has room for a few
commands; whoever sends one more is held up until the driver has taken one, and then has
its turn. Once a driver has ended, whatever it left unanswered reads as a shutdown.
-/

namespace QuorumLab

/-- How a driver ended: its loop returned, or it did not survive a fault. -/
inductive Ending where
  | returned (result : Except Failure Unit)
  | crashed (f : Fault)
  deriving Repr

structure Engine (κ μ : Type) where
  id : Nat
  loop : Loop κ μ
  /-- Commands that were sent and not yet taken in, oldest first: those that have found room,
  then those whose senders are held up. -/
  queue : List Command := []
  /-- Tickets given out so far. -/
  issued : Nat := 0
  ending : Option Ending := none
  /-- Whether someone has asked for the driver's end and may wait for it. -/
  claimed : Bool := false
  deriving Repr

/-- What comes of a call: a failure at once, or a ticket. Who is held up with a ticket learns
nothing by it before its command is taken in. -/
inductive Promise where
  | failed (f : Failure)
  | ticket (n : Nat)
  deriving Repr, DecidableEq, Inhabited

namespace Engine

variable {κ μ ω : Type} [Core κ] [Machine μ] [Carrier ω]

/-- For how many commands there is room. -/
def depth : Nat := 100

/-- How long a query waits for its answer. -/
def queryTimeout : Nat := 5 * Span.second

def driver (e : Engine κ μ) : Driver κ μ := e.loop.driver

def published (e : Engine κ μ) : Published := e.driver.published

def ended (e : Engine κ μ) : Bool := e.ending.isSome

/-- Whether an iteration is held up in the middle. -/
def held (e : Engine κ μ) : Bool := !e.ended && !e.loop.idle

/-! ## The end -/

/-- Refuse a queued command. -/
def reject (d : Driver κ μ) : Command → Driver κ μ
  | .propose ticket _ | .snapshot ticket => d.answer ticket (.error .shutdown)
  | .membership _ | .stop => d

/-- End the driver. When its loop returns, all that wait are told; a crash tells nobody. -/
def finish (e : Engine κ μ) (ending : Ending) : Engine κ μ :=
  let d := match ending with
    | .returned _ => e.queue.foldl reject (e.driver.failPending .shutdown)
    | .crashed _ => e.driver
  { e with
    loop := { e.loop with driver := { d with published := { d.published with state := .shutdown } } }
    queue := []
    ending := some ending }

/-! ## Iterations -/

/-- Go on with an iteration until it is over, held up, or ends the driver. -/
def resume (e : Engine κ μ) (w : ω) : Engine κ μ × ω :=
  if e.ended then (e, w)
  else match e.loop.run w with
    | (loop, w, .idle) | (loop, w, .held) => ({ e with loop }, w)
    | (loop, w, .stopped f) => (({ e with loop } : Engine κ μ).finish (.returned (.error f)), w)
    | (loop, w, .fault f) => (({ e with loop } : Engine κ μ).finish (.crashed f), w)

/-- One iteration, woken by the oldest command, else by a message or the clock. All messages
that have come in are taken along, unless the command is to stop. -/
def cycle (e : Engine κ μ) (inbox : List Message) (t : Readings) (w : ω) : Engine κ μ × ω :=
  match e.queue with
  | .stop :: rest => (({ e with queue := rest } : Engine κ μ).finish (.returned (.ok ())), w)
  | c :: rest =>
    ({ e with queue := rest, loop := e.loop.wake [.handle c] inbox t } : Engine κ μ).resume w
  | [] => ({ e with loop := e.loop.wake [] inbox t } : Engine κ μ).resume w

/-! ## Handles -/

/-- Whether whoever sends a command now is held up. -/
def full (e : Engine κ μ) : Bool := depth ≤ e.queue.length

/-- Send a command that is made for the next ticket. -/
def enqueue (e : Engine κ μ) (c : Nat → Command) : Promise × Engine κ μ :=
  if e.ended then (.failed .shutdown, e)
  else (.ticket e.issued, { e with queue := e.queue ++ [c e.issued], issued := e.issued + 1 })

/-- Propose a command. Who proposes is never held up: without room it gives up. -/
def apply (e : Engine κ μ) (data : Bytes) : Promise × Engine κ μ :=
  if e.published.state = .shutdown then (.failed .shutdown, e)
  else if !e.ended && e.full then (.failed (.timeout "enqueuing command"), e)
  else e.enqueue (.propose · data)

/-- Ask for a snapshot. Who asks is held up if there is no room. -/
def snapshot (e : Engine κ μ) : Promise × Engine κ μ := e.enqueue .snapshot

/-- Ask for the membership, in the same way. -/
def membership (e : Engine κ μ) : Promise × Engine κ μ := e.enqueue .membership

/-- What a promise has come to, if anything yet. -/
def outcome? (e : Engine κ μ) : Promise → Option Outcome
  | .failed f => some (.error f)
  | .ticket n =>
    match e.driver.answers.lookup n with
    | some o => some o
    | none => if e.ended then some (.error .shutdown) else none

/-- Ask the driver to end. Only the first who asks may wait for it, and sends a command: if there
is no room, it has claimed the driver while it is held up. -/
def requestStop (e : Engine κ μ) : Bool × Engine κ μ :=
  if e.claimed then (false, e)
  else
    let queue := if e.ended then e.queue else e.queue ++ [.stop]
    (true, { e with claimed := true, queue })

/-- What waiting for the end of the driver gives, once it has ended. -/
def result? (e : Engine κ μ) : Option (Except Failure Unit) :=
  e.ending.map fun
    | .returned r => r
    | .crashed _ => .error (.panicked e.id)

/-- The engine as it is shown to a reader. -/
def text (e : Engine κ μ) : String :=
  let p := e.published
  s!"Raft \x7b id: {e.id}, state: {p.state.text}, term: {p.term}, applied: {p.applied} \x7d"

end Engine

end QuorumLab
