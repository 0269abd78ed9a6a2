import QuorumLab.Engine.Start
import QuorumLab.Machine.Rig
import QuorumLab.Poll

/-!
# A bench for one engine

One engine whose peers are bare endpoints: what they send is written by hand, and what
reaches them can be read. The clock stands still but for the time that an iteration of
the loop takes, and while somebody waits.
-/

namespace QuorumLab

structure Solo where
  engine : Engine Replica Rig
  /-- The engine's endpoint comes first, then those of the peers. -/
  fabric : Fabric
  clock : Nat := clockStart
  deriving Repr

namespace Solo

/-- How long an iteration takes. -/
def pace : Nat := 1000

/-- How often a settled loop goes round to find nothing left to do. -/
def rounds : Nat := 8

def own : Site := .inside 0

/-- The index of the last endpoint with this id among the peers. -/
def peerIn? (f : Fabric) (id : Nat) : Option Nat :=
  ((f.endpoints.zipIdx.drop 1).reverse.find? (·.1.id = id)).map Prod.snd

def peer? (b : Solo) (id : Nat) : Option Nat := peerIn? b.fabric id

/-- Add a peer that reaches the engine at `address`; the engine reaches it only if it is
`linked`. An earlier peer with its id is destroyed, but not forgotten by the engine. -/
def addPeer (f : Fabric) (address : String) (p : Peer) (linked : Bool) : Fabric :=
  let f := match peerIn? f p.id with
    | some i => f.destroy (.inside i)
    | none => f
  let here := f.size
  let f := (f.add p.id p.address).update here (·.register address own)
  if linked then f.updateAt own (·.register p.address (.inside here)) else f

/-- The fabric of an engine and its peers: every peer reaches the engine, and the engine
reaches all but the peers in `unlinked`. -/
def wire (id : Nat) (address : String) (peers : List Peer) (unlinked : List Nat) : Fabric :=
  peers.foldl (fun f p => addPeer f address p (!unlinked.contains p.id))
    (Fabric.add {} id address)

/-- Start an engine on the bench. It knows the peers in `known`; all in `peers` are there. The
shelf is returned as well: a failed start may have changed it. -/
def start (id : Nat) (address : String) (settings : Settings) (machine : Rig) (shelf : Shelf)
    (known : Directory) (peers : List Peer) (unlinked : List Nat) :
    Except Fault (Except Failure Solo) × Shelf :=
  let (started, shelf) := Engine.start id settings machine shelf known clockStart
  let bench (engine : Engine Replica Rig) : Solo :=
    { engine, fabric := wire id address peers unlinked }
  (started.map (·.map bench), shelf)

/-! ## Running -/

/-- One iteration of the loop. -/
def cycle (b : Solo) : Solo :=
  let (inbox, fabric) := b.fabric.drain own
  let (engine, w) := b.engine.cycle inbox (.moment b.clock) ({ fabric, site := own } : Station)
  { engine, fabric := w.fabric, clock := b.clock + pace }

def hasInput (b : Solo) : Bool :=
  !b.engine.queue.isEmpty || (b.fabric.endpoint? own).any fun e => !e.inbox.isEmpty

/-- Whether the loop would go round for `reason`. -/
def ready (b : Solo) (reason : Bool) : Bool := reason && !b.engine.ended && !b.engine.held

/-- Go round at most `n` times while there is input. -/
def drain : Nat → Solo → Solo
  | 0, b => b
  | n + 1, b => if b.ready b.hasInput then drain n b.cycle else b

/-- Work off all input. -/
def process (b : Solo) : Solo := drain (b.engine.queue.length + 2) b

/-- Go round until nothing is left to do. -/
def settle (b : Solo) : Solo :=
  if b.engine.held then b
  else (List.range rounds).foldl
    (fun b _ => ({ b with engine := b.engine.membership.2 } : Solo).process) b

/-- Let the clock reach `target`, with at most `n` ticks on the way. -/
def runTo (target : Nat) : Nat → Solo → Solo
  | 0, b => { b with clock := max b.clock target }
  | n + 1, b =>
    let due := b.engine.driver.nextTick
    if b.ready (due ≤ target && b.clock ≤ target) then
      runTo target n (({ b with clock := max b.clock due } : Solo).cycle).process
    else { b with clock := max b.clock target }

instance : Clock Solo where
  now := Solo.clock
  sleep span b := runTo (b.clock + max span pace) (max span pace / pace + 1) b.process

theorem le_clock_runTo (target n : Nat) (b : Solo) : target ≤ (runTo target n b).clock := by
  induction n generalizing b with
  | zero => exact Nat.le_max_right _ _
  | succ n ih =>
    rw [runTo]
    split
    · exact ih _
    · exact Nat.le_max_right _ _

instance : LawfulClock Solo where
  slept span b := by
    have least : max span 1 ≤ max span pace := by
      simp only [pace]
      omega
    exact Nat.le_trans (Nat.add_le_add_left least b.clock) (le_clock_runTo _ _ _)

/-! ## What a caller can do -/

def deliver (b : Solo) (m : Message) : Solo :=
  ({ b with fabric := b.fabric.updateAt own (·.deliver m) } : Solo).process

/-- Call the engine. -/
def call (b : Solo) (f : Engine Replica Rig → Promise × Engine Replica Rig) : Promise × Solo :=
  let (p, engine) := f b.engine
  (p, ({ b with engine } : Solo).process)

def apply (b : Solo) (data : Bytes) : Promise × Solo := b.call (·.apply data)

/-- Wait for a promise to be kept. -/
def await (b : Solo) (p : Promise) (span : Nat) (late : String) : Outcome × Solo :=
  match b.engine.outcome? p with
  | some o => (o, b)
  | none =>
    let b := Clock.sleep span b
    ((b.engine.outcome? p).getD (.error (.timeout late)), b)

/-- Wait for the result of a command. -/
def result (b : Solo) (p : Promise) (span : Nat) : Outcome × Solo :=
  b.await p span s!"result after {Span.text span}"

/-- Ask for a snapshot and wait for the answer. Who is held up gives up as late as if it were not:
nobody but the caller is on the bench, to see that the engine goes on. -/
def snapshot (b : Solo) : Outcome × Solo :=
  let (p, b) := b.call (·.snapshot)
  b.result p Engine.queryTimeout

def membership (b : Solo) : Outcome × Solo :=
  let (p, b) := b.call (·.membership)
  b.await p Engine.queryTimeout "configuration"

/-- Ask the engine to stop; says whether the caller may wait for it. -/
def requestStop (b : Solo) : Bool × Solo :=
  let (first, engine) := b.engine.requestStop
  (first, ({ b with engine } : Solo).process)

/-- Let the engine reach a peer. -/
def link (b : Solo) (id : Nat) : Solo :=
  match b.peer? id with
  | none => b
  | some i => match b.fabric.connect own (.inside i) with
    | .ok fabric => { b with fabric }
    | .error _ => b

def unlink (b : Solo) (id : Nat) : Solo :=
  match (b.peer? id).bind (b.fabric.endpoints[·]?) with
  | none => b
  | some e => { b with fabric := b.fabric.updateAt own (·.forget e.address) }

/-- Destroy the endpoint of a peer; says whether it was there. -/
def kill (b : Solo) (id : Nat) : Bool × Solo :=
  match b.peer? id with
  | none => (false, b)
  | some i =>
    let live := ((b.fabric.endpoints[i]?).map Endpoint.live).getD false
    (live, { b with fabric := b.fabric.destroy (.inside i) })

/-- Open the gate of the machine. -/
def openGate (b : Solo) : Solo :=
  let loop := b.engine.loop
  let w := loop.driver.machine
  let driver := { loop.driver with machine := { w with machine := { w.machine with opened := true } } }
  let engine := { b.engine with loop := { loop with driver } }
  if engine.held then
    let (engine, w) := engine.resume ({ fabric := b.fabric, site := own } : Station)
    ({ b with engine, fabric := w.fabric } : Solo).process
  else { b with engine }

/-- How a leader is waited for. -/
def leaderWatch (id : Nat) : Watch Solo Nat :=
  Watch.look s!"raft {id}" "a known leader" fun b =>
    let p := b.engine.published
    (p.leader?, s!"{p.state.text} with leader {Failure.optionText p.leader?}")

/-- Wait for what an observer is to see, for four seconds at most. -/
def awaitPublished (b : Solo) (expected : Published → Bool) : Solo :=
  let w : Watch Solo Unit :=
    Watch.look "" "" fun b => (if expected b.engine.published then some () else none, "")
  (w.poll Span.millisecond (4 * Span.second) b).2

/-- Take all messages that have reached the peers, by ascending ids. -/
def collect (b : Solo) : List Message × Solo :=
  let places := (b.fabric.endpoints.zipIdx.drop 1).mergeSort fun x y => x.1.id ≤ y.1.id
  let (messages, fabric) := places.foldl (fun (messages, f) (_, i) =>
    let (inbox, f) := f.drain (.inside i)
    (messages ++ inbox, f)) ([], b.fabric)
  (messages, { b with fabric })

end Solo

end QuorumLab
