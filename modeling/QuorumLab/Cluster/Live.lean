import QuorumLab.Cluster.Knob
import QuorumLab.Engine.Start
import QuorumLab.Poll

/-!
# Running clusters

The engines of a cluster over its fabric, and one clock for all of them. Engines take
turns: a turn is one iteration of an engine's loop. While nobody waits, engines go on
only as long as there is input for one of them.
-/

namespace QuorumLab

/-- Names an engine: which cluster started it, and its id there. -/
structure Handle where
  serial : Nat
  id : Nat
  deriving Repr, DecidableEq, Inhabited

structure Live (μ : Type) where
  cluster : Cluster
  knobs : List Knob
  /-- The machines that were brought, one per node. -/
  machines : List μ
  serial : Nat := 0
  /-- The engines that were started, under the index of their node, ascending. -/
  engines : List (Nat × Engine Replica μ) := []
  clock : Nat := clockStart
  pollInterval : Nat := QuorumLab.pollInterval
  /-- Whether the cluster has been closed. -/
  closed : Bool := false

namespace Live

variable {μ : Type} [Machine μ]

/-- How long an iteration takes. -/
def pace : Nat := 1000

def engine? (l : Live μ) (i : Nat) : Option (Engine Replica μ) := l.engines.lookup i

def setEngine (l : Live μ) (i : Nat) (e : Engine Replica μ) : Live μ :=
  { l with engines := l.engines.map fun x => if x.1 = i then (i, e) else x }

def setFabric (l : Live μ) (fabric : Fabric) : Live μ :=
  { l with cluster := { l.cluster with fabric } }

def fabric (l : Live μ) : Fabric := l.cluster.fabric

def station (l : Live μ) (i : Nat) : Station := { fabric := l.fabric, site := .inside i }

/-! ## Turns -/

/-- One iteration of the engine of node `i`. -/
def cycle (l : Live μ) (i : Nat) : Live μ :=
  match l.engine? i with
  | none => l
  | some e =>
    let (inbox, fabric) := l.fabric.drain (.inside i)
    let (e, w) := e.cycle inbox (.moment l.clock) ({ fabric, site := .inside i } : Station)
    { (l.setFabric w.fabric).setEngine i e with clock := l.clock + pace }

def inboxEmpty (l : Live μ) (i : Nat) : Bool :=
  ((l.fabric.endpoint? (.inside i)).map fun e => e.inbox.isEmpty).getD true

/-- Whether an engine can go on. -/
def runnable (e : Engine Replica μ) : Bool := !e.ended && !e.held

/-- Whether the engine of node `i` has input to work off. -/
def hasInput (l : Live μ) (i : Nat) : Bool :=
  match l.engine? i with
  | none => false
  | some e => runnable e && (!e.queue.isEmpty || !l.inboxEmpty i)

/-- A turn for every engine that has input. -/
def sweep (l : Live μ) : Live μ :=
  l.engines.foldl (fun l x => if l.hasInput x.1 then l.cycle x.1 else l) l

/-- Sweep until nobody has input, `n` times at most. -/
def settleWithin : Nat → Live μ → Live μ
  | 0, l => l
  | n + 1, l => if l.engines.any fun x => l.hasInput x.1 then settleWithin n l.sweep else l

/-- How many sweeps are made in a row without the clock being looked at. -/
def patience : Nat := 10000

def settle (l : Live μ) : Live μ := settleWithin patience l

/-- `n` turns for the engine of node `i` alone, as long as it has commands. -/
def obeyWithin (i : Nat) : Nat → Live μ → Live μ
  | 0, l => l
  | n + 1, l =>
    if (l.engine? i).any fun e => runnable e && !e.queue.isEmpty then obeyWithin i n (l.cycle i)
    else l

/-- Let the engine of node `i` work off its commands while all others stand still. -/
def obey (l : Live μ) (i : Nat) : Live μ :=
  obeyWithin i (((l.engine? i).map fun e => e.queue.length).getD 0) l

/-! ## Time -/

/-- The engine whose next tick is due first, and when. -/
def nextDue (l : Live μ) : Option (Nat × Nat) :=
  l.engines.foldl (fun best x =>
    if runnable x.2 then
      let due := x.2.driver.nextTick
      match best with
      | some b => if due < b.2 then some (x.1, due) else best
      | none => some (x.1, due)
    else best) none

/-- Let the clock reach `target`, with at most `n` ticks on the way. -/
def runTo (target : Nat) : Nat → Live μ → Live μ
  | 0, l => { l with clock := max l.clock target }
  | n + 1, l =>
    match l.nextDue with
    | some (i, due) =>
      if due ≤ target && l.clock ≤ target then
        runTo target n (({ l with clock := max l.clock due } : Live μ).cycle i).settle
      else { l with clock := max l.clock target }
    | none => { l with clock := max l.clock target }

instance : Clock (Live μ) where
  now := Live.clock
  sleep span l := runTo (l.clock + max span pace) (max span pace / pace + 1) l.settle

theorem le_clock_runTo (target n : Nat) (l : Live μ) : target ≤ (runTo target n l).clock := by
  induction n generalizing l with
  | zero => exact Nat.le_max_right _ _
  | succ n ih =>
    rw [runTo]
    split
    · split
      · exact ih _
      · exact Nat.le_max_right _ _
    · exact Nat.le_max_right _ _

instance : LawfulClock (Live μ) where
  slept span l := by
    have least : max span 1 ≤ max span pace := by
      simp only [pace]
      omega
    exact Nat.le_trans (Nat.add_le_add_left least l.clock) (le_clock_runTo _ _ _)

/-! ## The end of engines -/

/-- Ask the engine of node `i` to end; says whether the caller may wait for it. -/
def requestStop (l : Live μ) (i : Nat) : Bool × Live μ :=
  match l.engine? i with
  | none => (false, l)
  | some e =>
    let (first, e) := e.requestStop
    (first, l.setEngine i e)

/-- Ask every engine of a list to end, before any of them is waited for. -/
def requestStops : List Nat → Live μ → List (Nat × Bool) × Live μ
  | [], l => ([], l)
  | i :: rest, l =>
    let (first, l) := l.requestStop i
    let (others, l) := requestStops rest l
    ((i, first) :: others, l)

/-- Wait for the end of an engine that was asked for it. An engine whose machine holds it up
has no result. -/
def join (l : Live μ) (i : Nat) : Except Failure Unit × Live μ :=
  let l := l.obey i
  (((l.engine? i).bind Engine.result?).getD (.ok ()), l)

/-- Wait for all who may be waited for, and collect the failures by position. -/
def joins : (position : Nat) → List (Nat × Bool) → Live μ → List (Nat × Failure) × Live μ
  | _, [], l => ([], l)
  | k, (i, first) :: rest, l =>
    let (result, l) := if first then l.join i else (.ok (), l)
    let (failures, l) := joins (k + 1) rest l
    match result with
    | .ok () => (failures, l)
    | .error f => ((k, f) :: failures, l)

/-- End the engines of these nodes. The failures come with their positions in the list. -/
def shutdownAll (l : Live μ) (nodes : List Nat) : List (Nat × Failure) × Live μ :=
  let (requested, l) := l.requestStops nodes
  joins 0 requested l

/-! ## The start of engines -/

section Start

variable (genesis : Genesis Replica)

/-- Start the engines of these nodes in order, each with its machine. When one is refused, those
that were started are ended again. A fault ends none of them. -/
def startNodes : List (Node × μ) → Live μ → Except Fault Unit × Live μ
  | [], l => (.ok (), l)
  | (n, machine) :: rest, l =>
    match Engine.startBy genesis n.id n.settings machine n.shelf n.peers l.clock with
    | (.ok (.ok e), _) => startNodes rest { l with engines := l.engines ++ [(n.index, e)] }
    | (.ok (.error failure), _) =>
      (.error (.startFailed n.index failure), (l.shutdownAll (l.engines.map Prod.fst)).2)
    | (.error fault, _) => (.error fault, l)

/-- A running cluster with one node per machine, changed by the knobs before its replicas begin.
What was built comes back even when the start fails. -/
def launchBy (serial : Nat) (machines : List μ) (knobs : List Knob) :
    Except Fault Unit × Live μ :=
  if machines.isEmpty then
    (.error .noMachines, { cluster := Cluster.new 0, knobs, machines, serial })
  else
    let (initialized, cluster) := Knob.initAll knobs (Cluster.new machines.length)
    let l : Live μ := { cluster, knobs, machines, serial }
    match initialized with
    | .error fault => (.error fault, l)
    | .ok () =>
      startNodes genesis (cluster.nodes.filterMap fun n => (machines[n.index]?).map (n, ·)) l

end Start

def launch (serial : Nat) (machines : List μ) (knobs : List Knob) : Except Fault Unit × Live μ :=
  launchBy Replica.start serial machines knobs

end Live

end QuorumLab
