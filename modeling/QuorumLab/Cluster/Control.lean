import QuorumLab.Cluster.Live

/-!
# Controlling a running cluster

Lookups, bounded waits, partitions and the end of a running cluster. A wait that runs out
of time is a fault that tells what was seen last.
-/

namespace QuorumLab.Live

variable {μ : Type} [Machine μ]

/-! ## Slots and lookups -/

def handle (l : Live μ) (i : Nat) : Handle := { serial := l.serial, id := i + 1 }

/-- The slots of a cluster, one per machine; that of a node that was never started is empty. -/
def slots (l : Live μ) : List (Option Handle) :=
  (List.range l.machines.length).map fun i => (l.engine? i).map fun _ => l.handle i

def slot? (l : Live μ) (i : Nat) : Option Handle := (l.slots[i]?).join

def slot (l : Live μ) (i : Nat) : Except Fault Handle :=
  match l.slot? i with
  | some h => .ok h
  | none => .error (.notRunning i)

/-- The engines that were started, as handles, by ascending index. -/
def running (l : Live μ) : List Handle := l.engines.map fun x => l.handle x.1

/-- The engine of node `i`. -/
def engine (l : Live μ) (i : Nat) : Except Fault (Engine Replica μ) :=
  match l.engine? i with
  | some e => .ok e
  | none => .error (.notRunning i)

/-- The index of the node of an engine of this cluster. -/
def indexOf (l : Live μ) (h : Handle) : Except Fault Nat :=
  match l.engines.find? fun x => l.handle x.1 = h with
  | some x => .ok x.1
  | none => .error (.foreignEngine h.id)

def counters (l : Live μ) (h : Handle) : Except Fault Counters := do
  return (← l.engine (← l.indexOf h)).driver.machine.counters

/-- The first engine in index order that is not excluded. -/
def other (l : Live μ) (exclude : List Handle) : Except Fault Nat :=
  match l.engines.find? fun x => !exclude.contains (l.handle x.1) with
  | some x => .ok x.1
  | none => .error (.noOther l.engines.length)

/-- The machine of node `i`, whether its engine was started or not. -/
def machine (l : Live μ) (i : Nat) : Except Fault μ :=
  match l.engine? i, l.machines[i]? with
  | some e, _ => .ok e.driver.machine.machine
  | none, some m => .ok m
  | none, none => .error (.outOfBounds l.machines.length i)

/-- The shelf of a node that was not discarded. -/
def shelf (l : Live μ) (i : Nat) : Except Fault Shelf := do
  let n ← l.cluster.node i
  return ((l.engine? i).map fun e => e.driver.shelf).getD n.shelf

/-- What is asked of the control of a cluster can be asked only before it is closed. -/
def whileOpen (l : Live μ) (x : Except Fault α) : Except Fault α :=
  if l.closed then .error (.caller "control is closed") else x

/-! ## Waits -/

/-- Wait, and fault when the time is up. -/
def waitFor (l : Live μ) (w : Watch (Live μ) α) (timeout : Nat) : Except Fault α × Live μ :=
  let (result, l) := w.poll l.pollInterval timeout l
  (result.mapError .waited, l)

def published (l : Live μ) (i : Nat) : Published :=
  ((l.engine? i).map Engine.published).getD {}

/-- The roles of all engines in a line. -/
def roles (l : Live μ) : String :=
  ", ".intercalate (l.engines.map fun x =>
    let p := x.2.published
    s!"node {x.1} {p.state.text} in term {p.term}")

/-- The node that leads; of several, the one with the highest term, then the lowest index. -/
def leader? (l : Live μ) : Option Nat :=
  let leaders := l.engines.filter fun x => x.2.published.state = .leader
  (leaders.foldl (fun best x =>
    match best with
    | some b => if b.2 < x.2.published.term then some (x.1, x.2.published.term) else best
    | none => some (x.1, x.2.published.term)) none).map Prod.fst

def leadershipAcquired : Watch (Live μ) Nat :=
  Watch.look "cluster" "a leader" fun l => (l.leader?, l.roles)

def leadershipLost (i : Nat) : Watch (Live μ) Unit :=
  Watch.look s!"node {i}" "leadership to be lost" fun l =>
    let state := (l.published i).state
    (if state = .leader then none else some (), state.text)

/-- A number of node `i` that is to reach `n`. -/
def reaches (i : Nat) (what : String) (n : Nat) (read : Live μ → Nat) : Watch (Live μ) Unit :=
  Watch.look s!"node {i}" s!"{what} >= {n}" fun l =>
    (if n ≤ read l then some () else none, s!"{what} {read l}")

def indexApplied (i n : Nat) : Watch (Live μ) Unit :=
  reaches i "applied index" n fun l => (l.published i).applied

def counted (i : Nat) (l : Live μ) : Counters :=
  ((l.engine? i).map fun e => e.driver.machine.counters).getD {}

def snapshotsTaken (i n : Nat) : Watch (Live μ) Unit :=
  reaches i "snapshots" n fun l => (counted i l).snapshots

def snapshotsRestored (i n : Nat) : Watch (Live μ) Unit :=
  reaches i "restores" n fun l => (counted i l).restores

/-- A leader that node `i` knows. -/
def leaderKnown (i : Nat) : Watch (Live μ) Nat :=
  Watch.look s!"raft {i + 1}" "a known leader" fun l =>
    let p := l.published i
    (p.leader?, s!"{p.state.text} with leader {Failure.optionText p.leader?}")

/-- Wait for what an observer of node `i` is to see, for four seconds at most. -/
def awaitPublished (l : Live μ) (i : Nat) (expected : Published → Bool) : Live μ :=
  let w : Watch (Live μ) Unit :=
    Watch.look "" "" fun l => (if expected (l.published i) then some () else none, "")
  (w.poll Span.millisecond (4 * Span.second) l).2

/-! ## Calls -/

/-- Call the engine of node `i`. -/
def call (l : Live μ) (i : Nat) (f : Engine Replica μ → Promise × Engine Replica μ) :
    Except Fault (Promise × Live μ) := do
  let (p, e) := f (← l.engine i)
  return (p, (l.setEngine i e).settle)

/-- Wait for node `i` to keep a promise. -/
def await (l : Live μ) (i : Nat) (p : Promise) (span : Nat) (late : String) : Outcome × Live μ :=
  let w : Watch (Live μ) Outcome :=
    Watch.look "" "" fun l => ((l.engine? i).bind (·.outcome? p), "")
  match w.poll Span.millisecond span l with
  | (.ok o, l) => (o, l)
  | (.error _, l) => (.error (.timeout late), l)

/-- Wait for the result of a command. -/
def result (l : Live μ) (i : Nat) (p : Promise) (span : Nat) : Outcome × Live μ :=
  l.await i p span s!"result after {Span.text span}"

/-- Hand a message to node `i`, past the fabric. -/
def deliver (l : Live μ) (i : Nat) (m : Message) : Live μ :=
  (l.setFabric (l.fabric.updateAt (.inside i) (·.deliver m))).settle

/-- Let node `i` campaign at once, and wait until its term has changed. -/
def campaign (l : Live μ) (i : Nat) : Live μ :=
  let term := (l.published i).term
  (l.deliver i { kind := .timeoutNow, target := i + 1 }).awaitPublished i (·.term ≠ term)

/-- Let node `i` campaign, and wait until it leads. -/
def elect (l : Live μ) (i : Nat) : Live μ :=
  (l.campaign i).awaitPublished i (·.state = .leader)

/-- How long a caller waits for its command. -/
def applyTimeout : Nat := 4 * Span.second

/-- Propose a command through node `i`. -/
def apply (l : Live μ) (i : Nat) (data : Bytes) : Except Fault (Promise × Live μ) :=
  l.call i (·.apply data)

def snapshot (l : Live μ) (i : Nat) : Except Fault (Outcome × Live μ) := do
  let (p, l) ← l.call i (·.snapshot)
  return l.result i p Engine.queryTimeout

def membership (l : Live μ) (i : Nat) : Except Fault (Outcome × Live μ) := do
  let (p, l) ← l.call i (·.membership)
  return l.await i p Engine.queryTimeout "configuration"

/-! ## Partitions -/

/-- Change the fabric of the cluster. -/
def topology (l : Live μ) (change : Fabric → Except Fault Unit × Fabric) :
    Except Fault Unit × Live μ :=
  let (result, fabric) := change l.fabric
  (result, (l.setFabric fabric).settle)

/-- Cut an engine off from every other node. -/
def disconnect (l : Live μ) (h : Handle) : Except Fault Unit × Live μ :=
  match l.indexOf h with
  | .ok i => l.topology (·.isolate i)
  | .error fault => (.error fault, l)

/-- Restore every link of an engine. -/
def reconnect (l : Live μ) (h : Handle) : Except Fault Unit × Live μ :=
  match l.indexOf h with
  | .ok i => l.topology (·.heal i)
  | .error fault => (.error fault, l)

/-! ## The end -/

/-- End one engine and wait for it. -/
def shutdown (l : Live μ) (i : Nat) : Except Fault (Except Failure Unit × Live μ) := do
  let _ ← l.engine i
  let (first, l) := l.requestStop i
  let (result, l) := if first then l.join i else (.ok (), l)
  return (result, l.settle)

/-- End the engines of these nodes; a fault lists all that failed. -/
def shutdownNodes (l : Live μ) (nodes : List Nat) : Except Fault Unit × Live μ :=
  let (failures, l) := l.shutdownAll nodes
  let named := failures.map fun f => ((nodes.getD f.1 0) + 1, f.2)
  (if named.isEmpty then .ok () else .error (.enginesShutdown named), l.settle)

/-- End every engine, then clean the knobs up. A fault lists all nodes that failed, after the
cleanup. -/
def close (l : Live μ) : Except Fault Unit × Live μ :=
  let nodes := l.engines.map Prod.fst
  let (failures, l) := l.shutdownAll nodes
  let named := failures.map fun f => (nodes.getD f.1 0, f.2)
  let l := { l with closed := true, cluster := Knob.cleanupAll l.knobs l.cluster }
  (if named.isEmpty then .ok () else .error (.clusterShutdown named), l.settle)

end QuorumLab.Live
