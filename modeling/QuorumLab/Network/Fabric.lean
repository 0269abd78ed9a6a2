import QuorumLab.Network.Endpoint

/-!
# The fabric

A fabric joins the endpoints of a cluster. Links are cut and restored in both directions
at once; a detached endpoint is never linked again. Changes of the topology are made
under a lock, and most of those that restore links under a second one that guards the
detached set: a fault while a lock is held makes every later call that needs it a fault.
-/

namespace QuorumLab

structure Fabric where
  endpoints : List Endpoint := []
  /-- Endpoints with no part in the fabric's topology and faults. -/
  outsiders : List Endpoint := []
  detached : List Nat := []
  dropRate : Float := 0.0
  topologyPoisoned : Bool := false
  detachedPoisoned : Bool := false
  deriving Repr, Inhabited

namespace Fabric

def size (f : Fabric) : Nat := f.endpoints.length

def add (f : Fabric) (id : Nat) (address : String) : Fabric :=
  { f with endpoints := f.endpoints ++ [{ id, address }] }

/-- Add the endpoint that is named for its place. -/
def addNumbered (f : Fabric) : Fabric := f.add (f.size + 1) (toString f.size)

def addOutsider (f : Fabric) (id : Nat) (address : String) : Fabric :=
  { f with outsiders := f.outsiders ++ [{ id, address }] }

def endpoint (f : Fabric) (i : Nat) : Except Fault Endpoint :=
  match f.endpoints[i]? with
  | some e => .ok e
  | none => .error (.outOfBounds f.size i)

/-- Change the endpoint at `i`. -/
def update (f : Fabric) (i : Nat) (g : Endpoint → Endpoint) : Fabric :=
  { f with endpoints := f.endpoints.modify i g }

/-! ## Sites -/

/-- The endpoint at a site. -/
def endpoint? (f : Fabric) : Site → Option Endpoint
  | .inside i => f.endpoints[i]?
  | .outside a => f.outsiders[a]?

/-- Change the endpoint at a site. -/
def updateAt (f : Fabric) (p : Site) (g : Endpoint → Endpoint) : Fabric :=
  match p with
  | .inside i => f.update i g
  | .outside a => { f with outsiders := f.outsiders.modify a g }

/-- The fault of naming a site that leads nowhere. -/
def missing (f : Fabric) (p : Site) : Except Fault Unit :=
  match f.endpoint? p, p with
  | some _, _ => .ok ()
  | none, .inside i => .error (.outOfBounds f.size i)
  | none, .outside a => .error (.outOfBounds f.outsiders.length a)

/-- Register `q` with `p`, in this direction only. What is registered is looked up first. -/
def connect (f : Fabric) (p q : Site) : Except Fault Fabric := do
  f.missing q
  f.missing p
  match f.endpoint? q with
  | some e => return f.updateAt p (·.register e.address q)
  | none => return f

/-! ## Locks -/

/-- Change the topology under its lock. -/
def withTopology (f : Fabric) (change : Fabric → Except Fault Fabric) :
    Except Fault Unit × Fabric :=
  if f.topologyPoisoned then (.error .poisoned, f)
  else match change f with
    | .ok g => (.ok (), g)
    | .error fault => (.error fault, { f with topologyPoisoned := true })

/-- Change the topology under its lock and that of the detached set, in this order. -/
def withBoth (f : Fabric) (change : Fabric → Except Fault Fabric) :
    Except Fault Unit × Fabric :=
  if f.topologyPoisoned then (.error .poisoned, f)
  else if f.detachedPoisoned then (.error .poisoned, { f with topologyPoisoned := true })
  else match change f with
    | .ok g => (.ok (), g)
    | .error fault =>
      (.error fault, { f with topologyPoisoned := true, detachedPoisoned := true })

/-! ## Links -/

/-- Register two endpoints with each other. -/
def link (i j : Nat) (f : Fabric) : Except Fault Fabric := do
  let a ← f.endpoint i
  let b ← f.endpoint j
  return (f.update i (·.register b.address (.inside j))).update j
    (·.register a.address (.inside i))

def unlink (i j : Nat) (f : Fabric) : Except Fault Fabric := do
  let a ← f.endpoint i
  let b ← f.endpoint j
  return (f.update i (·.forget b.address)).update j (·.forget a.address)

/-- Do something with `i` and every other index, in ascending order. -/
def withOthers (i : Nat) (skip : Nat → Bool) (change : Nat → Fabric → Except Fault Fabric)
    (f : Fabric) : Except Fault Fabric :=
  ((List.range f.size).filter fun j => j ≠ i && !skip j).foldlM (fun f j => change j f) f

/-- Register `j` with `i` unless one of them is detached. -/
def joinOneWay (i j : Nat) (f : Fabric) : Fabric :=
  if f.detached.contains i || f.detached.contains j then f
  else match f.endpoints[j]? with
    | some b => f.update i (·.register b.address (.inside j))
    | none => f

def connectAll (f : Fabric) : Except Fault Unit × Fabric :=
  f.withBoth fun f =>
    let indexes := List.range f.size
    .ok (indexes.foldl (fun f i =>
      (indexes.filter (· ≠ i)).foldl (fun f j => joinOneWay i j f) f) f)

def disconnect (f : Fabric) (i j : Nat) : Except Fault Unit × Fabric :=
  f.withTopology (unlink i j)

def reconnect (f : Fabric) (i j : Nat) : Except Fault Unit × Fabric :=
  f.withBoth fun f =>
    if f.detached.contains i || f.detached.contains j then .ok f else link i j f

/-- Cut every link of `i`. -/
def isolate (f : Fabric) (i : Nat) : Except Fault Unit × Fabric :=
  f.withTopology (withOthers i (fun _ => false) (unlink i))

/-- Restore every link of `i`, except to detached endpoints. -/
def heal (f : Fabric) (i : Nat) : Except Fault Unit × Fabric :=
  f.withBoth fun f =>
    if f.detached.contains i then .ok f else withOthers i f.detached.contains (link i) f

/-- Cut every link of `i` for good. -/
def detach (f : Fabric) (i : Nat) : Except Fault Unit × Fabric :=
  match f.isolate i with
  | (.error fault, f) => (.error fault, f)
  | (.ok (), f) =>
    if f.detachedPoisoned then (.error .poisoned, f)
    else if f.detached.contains i then (.ok (), f)
    else (.ok (), { f with detached := f.detached ++ [i] })

def isDetached (f : Fabric) (i : Nat) : Except Fault Bool :=
  if f.detachedPoisoned then .error .poisoned else .ok (f.detached.contains i)

/-- Whether `i` can send to `j`. -/
def isLinked (f : Fabric) (i j : Nat) : Except Fault Bool := do
  let a ← f.endpoint i
  let b ← f.endpoint j
  return a.isConnected b.address

/-- The addresses that every endpoint has registered. -/
def links (f : Fabric) : List (List String) := f.endpoints.map Endpoint.connected

/-! ## Traffic -/

/-- Lose a fraction `rate`, from 0 to 1, of the messages that could be delivered. -/
def setDropRate (f : Fabric) (rate : Float) : Except Fault Fabric :=
  if 0.0 ≤ rate && rate ≤ 1.0 then .ok { f with dropRate := rate }
  else .error (.dropRate (Decimal.ofFloat rate))

/-- Messages sent and dropped by all endpoints. -/
def stats (f : Fabric) : Nat × Nat :=
  let total (count : Endpoint → Nat) : Nat := f.endpoints.foldl (fun n e => n + count e) 0
  (total Endpoint.sent, total Endpoint.dropped)

/-- Whether a message from `p` is lost, given a number drawn from 0 up to 1. -/
def loses (f : Fabric) (p : Site) (draw : Float) : Bool :=
  match p with
  | .inside _ => decide (0.0 < f.dropRate) && decide (draw < f.dropRate)
  | .outside _ => false

/-- Send from `p` to an address. A lost message is no failure: the sender cannot tell. -/
def send (f : Fabric) (p : Site) (address : String) (m : Message) (draw : Float) :
    Except Failure Unit × Fabric :=
  match (f.endpoint? p).bind (·.route? address) with
  | none => (.error (.unreachable address), f.updateAt p Endpoint.countDropped)
  | some q =>
    if f.loses p draw then (.ok (), f.updateAt p Endpoint.countDropped)
    else if ((f.endpoint? q).map Endpoint.live).getD false then
      (.ok (), (f.updateAt q (·.deliver m)).updateAt p Endpoint.countSent)
    else (.error (.unreachable address), f.updateAt p Endpoint.countDropped)

/-- Take the oldest message out of the inbox at `p`. -/
def receive (f : Fabric) (p : Site) : Option Message × Fabric :=
  match f.endpoint? p with
  | some e => (e.receive.1, f.updateAt p fun e => e.receive.2)
  | none => (none, f)

/-- Take everything out of the inbox at `p`. -/
def drain (f : Fabric) (p : Site) : List Message × Fabric :=
  match f.endpoint? p with
  | some e => (e.inbox, f.updateAt p ({ · with inbox := [] }))
  | none => ([], f)

/-- Give up the inbox at `p`. -/
def destroy (f : Fabric) (p : Site) : Fabric :=
  f.updateAt p fun e => { e with live := false, inbox := [] }

end Fabric

end QuorumLab
