import QuorumLab.Network.Fabric
import QuorumLab.Network.Directory
import QuorumLab.Settings
import QuorumLab.Store.Shelf

/-!
# Clusters that have not been started

The nodes of a cluster and the fabric that joins them. Node `i` has the id `i + 1` and
the address that is `i` in decimal.
-/

namespace QuorumLab

/-- What an engine is started over. -/
structure Node where
  index : Nat
  settings : Settings := .scaledDown
  shelf : Shelf := {}
  peers : Directory := []
  deriving Repr, DecidableEq, Inhabited

namespace Node

def id (n : Node) : Nat := n.index + 1

def address (n : Node) : String := toString n.index

end Node

structure Cluster where
  /-- How many nodes were built. -/
  size : Nat
  /-- The nodes that were not discarded, ascending. -/
  nodes : List Node
  fabric : Fabric
  /-- Lines written by recording knobs, oldest first. -/
  record : List String := []
  deriving Repr, Inhabited

namespace Cluster

/-- A cluster of `n` nodes: every two are joined, and each knows all others. -/
def new (n : Nat) : Cluster :=
  let fabric : Fabric := (List.range n).foldl (fun f _ => f.addNumbered) {}
  let peers := fabric.endpoints.map fun e => { id := e.id, address := e.address : Peer }
  { size := n
    nodes := (List.range n).map fun index => { index, peers := Directory.around peers index }
    fabric := fabric.connectAll.2 }

def indexes (c : Cluster) : List Nat := c.nodes.map Node.index

def contains (c : Cluster) (i : Nat) : Bool := c.indexes.contains i

def node (c : Cluster) (i : Nat) : Except Fault Node :=
  match c.nodes.find? (·.index = i) with
  | some n => .ok n
  | none => .error (.notInCluster i)

/-- Detach the nodes with these indexes and drop them, one after the other. -/
def discard : List Nat → Cluster → Except Fault Unit × Cluster
  | [], c => (.ok (), c)
  | i :: rest, c =>
    match c.fabric.detach i with
    | (.error fault, fabric) => (.error fault, { c with fabric })
    | (.ok (), fabric) => discard rest { c with fabric, nodes := c.nodes.filter (·.index ≠ i) }

/-- Restrict every directory to the nodes that are left. -/
def retainPeers (c : Cluster) : Cluster :=
  let ids := c.nodes.map Node.id
  { c with nodes := c.nodes.map fun n => { n with peers := n.peers.retain (ids.contains ·.id) } }

/-- Discard every node whose index is not listed. All indexes are checked first. -/
def keepOnly (c : Cluster) (indexes : List Nat) : Except Fault Unit × Cluster :=
  match indexes.find? (c.size ≤ ·) with
  | some i => (.error (.serverOutOfRange i c.size), c)
  | none =>
    match discard (c.indexes.filter (!indexes.contains ·)) c with
    | (.ok (), c) => (.ok (), c.retainPeers)
    | failed => failed

section Configure

variable {σ : Type} (change : Nat → Settings → σ → (Except Fault Unit × Settings) × σ)

/-- Change the settings of nodes in order, up to the first fault. The function that is called with
them has a memory. -/
def configureNodes : List Node → σ → (Except Fault Unit × List Node) × σ
  | [], x => ((.ok (), []), x)
  | n :: rest, x =>
    match change n.index n.settings x with
    | ((.error fault, settings), x) => ((.error fault, { n with settings } :: rest), x)
    | ((.ok (), settings), x) =>
      let ((result, rest), x) := configureNodes rest x
      ((result, { n with settings } :: rest), x)

/-- Change the settings of every node that is left, in ascending order. -/
def configure (c : Cluster) (x : σ) : (Except Fault Unit × Cluster) × σ :=
  let ((result, nodes), x) := configureNodes change c.nodes x
  ((result, { c with nodes }), x)

end Configure

def note (c : Cluster) (line : String) : Cluster := { c with record := c.record ++ [line] }

end Cluster

end QuorumLab
