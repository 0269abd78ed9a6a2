import QuorumLab.Cluster.Basic

/-!
# Knobs

A knob changes a cluster before its engines start, and may put something back after they
have stopped.
-/

namespace QuorumLab

inductive Knob where
  /-- Start only these nodes. -/
  | servers (indexes : List Nat)
  /-- Change the settings of each node that is left; the function gets its index. A change that
  faults leaves the settings as far as it came. -/
  | settings (change : Nat → Settings → Except Fault Unit × Settings)
  /-- Lose a fraction of the messages for as long as the cluster lives. -/
  | dropRate (rate : Float)
  | isolate (i : Nat)
  /-- Write a line at either end of the cluster's life. -/
  | record (name : String)

namespace Knob

def init (k : Knob) (c : Cluster) : Except Fault Unit × Cluster :=
  match k with
  | servers indexes => c.keepOnly indexes
  | settings change => (c.configure (fun i s _ => (change i s, ())) ()).1
  | dropRate rate =>
    match c.fabric.setDropRate rate with
    | .ok fabric => (.ok (), { c with fabric })
    | .error fault => (.error fault, c)
  | isolate i =>
    let (result, fabric) := c.fabric.isolate i
    (result, { c with fabric })
  | record name =>
    let rate := Decimal.ofFloat c.fabric.dropRate
    let nodes := ", ".intercalate (c.indexes.map toString)
    (.ok (), c.note s!"init {name} drop {rate} nodes [{nodes}]")

def cleanup (k : Knob) (c : Cluster) : Cluster :=
  match k with
  | dropRate _ => { c with fabric := { c.fabric with dropRate := 0.0 } }
  | record name => c.note s!"cleanup {name} drop {Decimal.ofFloat c.fabric.dropRate}"
  | _ => c

/-- Initialize the knobs in order, up to the first fault. -/
def initAll : List Knob → Cluster → Except Fault Unit × Cluster
  | [], c => (.ok (), c)
  | k :: rest, c =>
    match k.init c with
    | (.ok (), c) => initAll rest c
    | failed => failed

def cleanupAll (knobs : List Knob) (c : Cluster) : Cluster :=
  knobs.foldl (fun c k => k.cleanup c) c

end Knob

end QuorumLab
