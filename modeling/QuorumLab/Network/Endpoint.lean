import QuorumLab.Message
import QuorumLab.Failure
import QuorumLab.Text.Quoted

/-!
# Endpoints

An endpoint has an inbox and a registry of the addresses it can reach. A registration
leads to the inbox of the endpoint that was registered last under its address.
-/

namespace QuorumLab

/-- Where a registration leads: to an endpoint of the fabric, or to one that stands alone. -/
inductive Site where
  | inside (i : Nat)
  | outside (a : Nat)
  deriving Repr, DecidableEq, Inhabited

structure Endpoint where
  id : Nat
  address : String
  registry : List (String × Site) := []
  inbox : List Message := []
  sent : Nat := 0
  dropped : Nat := 0
  /-- Whether the inbox still exists. -/
  live : Bool := true
  deriving Repr, DecidableEq, Inhabited

namespace Endpoint

/-- Where messages to `address` go. -/
def route? (e : Endpoint) (address : String) : Option Site := e.registry.lookup address

def isConnected (e : Endpoint) (address : String) : Bool := (e.route? address).isSome

def register (e : Endpoint) (address : String) (site : Site) : Endpoint :=
  { e with registry := (address, site) :: e.registry.filter (·.1 ≠ address) }

def forget (e : Endpoint) (address : String) : Endpoint :=
  { e with registry := e.registry.filter (·.1 ≠ address) }

/-- The registered addresses, ascending. -/
def connected (e : Endpoint) : List String :=
  (e.registry.map Prod.fst).mergeSort fun a b => decide (a ≤ b)

def countSent (e : Endpoint) : Endpoint := { e with sent := e.sent + 1 }

def countDropped (e : Endpoint) : Endpoint := { e with dropped := e.dropped + 1 }

def deliver (e : Endpoint) (m : Message) : Endpoint := { e with inbox := e.inbox ++ [m] }

/-- The oldest message of the inbox. -/
def receive (e : Endpoint) : Option Message × Endpoint :=
  (e.inbox.head?, { e with inbox := e.inbox.drop 1 })

/-- The endpoint as it is shown to a reader. -/
def text (e : Endpoint) : String :=
  let peers := Quoted.list (e.connected.map Quoted.text)
  s!"Transport \x7b id: {e.id}, addr: {Quoted.text e.address}, peers: {peers} \x7d"

end Endpoint

end QuorumLab
