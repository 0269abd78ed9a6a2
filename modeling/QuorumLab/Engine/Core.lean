import QuorumLab.Message
import QuorumLab.Store.Shelf

/-!
# What a driver needs from a consensus protocol

The driver of an engine knows the protocol only through the operations below. The
protocol reads the shelf it is shown, never writes it, and hands out in a `Ready` what
the driver has to send, store and apply.
-/

namespace QuorumLab

inductive Role where
  | follower | candidate | leader | preCandidate
  deriving Repr, DecidableEq, Inhabited

/-- One round of work for the driver. -/
structure Ready where
  /-- May be sent before anything is stored. -/
  messages : List Message := []
  snapshot : Option Snapshot := none
  committed : List Entry := []
  entries : List Entry := []
  hard : Option HardState := none
  /-- Promise what is stored in this round, so they are sent after it. -/
  heldMessages : List Message := []
  deriving Repr, DecidableEq, Inhabited

/-- What follows once the round has been stored. -/
structure Followup where
  commit : Option Nat := none
  messages : List Message := []
  committed : List Entry := []
  deriving Repr, DecidableEq, Inhabited

/-- A consensus protocol with states of type `κ`. An operation that breaks a rule of the
protocol is a fault; one that is merely refused may still have changed the state. -/
class Core (κ : Type) where
  role : κ → Role
  term : κ → Nat
  /-- The leader's id, 0 if it is not known. -/
  leader : κ → Nat
  lastIndex : κ → Shelf → Nat
  step : Shelf → Message → κ → Except Fault (Except Refusal Unit × κ)
  tick : Shelf → κ → Except Fault κ
  propose : Shelf → (context data : Bytes) → κ → Except Fault (Except Refusal Unit × κ)
  reportUnreachable : Shelf → (member : Nat) → κ → Except Fault κ
  reportSnapshot : Shelf → (member : Nat) → (delivered : Bool) → κ → Except Fault κ
  /-- The next round, if there is anything to do. -/
  ready : Shelf → κ → Except Fault (Option (Ready × κ))
  /-- The round has been stored. -/
  advance : Shelf → κ → Except Fault (Followup × κ)
  /-- Everything handed out has been applied. -/
  advanceApplied : κ → Except Fault κ

end QuorumLab
