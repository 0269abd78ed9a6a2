import QuorumLab.Network.Fabric

/-!
# Carriers

All that a driver knows of the network is that it can send to an address and is told
whether that could be reached.
-/

namespace QuorumLab

class Carrier (ω : Type) where
  send : (address : String) → Message → ω → Except Failure Unit × ω

/-- A fabric as one of its endpoints uses it. -/
structure Station where
  fabric : Fabric
  site : Site
  /-- What is drawn for the messages that are sent next, to see whether they are lost. -/
  draws : List Float := []
  deriving Repr, Inhabited

namespace Station

/-- What is drawn for the next message. With nothing else to go by a fabric loses all messages once
its drop rate exceeds a half, and none below. -/
def draw (w : Station) : Float := w.draws.headD 0.5

end Station

instance : Carrier Station where
  send address m w :=
    let (result, fabric) := w.fabric.send w.site address m w.draw
    (result, { w with fabric, draws := w.draws.tail })

end QuorumLab
