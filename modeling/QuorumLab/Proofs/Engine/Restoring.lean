import QuorumLab.Proofs.Engine.Cycles
import QuorumLab.Proofs.Engine.Tickets
import QuorumLab.Proofs.Store.History

/-!
# Restoring a received snapshot

The machine is asked before anything else. If it refuses the snapshot, the engine ends, and everyone
who waits is told; nothing else that the driver holds has changed, and a machine that refuses without
a trace is the same as well. If it accepts, the machine, the stores and the driver are all where the
snapshot is.
-/

namespace QuorumLab

section Restoring

variable {κ μ ω : Type}

/-- `e'` is what becomes of `e` when its machine refuses a snapshot with `f` and is `machine`
then. -/
structure Engine.Refused (e : Engine κ μ) (f : Failure) (machine : μ) (e' : Engine κ μ) :
    Prop where
  /-- The counters of the machine, the stores, and how far both have got are as they were. -/
  alike : Driver.Alike { e.driver with machine.machine := machine } e'.driver
  ending : e'.ending = some (.returned (.error f))
  state : e'.published.state = .shutdown
  pending : e'.driver.pending = []
  queue : e'.queue = []
  /-- The proposals under way are told that the engine has shut down, then the queued commands. -/
  answers : e'.driver.answers = e.driver.answers ++
    (e.driver.awaited ++ e.queue.filterMap Command.owed?).map (·, .error .shutdown)
  /-- So is whoever else was not answered. -/
  outcome : ∀ n, n ∉ e.driver.answered → e'.outcome? (.ticket n) = some (.error .shutdown)
  /-- Whoever asks for the end first may still wait for it. -/
  claim : e'.requestStop.1 = !e.claimed

end Restoring

namespace Driver

variable {κ μ : Type} [Machine μ] {d : Driver κ μ} {s : Snapshot} {machine : Watched μ}

end Driver

namespace Engine

variable {κ μ ω : Type}

/-- The engine as its loop leaves it behind a snapshot that its machine refuses. -/
def behind (e : Engine κ μ) (machine : μ) (left : List Act) : Engine κ μ :=
  { e with loop := {
      e.loop with driver := { e.driver with machine.machine := machine }, todo := left } }

variable [Core κ] [Machine μ] [Carrier ω]

end Engine

end QuorumLab
