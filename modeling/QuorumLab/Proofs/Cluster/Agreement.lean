import Mathlib.Logic.Function.Basic
import QuorumLab.Proofs.Engine.Replay

/-!
# Agreement between machines

Engines that share a fabric, each with a recorder. A snapshot may be in flight from the
moment that a protocol is shown it by the stores of its node: it may then be handed to any
node at any time, any number of times or never.
-/

namespace QuorumLab

/-- A cluster of engines, with the snapshots that were ever shown to a protocol. -/
structure Ensemble (ι κ : Type) where
  nodes : ι → Engine κ Recorder
  fabric : Fabric := {}
  shipped : List Snapshot := []

namespace Ensemble

inductive Event (ι : Type) where
  | node (i : ι) (v : QuorumLab.Event Station)
  /-- A protocol asks the stores of its node for a snapshot that reaches `index`. -/
  | view (i : ι) (index : Nat)
  deriving Repr

variable {ι κ : Type} [DecidableEq ι] [Core κ]

/-- The fabric as node `i` uses it. -/
def station (sites : ι → Site) (s : Ensemble ι κ) (i : ι) : Station :=
  { fabric := s.fabric, site := sites i }

/-- Each event happens at one node; all it changes for the others is the fabric. -/
def after (sites : ι → Site) (s : Ensemble ι κ) : Event ι → Ensemble ι κ
  | .node i v =>
    { s with
      nodes := Function.update s.nodes i ((s.nodes i).after (s.station sites i) v).1
      fabric := ((s.nodes i).after (s.station sites i) v).2.fabric }
  | .view i index =>
    match (s.nodes i).driver.shelf.snapshot index with
    | .ok t => { s with shipped := s.shipped ++ [t] }
    | .error _ => s

/-- The protocol hands all nodes the same log, and no snapshot but those it was shown. -/
def Admits (agreed : Nat → Entry) (s : Ensemble ι κ) : Event ι → Prop
  | .node i v => (replay κ Recorder agreed (· ∈ s.shipped)).Admits () (s.nodes i) v
  | .view _ _ => True

/-- All interleavings of events at the nodes. -/
def system (κ : Type) [Core κ] (agreed : Nat → Entry) (sites : ι → Site) :
    System (Ensemble ι κ) (Event ι) where
  admits := Admits agreed
  after := after sites

instance (agreed : Nat → Entry) (sites : ι → Site) (s : Ensemble ι κ) :
    ∀ v, Decidable ((system κ agreed sites).admits s v)
  | .node i v => inferInstanceAs (Decidable
      ((replay κ Recorder agreed (· ∈ s.shipped)).Admits () (s.nodes i) v))
  | .view _ _ => isTrue trivial

/-- Every node has started over empty stores, with a machine that holds nothing. -/
structure Fresh (s : Ensemble ι κ) : Prop where
  nodes : ∀ i, ∃ id settings core membership peers now,
    s.nodes i = Engine.boot id settings core {} { stable := { membership } } peers now
  shipped : s.shipped = []

/-- All machines are on the agreed log, and so is every snapshot that could reach one. -/
structure Sound (agreed : Nat → Entry) (s : Ensemble ι κ) : Prop where
  nodes : ∀ i, Upheld Station (Driver.Tracks agreed 0) (Driver.Tracks agreed 0)
    (Driver.Tracks agreed 0) (s.nodes i)
  shipped : ∀ t ∈ s.shipped, t.Faithful agreed

variable {agreed : Nat → Entry} {sites : ι → Site} {s s₀ : Ensemble ι κ}

omit [DecidableEq ι] in
theorem Fresh.sound (h : s.Fresh) : s.Sound agreed where
  nodes i := by
    obtain ⟨id, settings, core, membership, peers, now, fresh⟩ := h.nodes i
    have begun : (Engine.driverOf settings core {} { stable := { membership } } peers now).Tracks
        agreed 0 :=
      Driver.tracks_driverOf { stable := { membership } } fun t ht => by cases ht
    rw [fresh]
    exact .boot begun begun
  shipped t ht := by
    rw [h.shipped] at ht
    cases ht

/-- One event at any node leaves the cluster sound: what a protocol may be handed is at most
what the stores of some node held. -/
theorem Sound.after (h : s.Sound agreed) {v : Event ι} (admitted : s.Admits agreed v) :
    (s.after sites v).Sound agreed := by
  cases v with
  | node i v =>
    refine ⟨?_, h.shipped⟩
    intro j
    change Upheld Station _ _ _ (Function.update s.nodes i _ j)
    by_cases same : j = i
    · subst same
      rw [Function.update_self]
      exact (Driver.upholds_tracks κ Station agreed 0).after (h.nodes j)
        (replay_mono h.shipped admitted)
    · rw [Function.update_of_ne same]
      exact h.nodes j
  | view i index =>
    simp only [Ensemble.after]
    split
    · rename_i t shown
      refine ⟨h.nodes, ?_⟩
      intro x hx
      rcases List.mem_append.mp hx with old | new
      · exact h.shipped x old
      · obtain rfl := List.mem_singleton.mp new
        exact (h.nodes i).always.faithful rfl x (Shelf.latest_of_snapshot shown)
    · exact h

/-- In every state of a cluster that began with nothing, each machine holds exactly the commands
of the agreed log that its node has applied, each snapshot that is stored or in flight exactly
those up to its index, and of two machines one is never but behind the other. -/
theorem machines_agree (fresh : s₀.Fresh) (run : Reachable (system κ agreed sites) s₀ s) :
    (∀ i, (s.nodes i).driver.machine.machine.commands =
      commandsIn agreed 0 (s.nodes i).driver.applied) ∧
    (∀ t, (t ∈ s.shipped ∨ ∃ i, (s.nodes i).driver.shelf.snapshots.latest = some t) →
      ∃ r ∈ Recorder.decode t.data, r.commands = commandsIn agreed 0 t.index) ∧
    ∀ i j,
      (s.nodes i).driver.machine.machine.commands <+:
          (s.nodes j).driver.machine.machine.commands ∨
        (s.nodes j).driver.machine.machine.commands <+:
          (s.nodes i).driver.machine.machine.commands := by
  have sound : s.Sound agreed := by
    apply run.invariant fresh.sound
    intro s v h admitted
    exact h.after admitted
  have commands : ∀ i, (s.nodes i).driver.machine.machine.commands =
      commandsIn agreed 0 (s.nodes i).driver.applied := by
    intro i
    have tracks := (sound.nodes i).always
    have whole : (s.nodes i).driver.machine.origin 0 = 0 := by simp [Watched.origin]
    rw [tracks.commands, whole]
  refine ⟨commands, ?_, ?_⟩
  · rintro t (shipped | ⟨i, stored⟩)
    · obtain ⟨r, read, commands, -⟩ := (sound.shipped t shipped).content
      exact ⟨r, read, commands⟩
    · obtain ⟨r, read, commands, -⟩ := ((sound.nodes i).always.faithful rfl t stored).content
      exact ⟨r, read, commands⟩
  · intro i j
    rw [commands i, commands j]
    rcases Nat.le_total (s.nodes i).driver.applied (s.nodes j).driver.applied with le | le
    · exact Or.inl (commandsIn_grows (Nat.zero_le _) le)
    · exact Or.inr (commandsIn_grows (Nat.zero_le _) le)

/-- Two nodes that have not started to replicate anything. -/
def pair : Ensemble (Fin 2) Replica := { nodes := fun i => Sample.engine (i.val + 1) Sample.shelf }

/-- One node takes a snapshot of two commands, which the other is then sent before the third. -/
theorem machines_agree_of_pair :
    let events : List (Event (Fin 2)) :=
      (Sample.iteration [Sample.append 1 1, Sample.append 1 2] ++
        Sample.call .snapshot).map (.node 0) ++
      .view 0 2 :: (Sample.iteration [Sample.ship 2] ++
        Sample.iteration [Sample.append 2 3]).map (.node 1)
    let s := (system Replica Sample.log fun i => .inside i.val).play pair events
    (s.nodes 1).driver.applied = 3 ∧
      (s.nodes 1).driver.machine.machine.commands = commandsIn Sample.log 0 3 := by
  intro events s
  have applied : (s.nodes 1).driver.applied = 3 := by decide +kernel
  have fresh : pair.Fresh := ⟨fun i => ⟨i.val + 1, _, _, _, _, _, rfl⟩, rfl⟩
  have agree := machines_agree fresh (System.reachable_play .start (by decide +kernel :
    (system Replica Sample.log fun i => .inside i.val).AdmitsAll pair events))
  exact ⟨applied, by rw [agree.1 1, applied]⟩

end Ensemble

end QuorumLab
