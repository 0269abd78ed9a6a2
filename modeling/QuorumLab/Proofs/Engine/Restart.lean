import QuorumLab.Proofs.Engine.Replay
import QuorumLab.Proofs.Engine.Starting

/-!
# Starting over used stores

An engine that is started over the stores of an earlier one counts everything up to their
snapshot as applied, but nothing of it has been put into its machine.
-/

namespace QuorumLab.Engine

theorem recordMembers_snapshots (id : Nat) (peers : Directory) (s : Shelf) :
    (recordMembers id peers s).snapshots = s.snapshots := recordMembers_rest.2.1

variable {κ ω : Type} [Core κ] [Carrier ω] {agreed : Nat → Entry}

/-- A machine that began at `base` holds the whole log only if nothing was there to miss. -/
theorem tracks_whole_iff {base applied : Nat} {m : Watched Recorder} {stored : Option Snapshot}
    (h : Tracks agreed base m applied stored) :
    m.machine.commands = commandsIn agreed 0 applied ↔
      m.counters.restores ≠ 0 ∨ commandsIn agreed 0 base = [] := by
  have commands := h.commands
  have origin_le := h.origin_le
  by_cases never : m.counters.restores = 0
  · rw [Watched.origin, if_pos never] at commands origin_le
    have split : commandsIn agreed 0 base ++ commandsIn agreed base applied
        = commandsIn agreed 0 applied := commandsIn_append (Nat.zero_le base) origin_le
    rw [commands]
    constructor
    · intro same
      rw [← split] at same
      exact Or.inr (List.self_eq_append_left.mp same)
    · rintro (restored | nothing)
      · exact absurd never restored
      · rw [← split, nothing, List.nil_append]
  · rw [Watched.origin, if_neg never] at commands
    exact ⟨fun _ => Or.inl never, fun _ => commands⟩

/-- An engine starts empty over the stores that a first one left, whatever that one had applied
and however often it took a snapshot. It misses what the stored snapshot holds, until it is sent
a snapshot: its machine is on the log exactly if that has happened or there was nothing to miss. -/
theorem restart_keeps_commands_iff {id id' : Nat} {settings settings' : Settings} {core core' : κ}
    {membership : Membership} {peers peers' : Directory} {now now' : Nat} {w w' : ω}
    {first second : Moment κ Recorder ω Unit}
    (before : Reachable ((replay κ Recorder agreed (Snapshot.Faithful agreed)).system ω)
      ⟨boot id settings core {} { stable := { membership } } peers now, w, ()⟩ first)
    (run : Reachable ((replay κ Recorder agreed (Snapshot.Faithful agreed)).system ω)
      ⟨boot id' settings' core' {} (recordMembers id' peers' first.engine.driver.shelf) peers' now',
        w', ()⟩ second) :
    let base := first.engine.driver.shelf.snapshots.index
    let d := second.engine.driver
    d.machine.machine.commands =
        commandsIn agreed (if d.machine.counters.restores = 0 then base else 0) d.applied ∧
      (d.machine.machine.commands = commandsIn agreed 0 d.applied ↔
        d.machine.counters.restores ≠ 0 ∨ commandsIn agreed 0 base = []) := by
  intro base d
  have up := fun base => Driver.upholds_tracks κ ω agreed base
  have empty : (driverOf settings core {} { stable := { membership } } peers now).Tracks agreed 0 :=
    Driver.tracks_driverOf { stable := { membership } } fun t ht => by cases ht
  have left := ((up 0).reachable (.boot empty empty) before).always
  have snapshots := recordMembers_snapshots id' peers' first.engine.driver.shelf
  have used : (driverOf settings' core' {} (recordMembers id' peers' first.engine.driver.shelf)
      peers' now').Tracks agreed base := by
    have sound : ∀ t ∈ (recordMembers id' peers' first.engine.driver.shelf).snapshots.latest,
        t.Faithful agreed := snapshots ▸ left.faithful rfl
    have begun : (driverOf settings' core' {} (recordMembers id' peers' first.engine.driver.shelf)
        peers' now').Tracks agreed _ := Driver.tracks_driverOf _ sound
    rwa [snapshots] at begun
  have tracks : d.Tracks agreed base := ((up base).reachable (.boot used used) run).always
  exact ⟨tracks.commands, tracks_whole_iff tracks⟩

/-- The first engine applies two commands, takes a snapshot and is stopped. The second one
applies the third command of the log, and that is all its machine ever gets. -/
theorem restart_keeps_commands_iff_of_follower :
    let S := (replay Replica Recorder Sample.log (Snapshot.Faithful Sample.log)).system Station
    let first := S.play ⟨Sample.engine 1 Sample.shelf, default, ()⟩
      (Sample.iteration [Sample.append 1 1, Sample.append 1 2] ++ Sample.call .snapshot ++
        Sample.call .requestStop)
    let shelf := recordMembers 1 [] first.engine.driver.shelf
    let second := S.play ⟨Sample.engine 1 shelf, default, ()⟩ (Sample.iteration [Sample.append 1 3])
    first.engine.ended = true ∧ second.engine.driver.applied = 3 ∧
      second.engine.driver.machine.machine.commands ≠
        commandsIn Sample.log 0 second.engine.driver.applied := by
  intro S first shelf second
  have before : Reachable S _ first := System.reachable_play .start (by decide +kernel)
  have run : Reachable S _ second := System.reachable_play .start (by decide +kernel)
  obtain ⟨-, whole⟩ := restart_keeps_commands_iff before run
  refine ⟨by decide +kernel, by decide +kernel, ?_⟩
  intro kept
  rcases whole.mp kept with restored | nothing
  · exact absurd restored (by decide +kernel)
  · exact absurd nothing (by decide +kernel)

end QuorumLab.Engine
