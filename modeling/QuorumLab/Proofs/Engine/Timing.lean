import Mathlib.Tactic.SplitIfs
import QuorumLab.Settings

/-!
# Timing in ticks

An engine counts its timeouts in ticks, and a count is kept in one word. As long as the election
timeout fills fewer ticks than half the words, settings that are valid are valid for a replica too,
and the counts are those of the spans. Past that a count may have lost its high bits.
-/

namespace QuorumLab.Settings

/-- The span holds `n` whole ticks and no more. -/
def Holds (span tick n : Nat) : Prop := n * tick ≤ span ∧ span < (n + 1) * tick

section Ticks

variable {span tick : Nat}

theorem holds_iff (runs : 0 < tick) {n : Nat} : Holds span tick n ↔ span / tick = n := by
  rw [Nat.div_eq_iff runs, Holds]
  have next : (n + 1) * tick = n * tick + tick := Nat.succ_mul n tick
  omega

theorem ticks_eq (runs : 0 < tick) : ticks span tick = span / tick % UInt64.size :=
  if_neg (Nat.ne_of_gt runs)

/-- A count is exact as long as it is a word. -/
theorem holds_ticks_iff (runs : 0 < tick) :
    Holds span tick (ticks span tick) ↔ span < UInt64.size * tick := by
  rw [holds_iff runs, ticks_eq runs, ← Nat.div_lt_iff_lt_mul runs]
  constructor
  · intro same
    rw [same]
    exact Nat.mod_lt _ (by decide)
  · intro word
    rw [Nat.mod_eq_of_lt word]

end Ticks

/-- Every timeout fills a tick, and an election takes longer than a heartbeat, in spans and in
ticks. -/
structure Valid (s : Settings) : Prop where
  tick_pos : 0 < s.tick
  tick_le : s.tick ≤ s.heartbeat
  heartbeat_lt : s.heartbeat < s.election
  snapshotInterval_pos : 0 < s.snapshotInterval
  snapshotThreshold_pos : 0 < s.snapshotThreshold
  maxInflight_pos : 0 < s.maxInflight
  ticks_lt : s.heartbeatTicks < s.electionTicks

variable {s : Settings}

theorem defect?_eq_none_iff : s.defect? = none ↔ s.Valid := by
  constructor
  · intro sound
    simp only [defect?] at sound
    split_ifs at sound
    constructor <;> omega
  · intro valid
    obtain ⟨_, _, _, _, _, _, _⟩ := valid
    simp only [defect?]
    rw [if_neg, if_neg, if_neg, if_neg, if_neg, if_neg, if_neg] <;> omega

theorem validate_eq_ok_iff : s.validate = .ok () ↔ s.Valid := by
  rw [← defect?_eq_none_iff, validate]
  cases s.defect? <;> simp

/-- The settings of a replica in the ticks that were counted. -/
def replica (s : Settings) (id applied : Nat) : ReplicaSettings where
  id := id
  applied := applied
  election := s.electionTicks
  heartbeat := s.heartbeatTicks
  maxMessageSize := s.maxMessageSize
  maxInflight := s.maxInflight
  preVote := s.preVote
  checkQuorum := s.checkQuorum

/-- How a replica refuses a heartbeat that fills no tick. -/
def noHeartbeat : Failure := .raft (.invalid "heartbeat tick must greater than 0")

/-- Settings that are not valid are not looked at by a replica. -/
theorem toReplica_of_error {f : Failure} (refused : s.validate = .error f) (id applied : Nat) :
    s.toReplica id applied = .ok (.error f) := by
  rw [toReplica, refused]

/-- Of valid settings a replica can refuse the number of ticks only. -/
theorem Valid.toReplica_eq (valid : s.Valid) {id : Nat} (known : id ≠ 0) (applied : Nat) :
    s.toReplica id applied =
      if s.heartbeatTicks = 0 then .ok (.error noHeartbeat)
      else if maxWord < 2 * s.electionTicks then .error (.overflow .multiply)
      else .ok (.ok (s.replica id applied)) := by
  have ordered : ¬s.electionTicks ≤ s.heartbeatTicks := Nat.not_le.mpr valid.ticks_lt
  have inflight : s.maxInflight ≠ 0 := Nat.ne_of_gt valid.maxInflight_pos
  rw [toReplica, validate_eq_ok_iff.mpr valid]
  simp only [ReplicaSettings.validate, if_neg known, if_neg ordered, if_neg inflight]
  split_ifs <;> rfl

/-- Below half the words of ticks nothing is lost: a valid heartbeat keeps its ticks, and twice the
election timeout is a word. -/
theorem Valid.counts_of_lt (valid : s.Valid) (short : 2 * s.election < UInt64.size * s.tick) :
    0 < s.heartbeatTicks ∧ 2 * s.electionTicks ≤ maxWord ∧
      Holds s.heartbeat s.tick s.heartbeatTicks ∧ Holds s.election s.tick s.electionTicks := by
  have runs := valid.tick_pos
  have ordered := valid.heartbeat_lt
  have heartbeat : Holds s.heartbeat s.tick s.heartbeatTicks :=
    (holds_ticks_iff runs).mpr (by omega)
  have election : Holds s.election s.tick s.electionTicks :=
    (holds_ticks_iff runs).mpr (by omega)
  refine ⟨?_, ?_, heartbeat, election⟩
  · have one : 1 ≤ s.heartbeat / s.tick := (Nat.one_le_div_iff runs).mpr valid.tick_le
    rwa [(holds_iff runs).mp heartbeat] at one
  · have count : 2 * s.electionTicks * s.tick < UInt64.size * s.tick := by
      have := election.1
      rw [Nat.mul_assoc]
      omega
    exact Nat.le_pred_of_lt (Nat.lt_of_mul_lt_mul_right count)

/-- Settings are valid for a replica iff they are valid, the heartbeat has not lost all its ticks
and twice the election timeout is a word; otherwise the first of these that fails is what comes of
them. The replica then has the ticks that were counted, at least one for a heartbeat and more for
an election, and each count is that of its span iff the span fills a word of ticks at most. Below
half the words of ticks nothing is lost: valid settings are valid for the replica, and exact. -/
theorem toReplica_ok_iff (s : Settings) {id : Nat} (known : id ≠ 0) (applied : Nat) :
    let made := s.toReplica id applied
    (∀ r, made = .ok (.ok r) ↔ s.validate = .ok () ∧ 0 < s.heartbeatTicks ∧
      2 * s.electionTicks ≤ maxWord ∧ r = s.replica id applied) ∧
    (∀ f, made = .ok (.error f) ↔ s.validate = .error f ∨
      s.validate = .ok () ∧ s.heartbeatTicks = 0 ∧ f = noHeartbeat) ∧
    (∀ f, made = .error f ↔ s.validate = .ok () ∧ 0 < s.heartbeatTicks ∧
      maxWord < 2 * s.electionTicks ∧ f = .overflow .multiply) ∧
    (∀ r, made = .ok (.ok r) → 1 ≤ r.heartbeat ∧ r.heartbeat < r.election ∧
      (Holds s.heartbeat s.tick r.heartbeat ↔ s.heartbeat < UInt64.size * s.tick) ∧
      (Holds s.election s.tick r.election ↔ s.election < UInt64.size * s.tick)) ∧
    (2 * s.election < UInt64.size * s.tick → ((∃ r, made = .ok (.ok r)) ↔ s.validate = .ok ()) ∧
      ∀ r, made = .ok (.ok r) → Holds s.heartbeat s.tick r.heartbeat ∧
        Holds s.election s.tick r.election) := by
  intro made
  cases checked : s.validate with
  | error f =>
    have refused : made = .ok (.error f) := toReplica_of_error checked id applied
    simp [refused]
  | ok _ =>
    have valid := validate_eq_ok_iff.mp checked
    have outcome : made = _ := valid.toReplica_eq known applied
    have accepted : ∀ r, made = .ok (.ok r) ↔ 0 < s.heartbeatTicks ∧
        2 * s.electionTicks ≤ maxWord ∧ r = s.replica id applied := by
      intro r
      rw [outcome]
      split_ifs with none wide
      · simp [none]
      · simp [Nat.not_le.mpr wide]
      · simp [Nat.pos_of_ne_zero none, Nat.not_lt.mp wide, eq_comm]
    refine ⟨?_, ?_, ?_, ?_, ?_⟩
    · simpa using accepted
    · intro f
      rw [outcome]
      split_ifs with none wide <;> simp [none, eq_comm]
    · intro f
      rw [outcome]
      split_ifs with none wide
      · simp [none]
      · simp [Nat.pos_of_ne_zero none, wide, eq_comm]
      · simp [wide]
    · intro r done
      obtain ⟨some, -, rfl⟩ := (accepted r).mp done
      exact ⟨some, valid.ticks_lt, holds_ticks_iff valid.tick_pos, holds_ticks_iff valid.tick_pos⟩
    · intro short
      obtain ⟨some, word, heartbeat, election⟩ := valid.counts_of_lt short
      refine ⟨⟨fun _ => rfl, fun _ => ⟨_, (accepted _).mpr ⟨some, word, rfl⟩⟩⟩, ?_⟩
      intro r done
      obtain ⟨-, -, rfl⟩ := (accepted r).mp done
      exact ⟨heartbeat, election⟩

/-- A heartbeat of as many ticks as there are words is counted as none. The settings are valid all
the same, and the replica refuses them. -/
theorem toReplica_ok_iff_of_lost_heartbeat :
    let s : Settings :=
      { tick := 1, heartbeat := UInt64.size, election := UInt64.size + 5 }
    1 ≠ 0 ∧ s.validate = .ok () ∧ s.toReplica 1 0 = .ok (.error noHeartbeat) ∧
      ¬Holds s.heartbeat s.tick s.heartbeatTicks := by
  intro s
  have valid : s.validate = .ok () := validate_eq_ok_iff.mpr (by constructor <;> decide +kernel)
  have none : s.heartbeatTicks = 0 := by decide +kernel
  have known : 1 ≠ 0 := by decide
  obtain ⟨-, refused, -⟩ := toReplica_ok_iff s known 0
  refine ⟨known, valid, (refused noHeartbeat).mpr (Or.inr ⟨valid, none, rfl⟩), ?_⟩
  rw [none]
  exact fun exact => absurd exact.2 (by decide +kernel)

end QuorumLab.Settings
