import Mathlib.Algebra.Order.Floor.Div
import QuorumLab.Cluster.Control
import QuorumLab.Proofs.Engine.Events

/-!
# Waiting in bounded time

A wait probes, looks at the clock and sleeps, over and over. It is over with the first probe that
yields something, or after which the clock is at the deadline; a value is taken even then. As long
as a sleep takes its time, this bounds the number of probes.
-/

namespace QuorumLab

namespace Watch

variable {σ α : Type} [Clock σ]

section Course

variable (w : Watch σ α) (interval : Nat) (s : σ)

/-- The world as the probe after `k` sleeps finds it. -/
def found : Nat → σ
  | 0 => s
  | k + 1 => Clock.sleep interval (w.probe (found k)).2

/-- The world as that probe leaves it. -/
def left (k : Nat) : σ := (w.probe (w.found interval s k)).2

/-- What that probe yields. -/
def value? (k : Nat) : Option α := (w.probe (w.found interval s k)).1.1

/-- What that probe says it saw. -/
def observed (k : Nat) : String := (w.probe (w.found interval s k)).1.2

/-- What the clock reads after that probe. -/
def reading (k : Nat) : Nat := Clock.now (w.left interval s k)

/-- While a wait from `s` goes on, every sleep takes at least its interval. -/
def Paced : Prop :=
  ∀ k, w.reading interval s k + interval ≤ Clock.now (w.found interval s (k + 1))

/-- A wait that began at `s` is over with the probe after `k` sleeps, and comes to `r`. -/
structure Ends (timeout deadline k : Nat) (r : Except Failure α) : Prop where
  before : ∀ j < k, w.value? interval s j = none ∧ w.reading interval s j < deadline
  last : (∃ a, w.value? interval s k = some a ∧ r = .ok a) ∨
    w.value? interval s k = none ∧ deadline ≤ w.reading interval s k ∧
      r = .error (.waitTimeout w.subject w.condition timeout (w.observed interval s k))

end Course

variable {w : Watch σ α} {interval timeout deadline k : Nat} {s : σ} {r : Except Failure α}

/-! ## The loop -/

/-- After the first probe a wait goes on as one that begins when the first sleep is over. -/
theorem found_succ (k : Nat) :
    w.found interval s (k + 1) = w.found interval (Clock.sleep interval (w.probe s).2) k := by
  induction k with
  | zero => rfl
  | succ k ih =>
    rw [found, ih]
    rfl

theorem left_succ (k : Nat) : w.left interval s (k + 1) =
    w.left interval (Clock.sleep interval (w.probe s).2) k := by
  rw [left, found_succ, left]

theorem ends_zero_iff : w.Ends interval s timeout deadline 0 r ↔
    (∃ a, (w.probe s).1.1 = some a ∧ r = .ok a) ∨
      (w.probe s).1.1 = none ∧ deadline ≤ Clock.now (w.probe s).2 ∧
        r = .error (w.timedOut timeout (w.probe s).1.2) :=
  ⟨fun h => h.last, fun h => ⟨fun _ hj => absurd hj (Nat.not_lt_zero _), h⟩⟩

theorem ends_succ_iff : w.Ends interval s timeout deadline (k + 1) r ↔
    ((w.probe s).1.1 = none ∧ Clock.now (w.probe s).2 < deadline) ∧
      w.Ends interval (Clock.sleep interval (w.probe s).2) timeout deadline k r := by
  have value (k : Nat) : w.value? interval s (k + 1) =
      w.value? interval (Clock.sleep interval (w.probe s).2) k := by
    rw [value?, found_succ, value?]
  have reading (k : Nat) : w.reading interval s (k + 1) =
      w.reading interval (Clock.sleep interval (w.probe s).2) k := by
    rw [Watch.reading, left_succ, Watch.reading]
  have observed : w.observed interval s (k + 1) =
      w.observed interval (Clock.sleep interval (w.probe s).2) k := by
    rw [Watch.observed, found_succ, Watch.observed]
  constructor
  · intro h
    refine ⟨h.before 0 (Nat.succ_pos k), ?_, ?_⟩
    · intro j hj
      rw [← value, ← reading]
      exact h.before (j + 1) (Nat.succ_lt_succ hj)
    · rw [← value, ← reading, ← observed]
      exact h.last
  · rintro ⟨first, rest⟩
    constructor
    · intro j hj
      cases j with
      | zero => exact first
      | succ j =>
        rw [value, reading]
        exact rest.before j (Nat.lt_of_succ_lt_succ hj)
    · rw [value, reading, observed]
      exact rest.last

/-- A wait is over with its first probe, or goes on after a sleep that it is allowed. -/
theorem pollWithin_step {n : Nat} {s' : σ} :
    w.pollWithin interval timeout deadline n s = some (r, s') ↔
      (w.Ends interval s timeout deadline 0 r ∧ s' = (w.probe s).2) ∨
      ((w.probe s).1.1 = none ∧ Clock.now (w.probe s).2 < deadline) ∧ ∃ m, n = m + 1 ∧
        w.pollWithin interval timeout deadline m (Clock.sleep interval (w.probe s).2) =
          some (r, s') := by
  rw [ends_zero_iff, pollWithin.eq_def]
  rcases probed : w.probe s with ⟨⟨_ | a, observed⟩, world⟩
  · by_cases late : deadline ≤ Clock.now world
    · have pending : ¬Clock.now world < deadline := Nat.not_lt.mpr late
      simp [probed, late, pending, eq_comm]
    · cases n <;> simp [probed, late, Nat.lt_of_not_le late]
  · simp [probed, eq_comm]

/-- A wait that is allowed `n` sleeps is over iff it is over with one of the probes that it can
make. The induction is on the sleeps. -/
theorem pollWithin_eq_some_iff {n : Nat} {s' : σ} :
    w.pollWithin interval timeout deadline n s = some (r, s') ↔
      ∃ k ≤ n, w.Ends interval s timeout deadline k r ∧ s' = w.left interval s k := by
  induction n generalizing s with
  | zero =>
    rw [pollWithin_step]
    constructor
    · rintro (⟨ends, there⟩ | ⟨-, m, none, -⟩)
      · exact ⟨0, Nat.le_refl 0, ends, there⟩
      · cases none
    · rintro ⟨k, few, ends, there⟩
      cases Nat.le_zero.mp few
      exact Or.inl ⟨ends, there⟩
  | succ n ih =>
    have goesOn : (∃ m, n + 1 = m + 1 ∧ w.pollWithin interval timeout deadline m
        (Clock.sleep interval (w.probe s).2) = some (r, s')) ↔
        ∃ k ≤ n, w.Ends interval (Clock.sleep interval (w.probe s).2) timeout deadline k r ∧
          s' = w.left interval s (k + 1) := by
      simp only [Nat.add_right_cancel_iff, exists_eq_left', ih, left_succ]
    rw [pollWithin_step, goesOn]
    constructor
    · rintro (⟨ends, there⟩ | ⟨fruitless, k, few, ends, there⟩)
      · exact ⟨0, Nat.zero_le _, ends, there⟩
      · exact ⟨k + 1, Nat.succ_le_succ few, ends_succ_iff.mpr ⟨fruitless, ends⟩, there⟩
    · rintro ⟨k, few, ends, there⟩
      cases k with
      | zero => exact Or.inl ⟨ends, there⟩
      | succ k =>
        obtain ⟨fruitless, ends⟩ := ends_succ_iff.mp ends
        exact Or.inr ⟨fruitless, k, Nat.le_of_succ_le_succ few, ends, there⟩

/-- A wait is over once only, and comes to one result. -/
theorem Ends.unique {k' : Nat} {r' : Except Failure α}
    (h : w.Ends interval s timeout deadline k r) (h' : w.Ends interval s timeout deadline k' r') :
    k = k' ∧ r = r' := by
  have not_before {k k' : Nat} {r r' : Except Failure α}
      (h : w.Ends interval s timeout deadline k r)
      (h' : w.Ends interval s timeout deadline k' r') : ¬k < k' := by
    intro sooner
    obtain ⟨fruitless, early⟩ := h'.before k sooner
    rcases h.last with ⟨a, value, -⟩ | ⟨-, late, -⟩
    · rw [fruitless] at value
      cases value
    · omega
  obtain rfl : k = k' := by
    have := not_before h h'
    have := not_before h' h
    omega
  refine ⟨rfl, ?_⟩
  rcases h.last with ⟨a, value, rfl⟩ | ⟨none, -, rfl⟩
  · rcases h'.last with ⟨a', value', rfl⟩ | ⟨none', -, -⟩
    · rw [value] at value'
      cases value'
      rfl
    · rw [value] at none'
      cases none'
  · rcases h'.last with ⟨a', value', -⟩ | ⟨-, -, rfl⟩
    · rw [none] at value'
      cases value'
    · rfl

/-! ## The number of probes -/

/-- A wait is over by any probe after which the clock is at the deadline. -/
theorem exists_ends (late : deadline ≤ w.reading interval s k) :
    ∃ j ≤ k, ∃ r, w.Ends interval s timeout deadline j r := by
  have ending : ∃ j, (w.value? interval s j).isSome ∨ deadline ≤ w.reading interval s j :=
    ⟨k, Or.inr late⟩
  have before : ∀ j < Nat.find ending,
      w.value? interval s j = none ∧ w.reading interval s j < deadline := by
    intro j hj
    have goesOn := Nat.find_min ending hj
    simpa using goesOn
  refine ⟨Nat.find ending, Nat.find_min' ending (Or.inr late), ?_⟩
  cases value : w.value? interval s (Nat.find ending) with
  | some a => exact ⟨.ok a, before, Or.inl ⟨a, value, rfl⟩⟩
  | none =>
    have stops := Nat.find_spec ending
    rw [value] at stops
    exact ⟨_, before, Or.inr ⟨value, stops.resolve_left Bool.false_ne_true, rfl⟩⟩

theorem Paced.add_mul_le (paced : w.Paced interval s) (k : Nat) :
    Clock.now s + interval * k ≤ Clock.now (w.found interval s k) := by
  induction k with
  | zero => exact Nat.le_refl _
  | succ k ih =>
    have forward : Clock.now (w.found interval s k) ≤ w.reading interval s k := w.forward _
    have slept := paced k
    rw [Nat.mul_succ]
    omega

/-- Where sleeps take time a wait is over after as many of them as fill the timeout. -/
theorem Paced.exists_ends (paced : w.Paced interval s) (passes : 0 < interval) (timeout : Nat) :
    ∃ k ≤ timeout ⌈/⌉ interval, ∃ r,
      w.Ends interval s timeout (Clock.now s + timeout) k r := by
  apply Watch.exists_ends
  have filled : timeout ≤ interval * (timeout ⌈/⌉ interval) := le_smul_ceilDiv passes
  have slept := paced.add_mul_le (timeout ⌈/⌉ interval)
  have forward : Clock.now (w.found interval s (timeout ⌈/⌉ interval)) ≤
      w.reading interval s (timeout ⌈/⌉ interval) := w.forward _
  omega

/-- Where the clock never stands still every sleep takes its interval. -/
theorem paced [LawfulClock σ] : w.Paced interval s := by
  intro k
  have slept := LawfulClock.slept interval (w.left interval s k)
  exact Nat.le_trans (Nat.add_le_add_left (Nat.le_max_left interval 1) _) slept

/-- There, a wait has as many sleeps as it needs. -/
theorem poll_eq_some [LawfulClock σ] : w.pollWithin interval timeout (Clock.now s + timeout)
    (sleeps interval timeout) s = some (w.poll interval timeout s) :=
  (Option.some_get _).symm

/-- A wait of any length is over iff one of its probes yields something or finds the clock at the
deadline, and with the first that does: it comes to the value, if there is one, else to a failure
that tells what this probe saw, and the world is as it left it. Where the clock never stands still
every wait comes to an end. If a sleep takes its interval, and that is any time, there are at most
as many sleeps between the probes as intervals begin in the timeout. -/
theorem polls_exactly (w : Watch σ α) (interval timeout : Nat) (s : σ) :
    let stops := w.Ends interval s timeout (Clock.now s + timeout)
    let wait (n : Nat) := w.pollWithin interval timeout (Clock.now s + timeout) n s
    (∀ n r s', wait n = some (r, s') ↔ ∃ k ≤ n, stops k r ∧ s' = w.left interval s k) ∧
    (∀ k r k' r', stops k r → stops k' r' → k = k' ∧ r = r') ∧
    (∀ [LawfulClock σ], ∃ k r, stops k r ∧ w.poll interval timeout s = (r, w.left interval s k)) ∧
    (w.Paced interval s → 0 < interval → ∃ k ≤ timeout ⌈/⌉ interval, ∃ r, stops k r ∧
      ∀ n ≥ k, wait n = some (r, w.left interval s k)) := by
  intro stops wait
  refine ⟨fun n r s' => pollWithin_eq_some_iff, fun k r k' r' h h' => h.unique h', ?_, ?_⟩
  · intro lawful
    obtain ⟨k, -, ends, there⟩ := pollWithin_eq_some_iff.mp (poll_eq_some (w := w))
    exact ⟨k, _, ends, Prod.ext rfl there⟩
  · intro paced passes
    obtain ⟨k, few, r, ends⟩ := Paced.exists_ends paced passes timeout
    exact ⟨k, few, r, ends, fun n enough => pollWithin_eq_some_iff.mpr ⟨k, enough, ends, rfl⟩⟩

/-- Two members of a cluster that nobody makes campaign: a wait for a leader gives up at the fourth
probe, and says what that one saw. What is there at that probe is taken, though the time is up. -/
theorem polls_exactly_of_leaderless :
    let member (i : Nat) : Nat × Engine Replica Recorder :=
      (i, .boot (i + 1) {} (Sample.follower (i + 1) Sample.shelf) {} Sample.shelf [] clockStart)
    let l : Live Recorder :=
      { cluster := Cluster.new 2, knobs := [], machines := [{}, {}]
        engines := [member 0, member 1] }
    let interval := Span.ofMillis 5
    let timeout := Span.ofMillis 12
    let late : Watch (Live Recorder) Nat := look "" "" fun l =>
      (if clockStart + timeout ≤ l.clock then some l.clock else none, "")
    (∀ w ∈ [Live.leadershipAcquired, late], w.Paced interval l) ∧ 0 < interval ∧
    Live.leadershipAcquired.poll interval timeout l =
      (.error (.waitTimeout "cluster" "a leader" timeout
        "node 0 Follower in term 0, node 1 Follower in term 0"),
        Live.leadershipAcquired.left interval l 3) ∧
    late.poll interval timeout l =
      (.ok (clockStart + Span.ofMillis 15), late.left interval l 3) := by
  intro member l interval timeout late
  have passes : 0 < interval := by decide
  have fourth {w : Watch (Live Recorder) Nat} {r : Except Failure Nat}
      (ends : w.Ends interval l timeout (clockStart + timeout) 3 r) :
      w.poll interval timeout l = (r, w.left interval l 3) := by
    obtain ⟨-, once, polled, -⟩ := polls_exactly w interval timeout l
    obtain ⟨k, r', ends', result⟩ := polled
    obtain ⟨rfl, rfl⟩ := once _ _ _ _ ends ends'
    exact result
  refine ⟨fun _ _ => paced, passes, fourth ⟨?_, Or.inr ⟨?_, ?_, ?_⟩⟩,
    fourth ⟨?_, Or.inl ⟨clockStart + Span.ofMillis 15, ?_, rfl⟩⟩⟩
  all_goals decide +kernel

end Watch

end QuorumLab
