import QuorumLab.Failure

/-!
# Bounded polling

To wait is to probe, look at the clock and sleep, until a probe yields or the clock has
reached the deadline, as it must where every sleep takes some time. The last observation tells
what was seen instead.
-/

namespace QuorumLab

/-- A world with a clock, in which time passes while one sleeps. -/
class Clock (σ : Type) where
  now : σ → Nat
  sleep : (span : Nat) → σ → σ

/-- A clock that never stands still: a sleep takes its span, and some time in any case. -/
class LawfulClock (σ : Type) [Clock σ] : Prop where
  slept (span : Nat) (s : σ) : Clock.now s + max span 1 ≤ Clock.now (Clock.sleep span s)

/-- Where a clock stands when nothing has happened yet: it was started an hour before. -/
def clockStart : Nat := 3600 * Span.second

/-- How long to sleep between two probes, unless told otherwise. -/
def pollInterval : Nat := Span.ofMillis 5

/-- What is waited for, in words, and a probe that yields a value or says what it saw. Time
may pass while it looks. -/
structure Watch (σ α : Type) [Clock σ] where
  subject : String := ""
  condition : String := ""
  probe : σ → (Option α × String) × σ
  forward (s : σ) : Clock.now s ≤ Clock.now (probe s).2

namespace Watch

variable {σ α : Type} [Clock σ]

/-- A probe that takes no time. -/
def look (subject condition : String) (read : σ → Option α × String) : Watch σ α :=
  { subject, condition, probe := fun s => (read s, s), forward := fun _ => Nat.le_refl _ }

def timedOut (w : Watch σ α) (timeout : Nat) (observed : String) : Failure :=
  .waitTimeout w.subject w.condition timeout observed

/-- Probe until a value is there or the clock is at `deadline`; `none` means that one is still
waiting after that many sleeps. -/
def pollWithin (w : Watch σ α) (interval timeout deadline : Nat) :
    (sleeps : Nat) → σ → Option (Except Failure α × σ)
  | sleeps, s =>
    match w.probe s with
    | ((some a, _), s) => some (.ok a, s)
    | ((none, observed), s) =>
      if deadline ≤ Clock.now s then some (.error (w.timedOut timeout observed), s)
      else match sleeps with
        | 0 => none
        | sleeps + 1 => w.pollWithin interval timeout deadline sleeps (Clock.sleep interval s)

/-- Every sleep brings the deadline nearer, so enough of them reach it. -/
theorem pollWithin_isSome [LawfulClock σ] (w : Watch σ α) (interval timeout : Nat)
    {deadline n : Nat} {s : σ} (enough : deadline ≤ Clock.now s + max interval 1 * n) :
    (w.pollWithin interval timeout deadline n s).isSome := by
  fun_induction pollWithin w interval timeout deadline n s with
  | case1 | case2 => rfl
  | case3 s observed world probed early =>
    have forward : Clock.now s ≤ Clock.now world := by simpa only [probed] using w.forward s
    exact absurd (Nat.le_trans enough forward) early
  | case4 s observed world probed early n ih =>
    have forward : Clock.now s ≤ Clock.now world := by simpa only [probed] using w.forward s
    have slept := LawfulClock.slept interval world
    rw [Nat.mul_succ] at enough
    exact ih (by omega)

/-- How often one can sleep before the deadline, if every sleep takes at least `interval` and
at least one nanosecond. -/
def sleeps (interval timeout : Nat) : Nat := timeout / max interval 1 + 1

theorem le_mul_sleeps (interval timeout : Nat) :
    timeout ≤ max interval 1 * sleeps interval timeout :=
  Nat.le_of_lt (Nat.lt_mul_div_succ timeout (Nat.le_max_right interval 1))

/-- Wait for at most `timeout`. -/
def poll [LawfulClock σ] (w : Watch σ α) (interval timeout : Nat) (s : σ) :
    Except Failure α × σ :=
  (w.pollWithin interval timeout (Clock.now s + timeout) (sleeps interval timeout) s).get
    (w.pollWithin_isSome interval timeout
      (Nat.add_le_add_left (le_mul_sleeps interval timeout) (Clock.now s)))

end Watch

end QuorumLab
