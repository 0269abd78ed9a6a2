import QuorumLab.Proofs.Engine.Steps

/-!
# An iteration is a run of statements

A loop that goes through an iteration at once comes to where it comes if it is watched at
every statement.
-/

namespace QuorumLab.Engine

variable {κ μ ω : Type} [Core κ] [Machine μ] [Carrier ω]

/-- The engine and the network after some events. -/
def plays (s : Engine κ μ × ω) (vs : List (Event ω)) : Engine κ μ × ω :=
  vs.foldl (fun s v => s.1.after s.2 v) s

/-- What an engine becomes when its loop has come to rest. -/
def settle (e : Engine κ μ) : Loop κ μ × ω × Loop.Rest → Engine κ μ × ω
  | (loop, w, .idle) | (loop, w, .held) => ({ e with loop }, w)
  | (loop, w, .stopped f) => (({ e with loop } : Engine κ μ).finish (.returned (.error f)), w)
  | (loop, w, .fault f) => (({ e with loop } : Engine κ μ).finish (.crashed f), w)

theorem resume_eq {e : Engine κ μ} (live : e.ending = none) (w : ω) :
    e.resume w = e.settle (e.loop.run w) := by
  rw [resume, if_neg (by simp [ended, live])]
  obtain ⟨l, w', rest⟩ := e.loop.run w
  cases rest <;> rfl

omit [Core κ] [Machine μ] [Carrier ω] in
theorem settle_loop (e : Engine κ μ) (l : Loop κ μ) (r : Loop κ μ × ω × Loop.Rest) :
    ({ e with loop := l } : Engine κ μ).settle r = e.settle r := by
  obtain ⟨l', w, rest⟩ := r
  cases rest <;> rfl

/-- One statement more, and what comes after it. -/
theorem plays_advance {e e' : Engine κ μ} {w w' : ω} {r : Engine κ μ × ω}
    (one : e.advance w = (e', w')) (more : ∃ n, r = plays (e', w') (List.replicate n .statement)) :
    ∃ n, r = plays (e, w) (List.replicate n .statement) := by
  obtain ⟨n, more⟩ := more
  refine ⟨n + 1, more.trans ?_⟩
  rw [List.replicate_succ, plays, plays, List.foldl_cons]
  exact congrArg (List.foldl _ · _) one.symm

/-- The induction follows the loop, one statement or one turn at a time. -/
theorem settle_plays (l : Loop κ μ) (w : ω) : ∀ e : Engine κ μ, e.ending = none → e.loop = l →
    ∃ n, e.settle (l.run w) = plays (e, w) (List.replicate n .statement) := by
  fun_induction Loop.run l w with
  | case1 l w a rest todo d w' done ih =>
    rintro e live rfl
    have := ih { e with loop := { e.loop with driver := d, todo := rest } } live rfl
    rw [settle_loop] at this
    exact plays_advance (advance_done live todo done) this
  | case2 l w a rest todo held =>
    rintro e live rfl
    exact ⟨0, rfl⟩
  | case3 l w a rest todo f d w' stop =>
    rintro e live rfl
    exact plays_advance (advance_stopped live todo stop) ⟨0, rfl⟩
  | case4 l w a rest todo f fault =>
    rintro e live rfl
    have one : e.advance w = (e.finish (.crashed f), w) := by
      simp [advance, ended, live, Loop.idle, todo, Loop.advance, fault, Effect.map]
    exact plays_advance one ⟨0, rfl⟩
  | case5 l w todo closing =>
    rintro e live rfl
    exact ⟨0, rfl⟩
  | case6 l w todo busy l' turn ih =>
    rintro e live rfl
    have one : e.advance w = ({ e with loop := l' }, w) := by
      simp [advance, ended, live, Loop.idle, todo, busy, Loop.advance, turn, Effect.map]
    have := ih { e with loop := l' } live rfl
    rw [settle_loop] at this
    exact plays_advance one this
  | case7 l w todo busy turn => exact absurd turn l.turn_not_held.1
  | case8 l w todo busy f l' turn => exact absurd turn (l.turn_not_held.2 f l')
  | case9 l w todo busy f turn =>
    rintro e live rfl
    have one : e.advance w = (e.finish (.crashed f), w) := by
      simp [advance, ended, live, Loop.idle, todo, busy, Loop.advance, turn, Effect.map]
    exact plays_advance one ⟨0, rfl⟩

/-- Going on with an iteration is doing some statements. -/
theorem resume_plays (e : Engine κ μ) (w : ω) :
    ∃ n, e.resume w = plays (e, w) (List.replicate n .statement) := by
  rcases Option.eq_none_or_eq_some e.ending with live | ⟨ending, past⟩
  · obtain ⟨n, same⟩ := settle_plays e.loop w e live rfl
    exact ⟨n, (resume_eq live w).trans same⟩
  · refine ⟨0, ?_⟩
    rw [resume, if_pos (by simp [ended, past])]
    rfl

/-- An iteration is one event that begins it, and some statements. -/
theorem cycle_plays {e : Engine κ μ} (rest : e.resting = true) (inbox : List Message) (t : Readings)
    (w : ω) : ∃ v n, (v = .wake inbox t ∨ v = .command inbox t) ∧
      e.cycle inbox t w = plays (e, w) (v :: List.replicate n .statement) := by
  have taken : e.after w (.command inbox t) = (e.take inbox t, w) := by
    rw [after, if_pos rest]
  have woken : e.after w (.wake inbox t) = ({ e with loop := e.loop.wake [] inbox t }, w) := by
    rw [after, if_pos rest]
  unfold cycle
  split
  · rename_i queue stop
    refine ⟨.command inbox t, 0, Or.inr rfl, ?_⟩
    rw [plays, List.foldl_cons, taken, take, stop]
    rfl
  · rename_i c queue other next
    obtain ⟨n, same⟩ := resume_plays
      ({ e with queue, loop := e.loop.wake [.handle c] inbox t } : Engine κ μ) w
    refine ⟨.command inbox t, n, Or.inr rfl, same.trans ?_⟩
    have takes : e.take inbox t = { e with queue, loop := e.loop.wake [.handle c] inbox t } := by
      cases c with
      | stop => exact absurd rfl other
      | propose | snapshot | membership => simp only [take, next]
    rw [plays, plays, List.foldl_cons, taken, takes]
  · rename_i empty
    obtain ⟨n, same⟩ := resume_plays ({ e with loop := e.loop.wake [] inbox t } : Engine κ μ) w
    refine ⟨.wake inbox t, n, Or.inl rfl, same.trans ?_⟩
    rw [plays, plays, List.foldl_cons, woken]

end QuorumLab.Engine
