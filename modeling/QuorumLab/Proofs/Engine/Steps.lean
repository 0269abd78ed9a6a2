import QuorumLab.Proofs.Engine.Work

/-!
# What an event makes of an engine

For every kind of event, all that can come of it.
-/

namespace QuorumLab

/-- Whose command it is. -/
def Command.ticket? : Command → Option Nat
  | .propose ticket _ | .snapshot ticket | .membership ticket => some ticket
  | .stop => none

/-- Who is told if the command is refused. -/
def Command.owed? : Command → Option Nat
  | .propose ticket _ | .snapshot ticket => some ticket
  | .membership _ | .stop => none

/-- An event that comes from a handle or the network. -/
def Event.Outside {ω : Type} : Event ω → Prop
  | .apply _ | .snapshot | .membership | .requestStop | .network _ => True
  | _ => False

/-- An event that waits for an engine to rest. -/
def Event.Awaited {ω : Type} : Event ω → Prop
  | .command _ _ | .wake _ _ | .abandon => True
  | _ => False

namespace Engine

variable {κ μ ω : Type} [Core κ] [Machine μ] [Carrier ω]

omit [Core κ] [Machine μ] in
/-- What is refused is told that the engine has shut down; a query is not told anything. -/
theorem foldl_reject (d : Driver κ μ) (queue : List Command) :
    queue.foldl reject d = { d with
      answers := d.answers ++ (queue.filterMap Command.owed?).map (·, .error .shutdown) } := by
  induction queue generalizing d with
  | nil => simp
  | cons c queue ih =>
    rw [List.foldl_cons, ih]
    cases c <;> simp [reject, Driver.answer, Command.owed?, List.filterMap_cons]

omit [Core κ] [Machine μ] in
/-- The end of a driver changes what it has answered, not what it holds. -/
theorem alike_finish (e : Engine κ μ) (ending : Ending) :
    e.driver.Alike (e.finish ending).driver ∧ (e.finish ending).driver.core = e.driver.core := by
  cases ending with
  | returned r =>
    simp only [finish, driver, foldl_reject]
    exact ⟨⟨rfl, rfl, rfl, rfl, rfl⟩, rfl⟩
  | crashed f => exact ⟨⟨rfl, rfl, rfl, rfl, rfl⟩, rfl⟩

omit [Core κ] [Machine μ] in
theorem published_finish (e : Engine κ μ) (ending : Ending) :
    (e.finish ending).published = { e.published with state := .shutdown } := by
  cases ending with
  | returned r =>
    simp only [finish, published, driver, foldl_reject]
    rfl
  | crashed f => rfl

omit [Core κ] [Machine μ] in
/-- A command is refused at once, or is put at the end of the queue of an engine that runs. -/
theorem enqueue_cases (e : Engine κ μ) (c : Nat → Command) :
    (∃ f, e.enqueue c = (.failed f, e)) ∨
    (e.ending = none ∧ e.enqueue c = (.ticket e.issued,
      { e with queue := e.queue ++ [c e.issued], issued := e.issued + 1 })) := by
  by_cases past : e.ended = true
  · exact Or.inl ⟨_, if_pos past⟩
  · exact Or.inr ⟨by simpa [ended] using past, if_neg past⟩

omit [Core κ] [Machine μ] in
theorem apply_cases (e : Engine κ μ) (data : Bytes) :
    (∃ f, e.apply data = (.failed f, e)) ∨ e.apply data = e.enqueue (.propose · data) := by
  by_cases down : e.published.state = .shutdown
  · exact Or.inl ⟨_, if_pos down⟩
  · rw [apply, if_neg down]
    by_cases room : (!e.ended && e.full) = true
    · exact Or.inl ⟨_, if_pos room⟩
    · exact Or.inr (if_neg room)

omit [Core κ] [Machine μ] in
/-- A request to stop is put at the end of the queue once, and not when the engine has ended. -/
theorem requestStop_cases (e : Engine κ μ) :
    e.requestStop.2 = e ∨ ∃ queue, (queue = e.queue ∨ queue = e.queue ++ [.stop]) ∧
      e.requestStop.2 = { e with claimed := true, queue } := by
  by_cases claimed : e.claimed = true
  · exact Or.inl (by simp only [requestStop, if_pos claimed])
  · refine Or.inr ⟨_, ?_, by simp only [requestStop, if_neg claimed]; rfl⟩
    by_cases past : e.ended = true
    · exact Or.inl (by simp only [if_pos past])
    · exact Or.inr (by simp only [if_neg past])

omit [Core κ] [Machine μ] in
theorem resting_iff (e : Engine κ μ) : e.resting = true ↔
    e.ending = none ∧ e.loop.stage = .closing ∧ e.loop.todo = [] := by
  simp [resting, ended, Loop.idle]

/-- What a handle or the network can make of an engine. -/
inductive Asks (e : Engine κ μ) : Engine κ μ → Prop
  | same : Asks e e
  | issue {c : Command} (live : e.ending = none) (mine : c.ticket? = some e.issued) :
      Asks e { e with queue := e.queue ++ [c], issued := e.issued + 1 }
  | stop {queue : List Command} (added : queue = e.queue ∨ queue = e.queue ++ [.stop]) :
      Asks e { e with claimed := true, queue }

omit [Core κ] [Machine μ] in
theorem asks_enqueue (e : Engine κ μ) {c : Nat → Command} (mine : ∀ n, (c n).ticket? = some n) :
    e.Asks (e.enqueue c).2 := by
  rcases e.enqueue_cases c with ⟨f, refused⟩ | ⟨live, taken⟩
  · rw [refused]
    exact .same
  · rw [taken]
    exact .issue live (mine _)

theorem asks (e : Engine κ μ) (w : ω) {v : Event ω} (outside : v.Outside) :
    e.Asks (e.after w v).1 := by
  cases v with
  | apply data =>
    change e.Asks (e.apply data).2
    rcases e.apply_cases data with ⟨f, refused⟩ | asked
    · rw [refused]
      exact .same
    · rw [asked]
      exact e.asks_enqueue fun _ => rfl
  | snapshot => exact e.asks_enqueue fun _ => rfl
  | membership => exact e.asks_enqueue fun _ => rfl
  | requestStop =>
    change e.Asks e.requestStop.2
    rcases e.requestStop_cases with same | ⟨queue, added, stops⟩
    · rw [same]
      exact .same
    · rw [stops]
      exact .stop added
  | network w => exact .same
  | command | wake | abandon | statement => exact absurd outside not_false

/-- What can become of an engine at rest: it ends, or an iteration begins, with a command or
without one. -/
inductive Rouses (e : Engine κ μ) : Engine κ μ → Prop
  | same : Rouses e e
  | ends {queue : List Command} (rest : e.resting = true)
      (left : e.queue = queue ∨ e.queue = .stop :: queue) :
      Rouses e (({ e with queue } : Engine κ μ).finish (.returned (.ok ())))
  | wakes (cause : Option Command) {queue : List Command} {inbox : List Message} {t : Readings}
      (rest : e.resting = true) (taken : e.queue = cause.toList ++ queue) :
      Rouses e { e with queue, loop := e.loop.wake (cause.map .handle).toList inbox t }

theorem rouses (e : Engine κ μ) (w : ω) {v : Event ω} (awaited : v.Awaited) :
    e.Rouses (e.after w v).1 := by
  cases v with
  | command inbox t =>
    change e.Rouses (if e.resting then e.take inbox t else e)
    by_cases rest : e.resting = true
    · simp only [if_pos rest, take]
      split
      · exact .same
      · rename_i queue stop
        exact .ends rest (Or.inr stop)
      · rename_i c queue _ next
        exact .wakes (some c) rest next
    · simp only [if_neg rest]
      exact .same
  | wake inbox t =>
    change e.Rouses (if e.resting then { e with loop := e.loop.wake [] inbox t } else e)
    by_cases rest : e.resting = true
    · simp only [if_pos rest]
      exact .wakes none rest rfl
    · simp only [if_neg rest]
      exact .same
  | abandon =>
    change e.Rouses (if e.resting && e.queue.isEmpty then e.finish (.returned (.ok ())) else e)
    by_cases rest : (e.resting && e.queue.isEmpty) = true
    · simp only [if_pos rest]
      exact .ends (Bool.and_eq_true_iff.mp rest).1 (Or.inl rfl)
    · simp only [if_neg rest]
      exact .same
  | apply | snapshot | membership | requestStop | statement | network =>
    exact absurd awaited not_false

end Engine

namespace Loop

variable {κ μ ω : Type} [Core κ] [Machine μ] [Carrier ω]

omit [Machine μ] in
theorem turn_not_held (l : Loop κ μ) : l.turn ≠ .held ∧ ∀ f l', l.turn ≠ .stopped f l' := by
  cases stage : l.stage with
  | opening =>
    simp only [turn, stage]
    split <;> simp
  | storing =>
    simp only [turn, stage]
    split <;> simp
  | closing => simp [turn, stage]

variable {l : Loop κ μ} {a : Act} {left : List Act} {w w' : ω}

/-- A statement that is done is behind the loop. -/
theorem run_done {d : Driver κ μ} (todo : l.todo = a :: left)
    (done : l.driver.perform w a = .done (d, w')) :
    l.run w = ({ l with driver := d, todo := left } : Loop κ μ).run w' := by
  rw [run]
  split
  · rename_i next
    rw [todo] at next
    cases next
    rw [done]
  · rename_i next
    rw [todo] at next
    cases next

end Loop

namespace Engine

variable {κ μ ω : Type} [Core κ] [Machine μ] [Carrier ω]

omit [Machine μ] in
/-- What the protocol gives a loop to do next: a round, what follows one, or nothing more. -/
theorem turn_cases {e : Engine κ μ} {l : Loop κ μ} (live : e.ending = none)
    (todo : e.loop.todo = []) (busy : e.loop.stage ≠ .closing) (turn : e.loop.turn = .done l) :
    ∃ core, l.driver = { e.driver with core } ∧
      ((e.round? = none ∧ e.followup? = none ∧ l.todo = Loop.coda ∧ l.stage = .closing) ∨
      (∃ r, e.round? = some r ∧ e.followup? = none ∧ l.todo = r.acts ∧ l.stage = .storing) ∨
      ∃ f, e.round? = none ∧ e.followup? = some f ∧ l.todo = f.acts ++ Loop.coda ∧
        l.stage = .closing) := by
  simp only [Loop.turn] at turn
  cases stage : e.loop.stage with
  | opening =>
    have later : e.followup? = none := by simp [followup?, stage]
    simp only [stage] at turn
    cases hr : Core.ready e.loop.driver.shelf e.loop.driver.core with
    | error f => rw [hr] at turn; cases turn
    | ok next =>
      cases next with
      | none =>
        rw [hr] at turn
        cases turn
        exact ⟨_, rfl, Or.inl ⟨by simp [round?, driver, live, todo, stage, hr], later, rfl, rfl⟩⟩
      | some next =>
        rw [hr] at turn
        cases turn
        exact ⟨_, rfl, Or.inr (Or.inl ⟨next.1, by simp [round?, driver, live, todo, stage, hr],
          later, rfl, rfl⟩)⟩
  | storing =>
    simp only [stage] at turn
    cases hf : Core.advance e.loop.driver.shelf e.loop.driver.core with
    | error f => rw [hf] at turn; cases turn
    | ok next =>
      rw [hf] at turn
      cases turn
      exact ⟨_, rfl, Or.inr (Or.inr ⟨next.1, by simp [round?, stage],
        by simp [followup?, driver, live, todo, stage, hf], rfl, rfl⟩)⟩
  | closing => exact absurd stage busy

/-- What one statement can make of an engine. Only an entry that is applied is held up. -/
inductive Advances (e : Engine κ μ) (w : ω) : Engine κ μ → Prop
  | still (round : e.round? = none) (followup : e.followup? = none)
      (held : e.ending = none → e.loop.todo = [] ∨ ∃ x rest, e.loop.todo = .apply x :: rest) :
      Advances e w e
  | did {a : Act} {rest : List Act} {d : Driver κ μ} {w' : ω} (live : e.ending = none)
      (todo : e.loop.todo = a :: rest) (done : e.driver.perform w a = .done (d, w')) :
      Advances e w { e with loop := { e.loop with driver := d, todo := rest } }
  | turned {l : Loop κ μ} (live : e.ending = none) (todo : e.loop.todo = [])
      (busy : e.loop.stage ≠ .closing) (turn : e.loop.turn = .done l) :
      Advances e w { e with loop := l }
  | stopped {a : Act} {rest : List Act} {f : Failure} {d : Driver κ μ} {w' : ω}
      (live : e.ending = none) (todo : e.loop.todo = a :: rest)
      (stop : e.driver.perform w a = .stopped f (d, w')) :
      Advances e w (({ e with loop := { e.loop with driver := d, todo := rest } } :
        Engine κ μ).finish (.returned (.error f)))
  | crashed {f : Fault} (live : e.ending = none) : Advances e w (e.finish (.crashed f))

theorem advance_done {e : Engine κ μ} {w w' : ω} {a : Act} {rest : List Act} {d : Driver κ μ}
    (live : e.ending = none) (todo : e.loop.todo = a :: rest)
    (done : e.driver.perform w a = .done (d, w')) :
    e.advance w = ({ e with loop := { e.loop with driver := d, todo := rest } }, w') := by
  have done : e.loop.driver.perform w a = .done (d, w') := done
  simp [advance, ended, live, Loop.idle, todo, Loop.advance, done, Effect.map]

theorem advance_stopped {e : Engine κ μ} {w w' : ω} {a : Act} {rest : List Act} {f : Failure}
    {d : Driver κ μ} (live : e.ending = none) (todo : e.loop.todo = a :: rest)
    (stop : e.driver.perform w a = .stopped f (d, w')) :
    e.advance w = (({ e with loop := { e.loop with driver := d, todo := rest } } :
      Engine κ μ).finish (.returned (.error f)), w') := by
  have stop : e.loop.driver.perform w a = .stopped f (d, w') := stop
  simp [advance, ended, live, Loop.idle, todo, Loop.advance, stop, Effect.map]

section Restore

variable {e : Engine κ μ} {s : Snapshot} {rest : List Act}

/-- Restoring a snapshot replaces the machine as a whole. -/
theorem after_restore_ok (live : e.ending = none) (todo : e.loop.todo = .restore s :: rest)
    {machine : Watched μ} (restored : e.driver.machine.restore s.data = .ok machine) (w : ω) :
    (e.after w .statement).1.driver.machine = machine := by
  have after : e.after w .statement = _ :=
    advance_done live todo (Driver.perform_restore_ok restored w)
  rw [after]
  rfl

/-- Where the machine refuses a snapshot the engine ends, with what that leaves of the machine. -/
theorem after_restore_error (live : e.ending = none) (todo : e.loop.todo = .restore s :: rest)
    {f : Failure} {machine : μ} (refused : Machine.restore s.data e.driver.machine.machine =
      .error { failure := f, left := machine }) (w : ω) :
    (e.after w .statement).1.driver.machine = { e.driver.machine with machine } ∧
      (e.after w .statement).1.ending = some (.returned (.error f)) := by
  have after : e.after w .statement = _ :=
    advance_stopped live todo (Driver.perform_restore_error refused w)
  rw [after]
  exact ⟨(alike_finish _ _).1.machine, rfl⟩

end Restore

theorem advances (e : Engine κ μ) (w : ω) : e.Advances w (e.advance w).1 := by
  simp only [advance]
  rcases Option.eq_none_or_eq_some e.ending with live | ⟨ending, past⟩
  · cases todo : e.loop.todo with
    | cons a rest =>
      simp only [ended, live, Loop.idle, todo, Loop.advance, Option.isSome_none, List.isEmpty_cons,
        Bool.and_false, Bool.or_false, Bool.false_eq_true, if_false]
      cases done : e.loop.driver.perform w a with
      | done r => exact live ▸ .did live todo done
      | held =>
        obtain ⟨x, rfl⟩ := Driver.perform_held done
        exact .still (by simp [round?, todo]) (by simp [followup?, todo])
          fun _ => Or.inr ⟨x, rest, todo⟩
      | stopped f left => exact .stopped live todo done
      | fault f => exact .crashed live
    | nil =>
      by_cases stage : e.loop.stage = .closing
      · simp only [ended, live, Loop.idle, todo, stage, Option.isSome_none, List.isEmpty_nil,
          beq_self_eq_true, Bool.and_self, Bool.or_true, if_true]
        exact .still (by simp [round?, stage]) (by simp [followup?, stage]) fun _ => Or.inl todo
      · have busy : (e.loop.stage == .closing) = false := by simpa using stage
        simp only [ended, live, Loop.idle, todo, busy, Loop.advance, Option.isSome_none,
          Bool.false_and, Bool.or_false, Bool.false_eq_true, if_false]
        cases turn : e.loop.turn with
        | done l => exact live ▸ .turned live todo stage turn
        | held => exact absurd turn e.loop.turn_not_held.1
        | stopped f l => exact absurd turn (e.loop.turn_not_held.2 f l)
        | fault f => exact .crashed live
  · simp only [ended, past, Option.isSome_some, Bool.true_or, if_true]
    exact .still (by simp [round?, past]) (by simp [followup?, past])
      fun live => by rw [past] at live; cases live

/-- What a statement makes of the network comes of what it does. -/
theorem advance_network (e : Engine κ μ) (w : ω) : (e.advance w).2 = w ∨
    ∃ a left d, e.loop.todo = a :: left ∧ e.driver.perform w a = .done (d, (e.advance w).2) := by
  simp only [advance]
  split
  · exact Or.inl rfl
  · cases todo : e.loop.todo with
    | cons a left =>
      simp only [Loop.advance, todo]
      cases performed : e.loop.driver.perform w a with
      | done r => exact Or.inr ⟨a, left, r.1, rfl, performed⟩
      | stopped f r => exact Or.inl (Driver.perform_stopped performed).1
      | held | fault => exact Or.inl rfl
    | nil =>
      simp only [Loop.advance, todo]
      cases e.loop.turn <;> exact Or.inl rfl

end Engine

/-- What an event makes of the network by itself. -/
def Event.outer {ω : Type} (w : ω) : Event ω → ω
  | .network w' => w'
  | _ => w

namespace Engine

variable {κ μ ω : Type} [Core κ] [Machine μ] [Carrier ω]

/-- An engine changes the network by what it sends. -/
theorem after_network (e : Engine κ μ) (w : ω) (v : Event ω) : (e.after w v).2 = v.outer w ∨
    v = .statement ∧ ∃ m left, e.loop.todo = .send m :: left := by
  cases v with
  | statement =>
    rcases e.advance_network w with same | ⟨a, left, d, todo, done⟩
    · exact Or.inl same
    · rcases Driver.perform_network done with same | ⟨m, rfl⟩
      · exact Or.inl same
      · exact Or.inr ⟨rfl, m, left, todo⟩
  | _ => exact Or.inl rfl

/-- Every event is one of a handle or the network, one that waits for rest, or a statement. -/
theorem after_cases (e : Engine κ μ) (w : ω) (v : Event ω) :
    (v ≠ .statement ∧ (e.Asks (e.after w v).1 ∨ e.Rouses (e.after w v).1)) ∨
      (v = .statement ∧ e.Advances w (e.after w v).1) := by
  cases v with
  | apply | snapshot | membership | requestStop | network =>
    exact Or.inl ⟨nofun, Or.inl (e.asks w trivial)⟩
  | command | wake | abandon => exact Or.inl ⟨nofun, Or.inr (e.rouses w trivial)⟩
  | statement => exact Or.inr ⟨rfl, e.advances w⟩

/-- An engine that has ended does nothing any more. -/
theorem after_of_ended {e : Engine κ μ} (past : e.ended = true) (w : ω) (v : Event ω) :
    (e.after w v).1.ending = e.ending ∧ (e.after w v).1.loop = e.loop ∧
      (e.after w v).2 = v.outer w := by
  have finished : e.ending ≠ none := by simpa [ended, Option.isSome_iff_ne_none] using past
  have still : e.after w .statement = (e, w) := by
    change e.advance w = (e, w)
    rw [advance, past, Bool.true_or, if_pos rfl]
  rcases e.after_cases w v with ⟨other, changed⟩ | ⟨rfl, -⟩
  · have outer := (e.after_network w v).resolve_right fun sent => other sent.1
    rw [outer]
    generalize (e.after w v).1 = e' at changed
    rcases changed with asks | rouses
    · cases asks with
      | same | stop => exact ⟨rfl, rfl, rfl⟩
      | issue live => exact absurd live finished
    · cases rouses with
      | same => exact ⟨rfl, rfl, rfl⟩
      | ends rest | wakes _ rest => exact absurd (e.resting_iff.mp rest).1 finished
  · rw [still]
    exact ⟨rfl, rfl, rfl⟩

end Engine

end QuorumLab
