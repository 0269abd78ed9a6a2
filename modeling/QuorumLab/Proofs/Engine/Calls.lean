import QuorumLab.Proofs.Engine.Steps

/-!
# The calls of a protocol

A driver changes the state of its protocol by calling one of its operations, and in no other way.
So a protocol that counts the calls of one operation counts what the driver does with it, wherever
the driver does it.
-/

namespace QuorumLab

/-- The operations that change a protocol. -/
inductive Operation where
  | step | tick | propose | reportUnreachable | reportSnapshot | ready | advance | advanceApplied
  deriving Repr, DecidableEq

namespace Core

variable {κ : Type} [Core κ]

/-- A call that the protocol survives takes it from `c` to `c'`. -/
inductive Call : Operation → κ → κ → Prop
  | step {s m r c c'} (called : Core.step s m c = .ok (r, c')) : Call .step c c'
  | tick {s c c'} (called : Core.tick s c = .ok c') : Call .tick c c'
  | propose {s x y r c c'} (called : Core.propose s x y c = .ok (r, c')) : Call .propose c c'
  | reportUnreachable {s n c c'} (called : Core.reportUnreachable s n c = .ok c') :
      Call .reportUnreachable c c'
  | reportSnapshot {s n b c c'} (called : Core.reportSnapshot s n b c = .ok c') :
      Call .reportSnapshot c c'
  | ready {s r c c'} (called : Core.ready s c = .ok (some (r, c'))) : Call .ready c c'
  | advance {s f c c'} (called : Core.advance s c = .ok (f, c')) : Call .advance c c'
  | advanceApplied {c c'} (called : Core.advanceApplied c = .ok c') : Call .advanceApplied c c'

/-- Some calls one after the other. -/
inductive Calls : List Operation → κ → κ → Prop
  | none {c} : Calls [] c c
  | more {op ops c c₁ c'} (first : Call op c c₁) (rest : Calls ops c₁ c') : Calls (op :: ops) c c'

/-- `calls` rises by one with every call of `op`, and with no other. -/
structure Counts (op : Operation) (calls : κ → Nat) : Prop where
  own : ∀ {c c'}, Call op c c' → calls c' = calls c + 1
  other : ∀ {o c c'}, Call o c c' → o ≠ op → calls c' = calls c

variable {op : Operation} {ops : List Operation} {c c' : κ} {calls : κ → Nat}

theorem Calls.one (call : Call op c c') : Calls [op] c c' := .more call .none

theorem Counts.run (h : Counts op calls) (run : Calls ops c c') :
    calls c' = calls c + ops.count op := by
  induction run with
  | none => rfl
  | @more o ops c c₁ c' first rest ih =>
    by_cases own : o = op
    · subst own
      rw [ih, h.own first, List.count_cons_self]
      omega
    · rw [ih, h.other first own, List.count_cons_of_ne own]

theorem Counts.unchanged (h : Counts op calls) (run : Calls ops c c') (without : op ∉ ops) :
    calls c' = calls c := by
  rw [h.run run, List.count_eq_zero_of_not_mem without, Nat.add_zero]

end Core

/-- A protocol with the calls it was given, the last one first. -/
structure Counted (κ : Type) where
  core : κ
  calls : List Operation := []
  deriving Repr

namespace Counted

variable {κ : Type}

def called (c : Counted κ) (op : Operation) (core : κ) : Counted κ :=
  { core, calls := op :: c.calls }

variable [Core κ]

instance : Core (Counted κ) where
  role c := Core.role c.core
  term c := Core.term c.core
  leader c := Core.leader c.core
  lastIndex c := Core.lastIndex c.core
  step s m c := (Core.step s m c.core).map fun (r, core) => (r, c.called .step core)
  tick s c := (Core.tick s c.core).map (c.called .tick)
  propose s x y c := (Core.propose s x y c.core).map fun (r, core) => (r, c.called .propose core)
  reportUnreachable s n c := (Core.reportUnreachable s n c.core).map (c.called .reportUnreachable)
  reportSnapshot s n b c := (Core.reportSnapshot s n b c.core).map (c.called .reportSnapshot)
  ready s c := (Core.ready s c.core).map (·.map fun (r, core) => (r, c.called .ready core))
  advance s c := (Core.advance s c.core).map fun (f, core) => (f, c.called .advance core)
  advanceApplied c := (Core.advanceApplied c.core).map (c.called .advanceApplied)

theorem calls_of_call {op : Operation} {c c' : Counted κ} (call : Core.Call op c c') :
    c'.calls = op :: c.calls := by
  have map_ok {α β : Type} {x : Except Fault α} {g : α → β} {b : β} (h : x.map g = .ok b) :
      ∃ a, g a = b := by
    cases x with
    | error f => cases h
    | ok a => exact ⟨a, Except.ok.inj h⟩
  cases call with
  | step called | propose called | advance called =>
    obtain ⟨r, same⟩ := map_ok called
    cases same
    rfl
  | ready called =>
    obtain ⟨next, same⟩ := map_ok called
    obtain ⟨r, -, same⟩ := Option.map_eq_some_iff.mp same
    cases same
    rfl
  | tick called | reportUnreachable called | reportSnapshot called | advanceApplied called =>
    obtain ⟨core, same⟩ := map_ok called
    cases same
    rfl

/-- Such a protocol counts the calls of every operation. -/
theorem counts (op : Operation) : Core.Counts op fun c : Counted κ => c.calls.count op where
  own call := by rw [calls_of_call call, List.count_cons_self]
  other call different := by rw [calls_of_call call, List.count_cons_of_ne different]

end Counted

/-! ## The calls of a statement -/

/-- The operations that a statement may call. -/
def Act.calls : Act → List Operation
  | .receive _ => [.step]
  | .handle _ => [.propose]
  | .tick _ _ => [.tick]
  | .send _ => [.reportUnreachable, .reportSnapshot]
  | .settle => [.advanceApplied]
  | _ => []

namespace Driver

variable {κ μ ω : Type} [Core κ] [Machine μ] {d d' : Driver κ μ}

omit [Core κ] [Machine μ] in
theorem core_enlist (d : Driver κ μ) (index : Nat) (p : Proposal) :
    (d.enlist index p).core = d.core := by
  simp only [enlist]
  split <;> rfl

theorem handle_calls {c : Command} (done : d.handle c = .ok d') :
    ∃ ops, Core.Calls ops d.core d'.core ∧ ops.Sublist [.propose] := by
  cases c with
  | propose ticket data =>
    rcases propose_cases done with ⟨-, _, rfl⟩ | ⟨-, _, core, called, rfl⟩ | ⟨-, core, called, rfl⟩
    · exact ⟨[], .none, List.nil_sublist _⟩
    · exact ⟨_, .one (.propose called), .refl _⟩
    · refine ⟨_, ?_, .refl _⟩
      rw [core_enlist]
      exact .one (.propose called)
  | snapshot ticket =>
    obtain ⟨machine, shelf, lastSnapshot, frame⟩ := d.takeSnapshot_frame
    rw [handle_snapshot, frame] at done
    cases done
    exact ⟨[], .none, List.nil_sublist _⟩
  | membership | stop =>
    cases done
    exact ⟨[], .none, List.nil_sublist _⟩

omit [Machine μ] in
theorem send_calls [Carrier ω] {m : Message} {w w' : ω} (done : d.send m w = .ok (d', w')) :
    ∃ ops, Core.Calls ops d.core d'.core ∧
      ops.Sublist [.reportUnreachable, .reportSnapshot] := by
  unfold send at done
  split at done
  · cases done
    exact ⟨[], .none, List.nil_sublist _⟩
  · split at done
    · dsimp only at done
      split at done
      · obtain ⟨core, called, same⟩ := bind_ok done
        cases same
        exact ⟨_, .one (.reportSnapshot called), List.sublist_cons_self _ _⟩
      · cases done
        exact ⟨[], .none, List.nil_sublist _⟩
    · obtain ⟨told, called, done⟩ := bind_ok done
      dsimp only at done
      split at done
      · obtain ⟨core, called', same⟩ := bind_ok done
        cases same
        exact ⟨_, .more (.reportUnreachable called) (.one (.reportSnapshot called')), .refl _⟩
      · cases done
        exact ⟨_, .one (.reportUnreachable called), by simp⟩

/-- A statement calls no operations but its own. -/
theorem perform_calls [Carrier ω] {w w' : ω} {a : Act} (done : d.perform w a = .done (d', w')) :
    ∃ ops, Core.Calls ops d.core d'.core ∧ ops.Sublist a.calls := by
  cases a with
  | receive m =>
    obtain ⟨_, received, same⟩ := Effect.map_ofFault_done done
    cases same
    simp only [receive] at received
    cases called : Core.step d.shelf m d.core with
    | error f => rw [called] at received; cases received
    | ok r =>
      rw [called] at received
      cases received
      exact ⟨_, .one (.step called), .refl _⟩
  | handle c =>
    obtain ⟨_, handled, same⟩ := Effect.map_ofFault_done done
    cases same
    exact handle_calls handled
  | tick now later =>
    obtain ⟨_, ticked, same⟩ := Effect.map_ofFault_done done
    cases same
    by_cases early : now < d.nextTick
    · simp only [tickIfDue, if_pos early] at ticked
      cases ticked
      exact ⟨[], .none, List.nil_sublist _⟩
    · simp only [tickIfDue, if_neg early] at ticked
      cases called : Core.tick d.shelf d.core with
      | error f => rw [called] at ticked; cases ticked
      | ok core =>
        rw [called] at ticked
        cases ticked
        exact ⟨_, .one (.tick called), .refl _⟩
  | send m =>
    cases sent : d.send m w with
    | error f => rw [perform, sent] at done; cases done
    | ok r =>
      rw [perform, sent] at done
      cases done
      exact send_calls sent
  | settle =>
    obtain ⟨core, called, same⟩ := Effect.map_ofFault_done done
    cases same
    exact ⟨_, .one (.advanceApplied called), .refl _⟩
  | apply e =>
    obtain ⟨_, applied, same⟩ := Effect.map_ofApplied_done done
    cases same
    rcases apply_cases applied with ⟨-, rfl⟩ | ⟨-, machine, rfl, -⟩
    · exact ⟨[], .none, .refl _⟩
    · rcases noteApplied_cases { d with machine } e with ⟨-, noted⟩ | ⟨_, _, -, noted, -⟩ <;>
        rw [noted] <;> exact ⟨[], .none, .refl _⟩
  | restore s =>
    obtain ⟨_, restored, same⟩ := Effect.map_ofSetback_done done
    cases same
    obtain ⟨machine, -, rfl⟩ := restore_ok restored
    exact ⟨[], .none, .refl _⟩
  | append batch =>
    obtain ⟨_, appended, same⟩ := Effect.map_ofSetback_done done
    cases same
    rcases append_cases d batch with ⟨log, -, taken⟩ | ⟨_, -, refused⟩
    · cases taken.symm.trans appended
      exact ⟨[], .none, .refl _⟩
    · cases refused.symm.trans appended
  | policy now later =>
    cases done
    obtain ⟨machine, shelf, lastSnapshot, lastCheck, frame⟩ := d.checkPolicy_frame now later
    rw [frame]
    exact ⟨[], .none, .refl _⟩
  | observe =>
    cases done
    rcases d.observeRole_cases with ⟨-, same⟩ | ⟨-, -, same⟩ | ⟨-, -, same⟩ <;> rw [same] <;>
      exact ⟨[], .none, .refl _⟩
  | setHardState | setCommit | publish =>
    cases done
    exact ⟨[], .none, .refl _⟩

theorem perform_uncalled [Carrier ω] {op : Operation} {calls : κ → Nat} {w w' : ω} {a : Act}
    (counts : Core.Counts op calls) (other : op ∉ a.calls)
    (done : d.perform w a = .done (d', w')) : calls d'.core = calls d.core := by
  obtain ⟨ops, run, own⟩ := perform_calls done
  exact counts.unchanged run fun called => other (own.subset called)

/-- Where a statement fails, the protocol has not been called. -/
theorem core_of_stopped [Carrier ω] {w w' : ω} {a : Act} {f : Failure}
    (stop : d.perform w a = .stopped f (d', w')) : d'.core = d.core := by
  obtain ⟨machine, rfl⟩ := left_of_stopped stop
  rfl

end Driver

/-- What a turn to the next stage calls. -/
def Stage.calls : Stage → List Operation
  | .opening => [.ready]
  | .storing => [.advance]
  | .closing => []

theorem Stage.calls_subset (s : Stage) : s.calls ⊆ [.ready, .advance] := by
  cases s <;> simp [Stage.calls]

/-- A turn calls nothing else, and where a round is stored it does call. -/
theorem Loop.turn_calls {κ μ : Type} [Core κ] {l l' : Loop κ μ} (turn : l.turn = .done l') :
    ∃ ops, Core.Calls ops l.driver.core l'.driver.core ∧ ops.Sublist l.stage.calls ∧
      (l.stage = .storing → ops = [.advance]) := by
  cases stage : l.stage with
  | opening =>
    simp only [Loop.turn, stage] at turn
    split at turn
    · cases turn
    · cases turn
      exact ⟨[], .none, List.nil_sublist _, by simp⟩
    · rename_i ready core called
      cases turn
      exact ⟨_, .one (.ready called), .refl _, by simp⟩
  | storing =>
    simp only [Loop.turn, stage] at turn
    split at turn
    · cases turn
    · rename_i followup core called
      cases turn
      exact ⟨_, .one (.advance called), .refl _, fun _ => rfl⟩
  | closing =>
    simp only [Loop.turn, stage] at turn
    cases turn
    exact ⟨[], .none, .refl _, by simp⟩

end QuorumLab
