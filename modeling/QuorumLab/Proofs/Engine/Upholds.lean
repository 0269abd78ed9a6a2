import QuorumLab.Proofs.Engine.Steps

/-!
# What a driver keeps up

A contract says what a protocol may hand out in a round and after it. A driver upholds a
property if it holds between rounds and every round that the contract allows is worked off
such that it holds again. What is upheld is then true in every run: however calls,
messages, ticks and changes of the network are ordered, and however the engine ends.
-/

namespace QuorumLab

/-- What the protocol is assumed to hand out, given a record of what it has handed out. -/
structure Contract (κ μ γ : Type) where
  round : γ → Driver κ μ → Ready → Prop
  noteRound : γ → Ready → γ
  followup : γ → Driver κ μ → Followup → Prop
  noteFollowup : γ → Followup → γ

section Runs

variable {κ μ ω γ : Type} [Core κ] [Machine μ] [Carrier ω]

namespace Contract

variable (C : Contract κ μ γ)

/-- What the protocol hands out for the next statement is allowed. -/
def Admits (g : γ) (e : Engine κ μ) : Event ω → Prop
  | .statement => (∀ r ∈ e.round?, C.round g e.driver r) ∧
      ∀ f ∈ e.followup?, C.followup g e.driver f
  | _ => True

/-- The record with what the protocol hands out for the next statement. -/
def note (g : γ) (e : Engine κ μ) : Event ω → γ
  | .statement => match e.round?, e.followup? with
    | some r, _ => C.noteRound g r
    | none, some f => C.noteFollowup g f
    | none, none => g
  | _ => g

/-- Runs in which the contract is kept. -/
def system (ω : Type) [Carrier ω] : System (Moment κ μ ω γ) (Event ω) where
  admits m v := C.Admits m.record m.engine v
  after m v := m.next v (C.note m.record m.engine v)

instance decidableAdmits [∀ g d r, Decidable (C.round g d r)]
    [∀ g d f, Decidable (C.followup g d f)] (g : γ) (e : Engine κ μ) :
    ∀ v : Event ω, Decidable (C.Admits g e v)
  | .statement => inferInstanceAs (Decidable ((∀ r ∈ e.round?, C.round g e.driver r) ∧
      ∀ f ∈ e.followup?, C.followup g e.driver f))
  | .apply _ | .snapshot | .membership | .requestStop | .command _ _ | .wake _ _ | .abandon
  | .network _ => isTrue trivial

instance [∀ g d r, Decidable (C.round g d r)] [∀ g d f, Decidable (C.followup g d f)]
    (m : Moment κ μ ω γ) (v : Event ω) : Decidable ((C.system ω).admits m v) :=
  C.decidableAdmits m.record m.engine v

variable {C}

omit [Machine μ] [Carrier ω] in
theorem note_of_ne_statement {g : γ} {e : Engine κ μ} {v : Event ω} (other : v ≠ .statement) :
    C.note g e v = g := by
  cases v with
  | statement => exact absurd rfl other
  | _ => rfl

omit [Machine μ] [Carrier ω] in
/-- Only turning to the next stage adds to the record. -/
theorem note_of_todo {g : γ} {e : Engine κ μ} {a : Act} {rest : List Act}
    (todo : e.loop.todo = a :: rest) : C.note g e (.statement : Event ω) = g := by
  simp [note, Engine.round?, Engine.followup?, todo]

end Contract

/-- Between rounds `Q` holds, at a failure `S`, and `A` always: every way to go on is
secured, as long as the contract is kept. -/
structure Upholds (ω : Type) [Carrier ω] (C : Contract κ μ γ) (A S : Driver κ μ → Prop)
    (Q : γ → Driver κ μ → Prop) : Prop where
  always : ∀ {g d}, Q g d → A d
  atStop : ∀ {g d}, Q g d → S d
  alike : ∀ {g d d'}, d.Alike d' → Q g d → Q g d'
  alike_always : ∀ {d d'}, d.Alike d' → A d → A d'
  alike_atStop : ∀ {d d'}, d.Alike d' → S d → S d'
  snapshot : ∀ {g d}, Q g d → Q g d.takeSnapshot.2
  round : ∀ {g d r} core, Q g d → C.round g d r →
    Secures ω A S (Q (C.noteRound g r)) r.acts { d with core }
  followup : ∀ {g d f} core, Q g d → C.followup g d f →
    Secures ω A S (Q (C.noteFollowup g f)) f.acts { d with core }

/-- What an engine has kept up so far: `Q` once what it is at is done, `S` if it has returned. -/
structure Upheld (ω : Type) [Carrier ω] (A S Q : Driver κ μ → Prop) (e : Engine κ μ) :
    Prop where
  always : A e.driver
  running : e.ended = false → Secures ω A S Q e.loop.todo e.driver
  returned : ∀ r, e.ending = some (.returned r) → S e.driver

namespace Upheld

variable {A S Q : Driver κ μ → Prop}

/-- An engine that has just been started has nothing under way. -/
theorem boot {id : Nat} {settings : Settings} {core : κ} {machine : μ} {shelf : Shelf}
    {peers : Directory} {now : Nat}
    (always : A (Engine.driverOf settings core machine shelf peers now))
    (h : Q (Engine.driverOf settings core machine shelf peers now)) :
    Upheld ω A S Q (Engine.boot id settings core machine shelf peers now) where
  always := always
  running := fun _ => ⟨always, h⟩
  returned := fun r ended => by cases ended

theorem at_rest {e : Engine κ μ} (h : Upheld ω A S Q e) (rest : e.resting = true) :
    Q e.driver := by
  obtain ⟨live, -, idle⟩ := e.resting_iff.mp rest
  have secured := h.running (by simp [Engine.ended, live])
  rw [idle] at secured
  exact secured.2

end Upheld

namespace Upholds

variable {C : Contract κ μ γ} {A S : Driver κ μ → Prop} {Q : γ → Driver κ μ → Prop}
variable {g : γ} {d : Driver κ μ} {e e' : Engine κ μ}

theorem policy (up : Upholds ω C A S Q) (now later : Nat) (h : Q g d) :
    Q g (d.checkPolicy now later) := by
  have checked : Q g { d with lastCheck := later } :=
    up.alike (d := d) ⟨rfl, rfl, rfl, rfl, rfl⟩ h
  rcases d.checkPolicy_cases now later with early | noted | taken
  · rw [early]
    exact h
  · rw [noted]
    exact checked
  · rw [taken]
    exact up.snapshot checked

theorem handle (up : Upholds ω C A S Q) {c : Command} {d' : Driver κ μ} (h : Q g d)
    (done : d.handle c = .ok d') : Q g d' := by
  cases c with
  | propose ticket data => exact up.alike (Driver.alike_propose done) h
  | snapshot ticket =>
    cases done
    exact up.alike (Driver.alike_answer _ _ _) (up.snapshot h)
  | membership ticket =>
    cases done
    exact up.alike (Driver.alike_answer _ _ _) h
  | stop => cases done; exact h

/-- Before a round is asked for, no statement breaks what holds between rounds. -/
theorem opening (up : Upholds ω C A S Q) (cause : Option Command) (inbox : List Message)
    (t : Readings) (h : Q g d) :
    Secures ω A S (Q g) ((cause.map Act.handle).toList ++ inbox.map .receive ++
      [.tick t.due t.ticked, .policy t.checked t.noted]) d := by
  have rest : ∀ d, Q g d → Secures ω A S (Q g)
      (inbox.map .receive ++ [.tick t.due t.ticked] ++ [.policy t.checked t.noted]) d := by
    intro d h
    apply secures_quiet
    · intro a ha
      rcases List.mem_append.mp ha with ha | ha
      · obtain ⟨m, _, rfl⟩ := List.mem_map.mp ha
        trivial
      · obtain rfl := List.mem_singleton.mp ha
        trivial
    · exact fun d' k => up.always (up.alike k h)
    · intro d' k
      have h' := up.alike k h
      refine ⟨up.always h', ?_⟩
      intro w
      constructor
      · intro d'' w' done
        cases done
        have checked := up.policy t.checked t.noted h'
        exact ⟨up.always checked, checked⟩
      · intro _ _ _ stop
        cases stop
  cases cause with
  | none => simpa using rest d h
  | some c =>
    refine ⟨up.always h, ?_⟩
    intro w
    constructor
    · intro d' w' done
      obtain ⟨_, hh, he⟩ := Effect.map_ofFault_done done
      cases he
      simpa using rest _ (up.handle h hh)
    · intro _ _ _ stop
      exact absurd stop Effect.map_ofFault_not_stopped

theorem coda (up : Upholds ω C A S Q) (h : Q g d) : Secures ω A S (Q g) Loop.coda d := by
  have quiet : ∀ a ∈ Loop.coda, a.Quiet := by
    intro a ha
    simp only [Loop.coda, List.mem_cons, List.not_mem_nil, or_false] at ha
    rcases ha with rfl | rfl <;> trivial
  have done : Secures ω A S (Q g) (Loop.coda ++ []) d :=
    secures_quiet quiet (fun _ k => up.always (up.alike k h))
      fun _ k => ⟨up.always (up.alike k h), up.alike k h⟩
  exact done

/-- What is to do in the next stage is secured if the last one ended well. -/
theorem turn (up : Upholds ω C A S Q) {e : Engine κ μ} {l : Loop κ μ} (live : e.ending = none)
    (todo : e.loop.todo = []) (h : Q g e.driver) (busy : e.loop.stage ≠ .closing)
    (admitted : C.Admits g e (.statement : Event ω)) (done : e.loop.turn = .done l) :
    Secures ω A S (Q (C.note g e (.statement : Event ω))) l.todo l.driver := by
  obtain ⟨rounds, followups⟩ := admitted
  obtain ⟨core, driver, next⟩ := Engine.turn_cases live todo busy done
  rw [driver]
  have h' : Q g { e.driver with core } := up.alike (d := e.driver) ⟨rfl, rfl, rfl, rfl, rfl⟩ h
  rcases next with ⟨round, followup, acts, -⟩ | ⟨r, round, -, acts, -⟩ |
    ⟨f, round, followup, acts, -⟩
  · have same : C.note g e (.statement : Event ω) = g := by simp [Contract.note, round, followup]
    rw [acts, same]
    exact up.coda h'
  · have noted : C.note g e (.statement : Event ω) = C.noteRound g r := by
      simp [Contract.note, round]
    rw [acts, noted]
    exact up.round core h (rounds r round)
  · have noted : C.note g e (.statement : Event ω) = C.noteFollowup g f := by
      simp [Contract.note, round, followup]
    rw [acts, noted]
    exact (up.followup core h (followups f followup)).trans fun _ => up.coda

theorem finish (up : Upholds ω C A S Q) (e : Engine κ μ) (ending : Ending)
    (always : A e.driver) (returned : ∀ r, ending = .returned r → S e.driver) :
    Upheld ω A S (Q g) (e.finish ending) where
  always := up.alike_always (e.alike_finish ending).1 always
  running := fun h => by cases h
  returned := fun r h => up.alike_atStop (e.alike_finish ending).1 (returned r (Option.some.inj h))

/-- What a handle or the network does leaves an engine upheld. -/
theorem asked (h : Upheld ω A S (Q g) e) (asks : e.Asks e') : Upheld ω A S (Q g) e' := by
  cases asks with
  | same => exact h
  | issue => exact ⟨h.always, h.running, h.returned⟩
  | stop => exact ⟨h.always, h.running, h.returned⟩

theorem roused (up : Upholds ω C A S Q) (h : Upheld ω A S (Q g) e) (rouses : e.Rouses e') :
    Upheld ω A S (Q g) e' := by
  cases rouses with
  | same => exact h
  | @ends queue rest _ =>
    exact up.finish { e with queue } _ h.always fun _ _ => up.atStop (h.at_rest rest)
  | wakes cause rest _ =>
    exact ⟨h.always, fun _ => up.opening cause _ _ (h.at_rest rest), h.returned⟩

/-- One event leaves an engine upheld. -/
theorem after (up : Upholds ω C A S Q) {w : ω} {v : Event ω} (h : Upheld ω A S (Q g) e)
    (admitted : C.Admits g e v) : Upheld ω A S (Q (C.note g e v)) (e.after w v).1 := by
  rcases e.after_cases w v with ⟨other, asks | rouses⟩ | ⟨rfl, step⟩
  · rw [Contract.note_of_ne_statement other]
    exact asked h asks
  · rw [Contract.note_of_ne_statement other]
    exact up.roused h rouses
  · generalize (e.after w .statement).1 = e' at step
    cases step with
    | still round followup _ =>
      have same : C.note g e (.statement : Event ω) = g := by
        simp [Contract.note, round, followup]
      rw [same]
      exact h
    | did live todo done =>
      have secured := h.running (by simp [Engine.ended, live])
      rw [todo] at secured
      have next := (secured.2 w).1 _ _ done
      rw [Contract.note_of_todo todo]
      refine ⟨next.always, fun _ => next, ?_⟩
      intro r returned
      rw [live] at returned
      cases returned
    | turned live todo busy turn =>
      have secured := h.running (by simp [Engine.ended, live])
      rw [todo] at secured
      have next := up.turn live todo secured.2 busy admitted turn
      refine ⟨next.always, fun _ => next, ?_⟩
      intro r returned
      rw [live] at returned
      cases returned
    | stopped live todo stop =>
      have secured := h.running (by simp [Engine.ended, live])
      rw [todo] at secured
      obtain ⟨always, atStop⟩ := (secured.2 w).2 _ _ _ stop
      exact up.finish _ _ always fun _ _ => atStop
    | crashed live => exact up.finish e (.crashed _) h.always fun _ returned => by cases returned

/-- What an engine upholds is true in every run. -/
theorem reachable (up : Upholds ω C A S Q) {m₀ m : Moment κ μ ω γ}
    (start : Upheld ω A S (Q m₀.record) m₀.engine) (run : Reachable (C.system ω) m₀ m) :
    Upheld ω A S (Q m.record) m.engine :=
  run.invariant (P := fun m => Upheld ω A S (Q m.record) m.engine) start
    fun {m v} h admitted => up.after (e := m.engine) (w := m.network) (v := v) h admitted

end Upholds

end Runs

end QuorumLab
