import QuorumLab.Proofs.Cluster.Turns

/-!
# What goes on meanwhile

Whoever does one thing after the other with running engines is not alone with them. Between any
two of his steps handles are used, drivers go on and end, the network changes and time passes.
-/

namespace QuorumLab

/-! ## One engine -/

namespace Engine

variable {κ μ ω : Type} [Core κ] [Machine μ] [Carrier ω] {e : Engine κ μ}

theorem id_after (e : Engine κ μ) (w : ω) (v : Event ω) : (e.after w v).1.id = e.id := by
  rcases e.after_cases w v with ⟨-, asks | rouses⟩ | ⟨rfl, advances⟩
  · generalize (e.after w v).1 = e' at asks
    cases asks <;> rfl
  · generalize (e.after w v).1 = e' at rouses
    cases rouses <;> rfl
  · generalize (e.after w .statement).1 = e' at advances
    cases advances <;> rfl

/-- Nobody takes back that the end of a driver was asked for. -/
theorem claimed_after_of_claimed (claimed : e.claimed = true) (w : ω) (v : Event ω) :
    (e.after w v).1.claimed = true := by
  by_cases stop : v = .requestStop
  · subst stop
    exact e.requestStop_spec.2.1
  · rw [e.claimed_after w stop]
    exact claimed

/-- What can have become of an engine that was running at some time. -/
inductive Lived : Engine κ μ → Prop
  | running {e : Engine κ μ} (live : e.ending = none) : Lived e
  | after {ω : Type} [Carrier ω] {e : Engine κ μ} (before : Lived e) (w : ω) (v : Event ω) :
      Lived (e.after w v).1

theorem Lived.plays (lived : e.Lived) (w : ω) (vs : List (Event ω)) :
    (Engine.plays (e, w) vs).1.Lived := by
  induction vs generalizing e w with
  | nil => exact lived
  | cons v vs ih => exact ih (lived.after w v) _

/-- A driver that ends says so. -/
theorem state_after (said : e.ended = true → e.published.state = .shutdown) (w : ω)
    (v : Event ω) (past : (e.after w v).1.ended = true) :
    (e.after w v).1.published.state = .shutdown := by
  have finish : ∀ (e : Engine κ μ) (ending : Ending),
      (e.finish ending).published.state = .shutdown := by
    intro e ending
    rw [published_finish]
  rcases e.after_cases w v with ⟨-, asks | rouses⟩ | ⟨rfl, advances⟩
  · generalize (e.after w v).1 = e' at asks past
    cases asks <;> exact said past
  · generalize (e.after w v).1 = e' at rouses past
    cases rouses with
    | same => exact said past
    | ends => exact finish _ _
    | wakes => exact said past
  · generalize (e.after w .statement).1 = e' at advances past
    cases advances with
    | still => exact said past
    | stopped | crashed => exact finish _ _
    | did live | turned live =>
      rw [ended] at past
      simp [live] at past

theorem Lived.state_of_ended (lived : e.Lived) (past : e.ended = true) :
    e.published.state = .shutdown := by
  induction lived with
  | running live => simp [ended, live] at past
  | after before w v ih => exact state_after ih w v past

/-- The driver has ended, or will when it has worked off its commands. -/
def Leaving (e : Engine κ μ) : Prop := e.ended = true ∨ .stop ∈ e.queue

omit [Core κ] [Machine μ] in
/-- Who is the first to ask gets what he asks for. -/
theorem leaving_requestStop (unclaimed : e.claimed = false) : e.requestStop.2.Leaving := by
  by_cases past : e.ended = true
  · left
    rw [ended, e.requestStop_spec.2.2.1]
    exact past
  · right
    simp [requestStop, unclaimed, past]

theorem Leaving.after (leaving : e.Leaving) (w : ω) (v : Event ω) : (e.after w v).1.Leaving := by
  rcases leaving with past | queued
  · exact Or.inl (ended_after past w v)
  have asked : v.Outside → (e.after w v).1.Leaving := by
    intro outside
    have asks := e.asks w outside
    generalize (e.after w v).1 = e' at asks
    cases asks with
    | same => exact Or.inr queued
    | issue => exact Or.inr (List.mem_append_left _ queued)
    | stop added =>
      rcases added with rfl | rfl
      · exact Or.inr queued
      · exact Or.inr (List.mem_append_left _ queued)
  cases v with
  | apply | snapshot | membership | requestStop | network => exact asked trivial
  | command inbox t =>
    change (if e.resting then e.take inbox t else e).Leaving
    split
    · rw [take]
      split
      · exact Or.inr queued
      · exact Or.inl rfl
      · rename_i c rest other next
        rw [next] at queued
        exact Or.inr ((List.mem_cons.mp queued).resolve_left fun stop => other stop.symm)
    · exact Or.inr queued
  | wake inbox t =>
    change (if e.resting then ({ e with loop := _ } : Engine κ μ) else e).Leaving
    split <;> exact Or.inr queued
  | abandon =>
    change (if e.resting && e.queue.isEmpty then e.finish (.returned (.ok ())) else e).Leaving
    split
    · exact Or.inl rfl
    · exact Or.inr queued
  | statement =>
    change (e.advance w).1.Leaving
    have advances := e.advances w
    generalize (e.advance w).1 = e' at advances
    cases advances with
    | still | did | turned => exact Or.inr queued
    | stopped | crashed => exact Or.inl rfl

/-- The failure that a driver which has ended leaves to who waits for it. -/
def failure? (e : Engine κ μ) : Option Failure :=
  match e.ending with
  | some (.returned (.error f)) => some f
  | some (.crashed _) => some (.panicked e.id)
  | _ => none

/-- What waiting comes to. -/
def toResult : Option Failure → Except Failure Unit
  | some f => .error f
  | none => .ok ()

omit [Core κ] [Machine μ] in
theorem result?_eq (e : Engine κ μ) : e.result?.getD (.ok ()) = toResult e.failure? := by
  rw [result?, failure?]
  rcases e.ending with _ | (⟨_ | _⟩ | _) <;> rfl

theorem failure?_after (past : e.ended = true) (w : ω) (v : Event ω) :
    (e.after w v).1.failure? = e.failure? := by
  rw [failure?, failure?, (after_of_ended past w v).1, id_after]

end Engine

/-! ## All engines -/

namespace Live

/-- Something happens to one engine, which finds the network as it may be by then, or to the
network, or time passes. -/
inductive Move (ω : Type) where
  | engine (i : Nat) (w : ω) (v : Event ω)
  | fabric (f : Fabric)
  | clock (now : Nat)

namespace Move

/-- Nobody asks engine `i` to end. -/
def Spares {ω : Type} (i : Nat) : Move ω → Prop
  | engine j _ v => j = i → v ≠ .requestStop
  | fabric _ | clock _ => True

variable {μ ω : Type} [Machine μ] [Carrier ω]

/-- What becomes of the engine `e` of node `i`. -/
def act (m : Move ω) (i : Nat) (e : Engine Replica μ) : Engine Replica μ :=
  match m with
  | engine j w v => if i = j then (e.after w v).1 else e
  | fabric _ | clock _ => e

/-- What every event keeps, every move keeps. -/
theorem act_keeps {P : Engine Replica μ → Prop} {e : Engine Replica μ} (holds : P e)
    (keeps : ∀ (w : ω) (v : Event ω), P e → P (e.after w v).1) (m : Move ω) (i : Nat) :
    P (m.act i e) := by
  cases m with
  | engine j w v =>
    rw [act]
    split
    · exact keeps w v holds
    · exact holds
  | fabric | clock => exact holds

end Move

variable {μ ω : Type} [Machine μ] [Carrier ω] {l : Live μ} {i j : Nat} {e : Engine Replica μ}

def moved (l : Live μ) : Move ω → Live μ
  | .engine i w v =>
    match l.engine? i with
    | none => l
    | some e => l.setEngine i (e.after w v).1
  | .fabric f => l.setFabric f
  | .clock now => { l with clock := now }

def moves (l : Live μ) (ms : List (Move ω)) : Live μ := ms.foldl moved l

omit [Machine μ] [Carrier ω] in
theorem mem_of_engine? (here : l.engine? i = some e) : (i, e) ∈ l.engines := by
  obtain ⟨before, behind, split, -⟩ := List.lookup_eq_some_iff.mp here
  rw [split]
  exact List.mem_append_right _ List.mem_cons_self

omit [Machine μ] [Carrier ω] in
/-- One more engine. -/
theorem engine?_add (new : i ∉ l.engines.map Prod.fst) (e : Engine Replica μ) (j : Nat) :
    ({ l with engines := l.engines ++ [(i, e)] } : Live μ).engine? j =
      if j = i then some e else l.engine? j := by
  change List.lookup j (l.engines ++ [(i, e)]) = _
  rw [List.lookup_append]
  by_cases same : j = i
  · subst same
    have unknown : l.engines.lookup j = none := by
      rw [List.lookup_eq_none_iff]
      intro x hx
      have differ : j ≠ x.1 := fun same => new (same ▸ List.mem_map_of_mem hx)
      simpa using differ
    simp [unknown]
  · have differ : (j == i) = false := by simpa using same
    simp [engine?, List.lookup_cons, differ, same]

omit [Machine μ] [Carrier ω] in
theorem exists_engine_iff : (∃ e, l.engine? i = some e) ↔ i ∈ l.engines.map Prod.fst := by
  constructor
  · rintro ⟨e, here⟩
    exact index_mem_of_engine? here
  · intro listed
    rw [← Option.isSome_iff_exists, engine?, List.lookup_isSome_iff]
    simpa using listed

theorem engine?_moved (l : Live μ) (m : Move ω) (i : Nat) :
    (l.moved m).engine? i = (l.engine? i).map (m.act i) := by
  cases m with
  | engine j w v =>
    have others (other : i ≠ j) (x : Option (Engine Replica μ)) :
        x = x.map ((Move.engine j w v).act i) := by
      have still : (Move.engine j w v).act (μ := μ) i = id := by
        funext e
        simp [Move.act, other]
      rw [still, Option.map_id, id]
    rw [moved]
    cases here : l.engine? j with
    | none =>
      by_cases same : i = j
      · subst same
        rw [here]
        rfl
      · exact others same _
    | some e =>
      refine (engine?_setEngine _ _ _ _).trans ?_
      by_cases same : i = j
      · subst same
        simp [Move.act, here]
      · rw [if_neg same]
        exact others same _
  | fabric f => exact (congrFun Option.map_id _).symm
  | clock now => exact (congrFun Option.map_id _).symm

theorem indexes_moved (l : Live μ) (m : Move ω) :
    (l.moved m).engines.map Prod.fst = l.engines.map Prod.fst := by
  cases m with
  | engine j w v =>
    rw [moved]
    split
    · rfl
    · exact l.indexes_setEngine _ _
  | fabric | clock => rfl

/-- What moves do not reach: all but engines, network and clock. -/
theorem rest_moved (l : Live μ) (m : Move ω) :
    (l.moved m).cluster.nodes = l.cluster.nodes ∧ (l.moved m).machines = l.machines ∧
      (l.moved m).serial = l.serial := by
  cases m with
  | engine j w v =>
    rw [moved]
    split <;> exact ⟨rfl, rfl, rfl⟩
  | fabric | clock => exact ⟨rfl, rfl, rfl⟩

theorem indexes_moves (l : Live μ) (ms : List (Move ω)) :
    (l.moves ms).engines.map Prod.fst = l.engines.map Prod.fst := by
  induction ms generalizing l with
  | nil => rfl
  | cons m ms ih => exact (ih (l.moved m)).trans (l.indexes_moved m)

theorem rest_moves (l : Live μ) (ms : List (Move ω)) :
    (l.moves ms).cluster.nodes = l.cluster.nodes ∧ (l.moves ms).machines = l.machines ∧
      (l.moves ms).serial = l.serial := by
  induction ms generalizing l with
  | nil => exact ⟨rfl, rfl, rfl⟩
  | cons m ms ih =>
    obtain ⟨nodes, machines, serial⟩ := l.rest_moved m
    obtain ⟨nodes', machines', serial'⟩ := ih (l.moved m)
    exact ⟨nodes'.trans nodes, machines'.trans machines, serial'.trans serial⟩

/-- What every event keeps of an engine holds of it after any moves. -/
theorem engine?_moves_keeps {P : Engine Replica μ → Prop}
    (keeps : ∀ {e : Engine Replica μ} (w : ω) (v : Event ω), P e → P (e.after w v).1)
    (holds : ∀ e ∈ l.engine? i, P e) (ms : List (Move ω)) :
    ∀ e ∈ (l.moves ms).engine? i, P e := by
  induction ms generalizing l with
  | nil => exact holds
  | cons m ms ih =>
    refine ih (l := l.moved m) ?_
    intro e' there
    rw [engine?_moved] at there
    obtain ⟨e, here, rfl⟩ := Option.map_eq_some_iff.mp there
    exact m.act_keeps (holds e here) keeps i

end Live

/-! ## Turns are moves -/

namespace Session

variable {μ : Type} [Machine μ] {s : Session μ}

/-- What happens to engines of a session is moves. -/
theorem live_play_inward {vs : List Event} (inward : ∀ v ∈ vs, v.Inward) :
    ∃ ms : List (Live.Move Station), (∀ m ∈ ms, ∀ i, m.Spares i) ∧
      ((sessions μ).play s vs).live = s.live.moves ms := by
  induction vs generalizing s with
  | nil => exact ⟨[], nofun, rfl⟩
  | cons v vs ih =>
    have first := inward v List.mem_cons_self
    obtain ⟨ms, spares, played⟩ := ih (s := s.after v) fun u hu => inward u (List.mem_cons_of_mem v hu)
    cases v with
    | engine i u =>
      have spared : ∀ w : Station, ∀ j, (Live.Move.engine i w u).Spares j := fun _ _ _ => first
      cases here : s.live.engine? i with
      | none =>
        have same : s.after (.engine i u) = s := by simp only [after, here]
        rw [same] at played
        exact ⟨ms, spares, (congrArg (fun s => ((sessions μ).play s vs).live) same).trans played⟩
      | some e =>
        let w := s.live.station i
        refine ⟨.engine i w u :: .fabric (e.after w u).2.fabric :: ms, ?_, ?_⟩
        · exact List.forall_mem_cons.mpr
            ⟨spared w, List.forall_mem_cons.mpr ⟨fun _ => trivial, spares⟩⟩
        · refine played.trans ?_
          simp only [after, here, Live.moves, List.foldl_cons, Live.moved]
          rfl
    | clock now =>
      exact ⟨.clock now :: ms, List.forall_mem_cons.mpr ⟨fun _ => trivial, spares⟩, played⟩
    | close | proceed => exact absurd first not_false

end Session

namespace Live

variable {μ : Type} [Machine μ]

/-- An engine that works off its commands is moves. -/
theorem obey_moves (l : Live μ) (i : Nat) : ∃ ms : List (Move Station),
    (∀ m ∈ ms, ∀ j, m.Spares j) ∧ l.obey i = l.moves ms ∧
    (∀ j ≠ i, (l.obey i).engine? j = l.engine? j) ∧
    ∀ n, (Machine.Prompt μ ∨ n ≤ 1) → l.Stopping n i →
      ∀ e ∈ (l.obey i).engine? i, e.ended = true := by
  obtain ⟨vs, inward, played, others, gone⟩ := ({ live := l } : Session μ).play_obey i
  obtain ⟨ms, spares, moved⟩ := Session.live_play_inward (s := { live := l }) inward
  rw [played] at moved
  exact ⟨ms, spares, moved, others, gone⟩

end Live

/-! ## Threads -/

/-- Somebody who does one thing after the other with running engines, and waits at times. -/
structure Thread (μ τ : Type) where
  ready : Live μ → τ → Prop
  step : Live μ → τ → Live μ × τ

/-- All orders of what a thread does, which is `none`, and of moves. -/
def Thread.amid {μ τ : Type} [Machine μ] (T : Thread μ τ) (ω : Type) [Carrier ω] :
    System (Live μ × τ) (Option (Live.Move ω)) where
  admits s
    | none => T.ready s.1 s.2
    | some _ => True
  after s
    | none => T.step s.1 s.2
    | some m => (s.1.moved m, s.2)

namespace Thread

variable {μ τ : Type} [Machine μ] {T : Thread μ τ} {s s' s'' : Live μ × τ}

/-- The thread can come from `s` to `s'` while nobody asks an engine to end. -/
def Reaches (T : Thread μ τ) (s s' : Live μ × τ) : Prop :=
  ∃ vs : List (Option (Live.Move Station)), (∀ v ∈ vs, ∀ m ∈ v, ∀ i, m.Spares i) ∧
    (T.amid Station).AdmitsAll s vs ∧ (T.amid Station).play s vs = s'

namespace Reaches

theorem refl : T.Reaches s s := ⟨[], List.forall_mem_nil _, trivial, rfl⟩

theorem trans (first : T.Reaches s s') (rest : T.Reaches s' s'') : T.Reaches s s'' := by
  obtain ⟨vs, spares, admitted, rfl⟩ := first
  obtain ⟨us, spares', admitted', played⟩ := rest
  exact ⟨vs ++ us, List.forall_mem_append.mpr ⟨spares, spares'⟩,
    System.admitsAll_append.mpr ⟨admitted, admitted'⟩, (System.play_append vs us).trans played⟩

/-- One step of the thread itself. -/
theorem own (ready : T.ready s.1 s.2) (next : T.step s.1 s.2 = s') : T.Reaches s s' :=
  ⟨[none], by simp, ⟨ready, trivial⟩, next⟩

/-- Moves alone leave the thread where it is. -/
theorem moves (ms : List (Live.Move Station)) (spares : ∀ m ∈ ms, ∀ i, m.Spares i) :
    T.Reaches s (s.1.moves ms, s.2) := by
  induction ms generalizing s with
  | nil => exact refl
  | cons m ms ih =>
    obtain ⟨first, rest⟩ := List.forall_mem_cons.mp spares
    have moved : T.Reaches s (s.1.moved m, s.2) :=
      ⟨[some m], by simpa using first, ⟨trivial, trivial⟩, rfl⟩
    exact moved.trans (ih rest)

end Reaches

end Thread

end QuorumLab
