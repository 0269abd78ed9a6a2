import QuorumLab.Proofs.Cluster.Closing
import QuorumLab.Proofs.Cluster.Membership

/-!
# Turns are runs

Where engines take turns, a cluster goes through one of the orders in which things can happen
to it. So does one that is closed at one go, if no machine holds its engine up: what the end of a
cluster waits for holds of that as well.
-/

namespace QuorumLab

/-- No command holds a machine up. -/
def Machine.Prompt (μ : Type) [Machine μ] : Prop :=
  ∀ (index : Nat) (command : Bytes) (m : μ), Machine.apply index command m ≠ .held

section Prompt

variable {κ μ ω : Type} [Core κ] [Machine μ] [Carrier ω]

theorem Driver.perform_ne_held (prompt : Machine.Prompt μ) (d : Driver κ μ) (w : ω) (a : Act) :
    d.perform w a ≠ .held := by
  intro held
  obtain ⟨x, rfl⟩ := perform_held held
  have applied : d.apply x = .held := by
    cases done : d.apply x with
    | held => rfl
    | done d' => simp [perform, done, Effect.ofApplied, Effect.map] at held
    | fault f => simp [perform, done, Effect.ofApplied, Effect.map] at held
  simp only [apply] at applied
  split at applied
  · cases applied
  · split at applied
    · simp only [Watched.apply] at applied
      cases command : Machine.apply x.index x.data d.machine.machine with
      | held => exact prompt _ _ _ command
      | done m => rw [command] at applied; cases applied
      | fault f => rw [command] at applied; cases applied
    · cases applied

/-- An iteration that no machine holds up is gone through to its end. -/
theorem Loop.run_rest (prompt : Machine.Prompt μ) (l : Loop κ μ) (w : ω) :
    ∀ {l' w' rest}, l.run w = (l', w', rest) → rest ≠ .held ∧ (rest = .idle → l'.idle = true) := by
  fun_induction Loop.run l w with
  | case1 l w a rest todo d w' done ih => exact ih
  | case2 l w a rest todo held => exact absurd held (Driver.perform_ne_held prompt _ _ _)
  | case5 l w todo closing =>
    rintro _ _ _ ⟨⟩
    constructor
    · intro held
      cases held
    · intro _
      simp [Loop.idle, todo, closing]
  | case6 l w todo busy l' turn ih => exact ih
  | case7 l w todo busy turn => exact absurd turn l.turn_not_held.1
  | case8 l w todo busy f l' turn => exact absurd turn (l.turn_not_held.2 f l')
  | case3 | case4 | case9 =>
    rintro _ _ _ ⟨⟩
    constructor <;> intro other <;> cases other

namespace Engine

variable {e : Engine κ μ}

theorem resume_spec (prompt : Machine.Prompt μ) (live : e.ending = none) (w : ω) :
    (e.resume w).1.ended = true ∨
      ((e.resume w).1.resting = true ∧ (e.resume w).1.queue = e.queue) := by
  rcases run : e.loop.run w with ⟨l, w', rest⟩
  obtain ⟨going, idle⟩ := Loop.run_rest prompt e.loop w run
  rw [resume_eq live, run]
  cases rest with
  | idle => exact Or.inr ⟨by simp [settle, resting, ended, live, idle rfl], rfl⟩
  | held => exact absurd rfl going
  | stopped f => exact Or.inl rfl
  | fault f => exact Or.inl rfl

omit [Core κ] [Machine μ] [Carrier ω] in
/-- No machine is in the way of an engine that is to end next. -/
theorem cycle_stop [Core κ] [Machine μ] [Carrier ω] {queue : List Command}
    (next : e.queue = .stop :: queue) (inbox : List Message) (t : Readings) (w : ω) :
    (e.cycle inbox t w).1.ended = true := by
  simp only [cycle, next]
  rfl

/-- An iteration takes the oldest command, or ends the engine. -/
theorem cycle_spec (prompt : Machine.Prompt μ) (rest : e.resting = true) {c : Command}
    {queue : List Command} (next : e.queue = c :: queue) (inbox : List Message) (t : Readings)
    (w : ω) : (e.cycle inbox t w).1.ended = true ∨
      (c ≠ .stop ∧ (e.cycle inbox t w).1.resting = true ∧ (e.cycle inbox t w).1.queue = queue) := by
  have live := (e.resting_iff.mp rest).1
  cases c with
  | stop =>
    simp only [cycle, next]
    exact Or.inl rfl
  | propose | snapshot | membership =>
    simp only [cycle, next]
    refine (resume_spec prompt (e := { e with queue, loop := _ }) live w).imp_right ?_
    rintro ⟨idle, same⟩
    exact ⟨nofun, idle, same⟩

end Engine
end Prompt

namespace Driver

variable {κ μ : Type} [Core κ] [Machine μ] {d d' : Driver κ μ}

/-- A driver stays at its site, and where there were no draws there are none. -/
theorem perform_site {w w' : Station} {a : Act} (done : d.perform w a = .done (d', w')) :
    w'.site = w.site ∧ (w.draws = [] → w'.draws = []) := by
  rcases perform_network done with rfl | ⟨m, rfl⟩
  · exact ⟨rfl, id⟩
  · have sent : d.send m w = .ok (d', w') := by
      cases sent : d.send m w with
      | error f =>
        rw [perform, sent] at done
        cases done
      | ok r =>
        rw [perform, sent] at done
        cases done
        rfl
    cases known : d.addresses.lookup m.target with
    | none =>
      simp only [send, known] at sent
      cases sent
      exact ⟨rfl, id⟩
    | some address =>
      rw [send_carried known sent]
      exact ⟨rfl, fun none => congrArg List.tail none⟩

end Driver

namespace Engine
variable {κ μ : Type} [Core κ] [Machine μ]

/-- What an engine does to the network, it does at its own site, and leaves no draws where there
were none. -/
theorem site_after (e : Engine κ μ) (w : Station) {v : Event Station}
    (own : ∀ w', v ≠ .network w') :
    (e.after w v).2.site = w.site ∧ (w.draws = [] → (e.after w v).2.draws = []) := by
  cases v with
  | network w' => exact absurd rfl (own w')
  | statement =>
    change (e.advance w).2.site = w.site ∧ (w.draws = [] → (e.advance w).2.draws = [])
    rcases e.advance_network w with same | ⟨a, left, d, -, done⟩
    · rw [same]
      exact ⟨rfl, fun none => none⟩
    · exact Driver.perform_site done
  | _ => exact ⟨rfl, fun none => none⟩

end Engine

namespace Live

variable {μ : Type} {l : Live μ} {i j : Nat} {e e' : Engine Replica μ}

theorem setEngine_setEngine (f g : Fabric) :
    (((l.setFabric f).setEngine i e).setFabric g).setEngine i e' =
      (l.setFabric g).setEngine i e' := by
  simp only [setEngine, setFabric, List.map_map]
  congr 1
  apply List.map_congr_left
  intro x _
  by_cases here : x.1 = i <;> simp [here]

variable [Machine μ]

theorem cycle_eq (here : l.engine? i = some e) :
    let r := e.cycle (l.fabric.drain (.inside i)).1 (.moment l.clock)
      ({ fabric := (l.fabric.drain (.inside i)).2, site := .inside i } : Station)
    l.cycle i =
      { (l.setFabric r.2.fabric).setEngine i r.1 with clock := l.clock + pace } := by
  simp only [cycle, here]

/-- What becomes of an engine in its turn. -/
theorem engine?_cycle (here : l.engine? i = some e) :
    (∃ inbox t w, (l.cycle i).engine? i = some (e.cycle inbox t (w : Station)).1) ∧
      ∀ j ≠ i, (l.cycle i).engine? j = l.engine? j := by
  let w : Station := { fabric := (l.fabric.drain (.inside i)).2, site := .inside i }
  let r := e.cycle (l.fabric.drain (.inside i)).1 (.moment l.clock) w
  have turn : ∀ j, (l.cycle i).engine? j =
      ((l.setFabric r.2.fabric).setEngine i r.1).engine? j := by
    intro j
    rw [cycle_eq here]
    rfl
  constructor
  · refine ⟨(l.fabric.drain (.inside i)).1, .moment l.clock, w,
      (turn i).trans ((engine?_setEngine _ i i r.1).trans ?_)⟩
    rw [if_pos rfl]
    change (l.engine? i).map _ = _
    rw [here]
    rfl
  · intro j other
    refine (turn j).trans ((engine?_setEngine _ i j r.1).trans ?_)
    rw [if_neg other]
    rfl

omit [Machine μ] in
/-- Whether an engine goes on with its commands. -/
theorem busy_iff : ((l.engine? i).any fun e => runnable e && !e.queue.isEmpty) = true ↔
    ∃ e, l.engine? i = some e ∧ e.resting = true ∧ ∃ c queue, e.queue = c :: queue := by
  have free : ∀ e : Engine Replica μ, runnable e = e.resting := by
    intro e
    rw [runnable, Engine.held, Engine.resting]
    cases e.ended <;> simp
  cases here : l.engine? i with
  | none => simp
  | some e =>
    cases next : e.queue with
    | nil => simp [next]
    | cons c queue => simp [next, free]

/-- Engine `i` has ended, or will have when it has taken `n` commands. -/
def Stopping (l : Live μ) (n i : Nat) : Prop := ∀ e ∈ l.engine? i,
  e.ended = true ∨ (e.resting = true ∧ .stop ∈ e.queue ∧ e.queue.length ≤ n)

omit [Machine μ] in
theorem Stopping.exact {n : Nat} (h : l.Stopping n i) :
    l.Stopping (((l.engine? i).map fun e => e.queue.length).getD 0) i := by
  intro e here
  rcases h e here with past | ⟨rest, queued, -⟩
  · exact Or.inl past
  · refine Or.inr ⟨rest, queued, ?_⟩
    rw [Option.mem_def.mp here]
    exact Nat.le_refl _

omit [Machine μ] in
/-- Asking takes no engine out of its turns, and puts off its end by a command at most. -/
theorem Stopping.requestStop {n : Nat} (h : l.Stopping n i) (j : Nat) :
    (l.requestStop j).2.Stopping (n + 1) i := by
  intro e' there
  rw [engine?_requestStop, Option.mem_def] at there
  split at there
  · rename_i same
    subst same
    obtain ⟨e, here, rfl⟩ := Option.map_eq_some_iff.mp there
    obtain ⟨-, -, ending, loop⟩ := e.requestStop_spec
    rcases h e here with past | ⟨rest, queued, short⟩
    · exact Or.inl (by rwa [Engine.ended, ending])
    · refine Or.inr ⟨by rwa [Engine.resting, Engine.ended, ending, loop], ?_⟩
      rcases e.requestStop_cases with same | ⟨queue, rfl | rfl, stops⟩
      · rw [same]
        exact ⟨queued, Nat.le_succ_of_le short⟩
      · rw [stops]
        exact ⟨queued, Nat.le_succ_of_le short⟩
      · rw [stops]
        exact ⟨List.mem_append_left _ queued, by simpa using short⟩
  · rcases h e' there with past | ⟨rest, queued, short⟩
    · exact Or.inl past
    · exact Or.inr ⟨rest, queued, Nat.le_succ_of_le short⟩

omit [Machine μ] in
/-- Who asks first puts the end into the queue. -/
theorem stopping_of_first (awake : ∀ e ∈ l.engine? i, e.ended = true ∨ e.resting = true)
    (first : (l.requestStop i).1 = true) : ∃ n, (l.requestStop i).2.Stopping n i := by
  rw [requestStop_first] at first
  cases here : l.engine? i with
  | none =>
    rw [here] at first
    cases first
  | some e =>
    rw [here] at first
    have unclaimed : e.claimed = false := by simpa using first
    refine ⟨e.queue.length + 1, ?_⟩
    intro e' there
    rw [engine?_requestStop, if_pos rfl, here] at there
    obtain rfl : e.requestStop.2 = e' := Option.some.inj there
    obtain ⟨-, -, ending, loop⟩ := e.requestStop_spec
    rcases awake e here with past | rest
    · exact Or.inl (by rwa [Engine.ended, ending])
    · have live := (e.resting_iff.mp rest).1
      refine Or.inr ⟨by rwa [Engine.resting, Engine.ended, ending, loop], ?_⟩
      simp [Engine.requestStop, unclaimed, Engine.ended, live]

omit [Machine μ] in
theorem stopping_of_requestStops {left : List Nat}
    (awake : ∀ i, ∀ e ∈ l.engine? i, e.ended = true ∨ e.resting = true)
    (first : (i, true) ∈ (l.requestStops left).1) :
    ∃ n, (l.requestStops left).2.Stopping n i := by
  have stays : ∀ (left : List Nat) (l : Live μ), (∃ n, l.Stopping n i) →
      ∃ n, (l.requestStops left).2.Stopping n i := by
    intro left
    induction left with
    | nil => exact fun _ stopping => stopping
    | cons j left ih => exact fun l ⟨n, stopping⟩ => ih _ ⟨n + 1, stopping.requestStop j⟩
  induction left generalizing l with
  | nil => cases first
  | cons j left ih =>
    change (i, true) ∈ (j, (l.requestStop j).1) :: (requestStops left (l.requestStop j).2).1
      at first
    rcases List.mem_cons.mp first with now | later
    · obtain ⟨rfl, asked⟩ : i = j ∧ true = (l.requestStop j).1 := Prod.mk.inj now
      exact stays left _ (stopping_of_first (awake i) asked.symm)
    · refine ih ?_ later
      intro k e' there
      have there : (l.requestStop j).2.engine? k = some e' := there
      rw [engine?_requestStop] at there
      split at there
      · obtain ⟨e, here, rfl⟩ := Option.map_eq_some_iff.mp there
        obtain ⟨-, -, ending, loop⟩ := e.requestStop_spec
        rw [Engine.resting, Engine.ended, ending, loop]
        exact awake _ e here
      · exact awake k e' there

theorem joins_snd (k : Nat) (first : Bool) (requested : List (Nat × Bool)) :
    (joins k ((i, first) :: requested) l).2 =
      (joins (k + 1) requested (if first then l.obey i else l)).2 := by
  cases first with
  | false => rfl
  | true =>
    simp only [joins, join, if_true]
    split <;> rfl

end Live

namespace Session

variable {μ : Type} [Machine μ] {s : Session μ} {i : Nat} {e : Engine Replica μ}

/-- What happens to engines while nobody asks for their end. -/
def Event.Inward : Event → Prop
  | .engine _ v => v ≠ .requestStop
  | .clock _ => True
  | .close | .proceed => False

theorem admitsAll_of_inward {vs : List Event} (inward : ∀ v ∈ vs, v.Inward) :
    (sessions μ).AdmitsAll s vs := by
  induction vs generalizing s with
  | nil => trivial
  | cons v vs ih =>
    refine ⟨?_, ih fun u hu => inward u (List.mem_cons_of_mem v hu)⟩
    have first := inward v List.mem_cons_self
    cases v with
    | engine | clock => trivial
    | close | proceed => exact absurd first not_false

/-- What happens to one engine, while nothing happens to the others. -/
theorem play_engine {l : Live μ} {f : Fabric} (known : (l.engine? i).isSome)
    (vs : List (QuorumLab.Event Station)) (own : ∀ v ∈ vs, ∀ w, v ≠ .network w) :
    let r := Engine.plays (e, ({ fabric := f, site := .inside i } : Station)) vs
    (sessions μ).play { s with live := (l.setFabric f).setEngine i e } (vs.map (.engine i)) =
      { s with live := (l.setFabric r.2.fabric).setEngine i r.1 } := by
  induction vs generalizing e f with
  | nil => rfl
  | cons v vs ih =>
    let w : Station := { fabric := f, site := .inside i }
    have here : ((l.setFabric f).setEngine i e).engine? i = some e := by
      obtain ⟨e₀, there⟩ := Option.isSome_iff_exists.mp known
      refine (Live.engine?_setEngine _ i i e).trans ?_
      rw [if_pos rfl]
      change (l.engine? i).map _ = _
      rw [there]
      rfl
    obtain ⟨site, draws⟩ := e.site_after w (own v List.mem_cons_self)
    have there : ({ fabric := (e.after w v).2.fabric, site := .inside i } : Station) =
        (e.after w v).2 := by
      have site : .inside i = (e.after w v).2.site := site.symm
      rw [site, ← draws rfl]
    have first : (sessions μ).after { s with live := (l.setFabric f).setEngine i e } (.engine i v) =
        { s with live := (l.setFabric (e.after w v).2.fabric).setEngine i (e.after w v).1 } := by
      rw [sessions_after]
      simp only [after, here]
      exact congrArg (fun l => ({ s with live := l } : Session μ)) (Live.setEngine_setEngine _ _)
    rw [List.map_cons]
    refine (congrArg ((sessions μ).play · _) first).trans ?_
    rw [ih fun v hv => own v (List.mem_cons_of_mem _ hv), there]
    rfl

/-- A turn is a run of events. -/
theorem play_cycle (here : s.live.engine? i = some e) (rest : e.resting = true) :
    ∃ vs : List Event, (∀ u ∈ vs, u.Inward) ∧
      (sessions μ).play s vs = { s with live := s.live.cycle i } := by
  let w : Station := { fabric := (s.live.fabric.drain (.inside i)).2, site := .inside i }
  obtain ⟨v, n, begins, same⟩ := Engine.cycle_plays rest (s.live.fabric.drain (.inside i)).1
    (.moment s.live.clock) w
  have own : ∀ u ∈ v :: List.replicate n .statement,
      (∀ w', u ≠ .network w') ∧ u ≠ .requestStop := by
    intro u hu
    rcases List.mem_cons.mp hu with rfl | hu
    · rcases begins with rfl | rfl <;> exact ⟨nofun, nofun⟩
    · rw [List.eq_of_mem_replicate hu]
      exact ⟨nofun, nofun⟩
  have known : (s.live.engine? i).isSome := by rw [here]; rfl
  refine ⟨.engine i (.network w) :: (v :: List.replicate n .statement).map (.engine i) ++
    [.clock (s.live.clock + Live.pace)], ?_, ?_⟩
  · refine List.forall_mem_append.mpr ⟨List.forall_mem_cons.mpr ⟨nofun, ?_⟩, by
      simp [Event.Inward]⟩
    exact List.forall_mem_map.mpr fun u hu => (own u hu).2
  have first : (sessions μ).after s (.engine i (.network w)) =
      { s with live := (s.live.setFabric w.fabric).setEngine i e } := by
    rw [sessions_after]
    simp only [after, here]
    rfl
  have turned := play_engine (s := s) (e := e) (f := w.fabric) known _ fun u hu => (own u hu).1
  rw [System.play_append]
  have worked : (sessions μ).play s
      (.engine i (.network w) :: (v :: List.replicate n .statement).map (.engine i)) = _ :=
    (congrArg ((sessions μ).play · _) first).trans turned
  rw [worked, Live.cycle_eq here, ← same]
  rfl

/-- The turns in which an engine works off its commands are a run of events, at the end of which
it has ended if it was asked to. No machine can hold it up if there is nothing else to work off. -/
theorem play_obeyWithin (n : Nat) :
    ∃ vs : List Event, (∀ v ∈ vs, v.Inward) ∧
      (sessions μ).play s vs = { s with live := s.live.obeyWithin i n } ∧
      (∀ j ≠ i, (s.live.obeyWithin i n).engine? j = s.live.engine? j) ∧
      (Machine.Prompt μ ∨ n ≤ 1 → s.live.Stopping n i →
        ({ s with live := s.live.obeyWithin i n } : Session μ).Over i) := by
  induction n generalizing s with
  | zero =>
    refine ⟨[], nofun, rfl, fun j _ => rfl, ?_⟩
    intro _ stopping e here
    rcases stopping e here with past | ⟨-, queued, short⟩
    · exact past
    · rw [List.length_eq_zero_iff.mp (Nat.le_zero.mp short)] at queued
      cases queued
  | succ n ih =>
    rw [Live.obeyWithin]
    split
    · rename_i busy
      obtain ⟨e, here, rest, c, queue, next⟩ := Live.busy_iff.mp busy
      obtain ⟨us, inward, played⟩ := play_cycle here rest
      obtain ⟨vs, inward', played', others, gone⟩ := ih (s := { s with live := s.live.cycle i })
      obtain ⟨⟨inbox, t, w, there⟩, still⟩ := Live.engine?_cycle here
      refine ⟨us ++ vs, List.forall_mem_append.mpr ⟨inward, inward'⟩, ?_, ?_, ?_⟩
      · rw [System.play_append, played]
        exact played'
      · intro j other
        exact (others j other).trans (still j other)
      · intro unhindered stopping
        apply gone (unhindered.imp_right Nat.le_of_succ_le)
        intro e' now
        cases there.symm.trans now
        rcases stopping e here with past | ⟨-, queued, short⟩
        · rw [Engine.ended, (e.resting_iff.mp rest).1] at past
          cases past
        rw [next] at queued short
        have short : queue.length ≤ n := Nat.le_of_succ_le_succ short
        by_cases stop : c = .stop
        · subst stop
          exact Or.inl (Engine.cycle_stop next inbox t w)
        · have queued : .stop ∈ queue := (List.mem_cons.mp queued).resolve_left (Ne.symm stop)
          have some_left := List.length_pos_of_mem queued
          have prompt := unhindered.resolve_right (by omega)
          rcases Engine.cycle_spec prompt rest next inbox t w with past | ⟨-, rest', left⟩
          · exact Or.inl past
          · exact Or.inr ⟨rest', left ▸ queued, left ▸ short⟩
    · rename_i done
      refine ⟨[], nofun, rfl, fun j _ => rfl, ?_⟩
      intro _ stopping e here
      rcases stopping e here with past | ⟨rest, queued, -⟩
      · exact past
      · obtain ⟨c, queue, next⟩ := List.exists_cons_of_ne_nil (List.ne_nil_of_mem queued)
        exact absurd (Live.busy_iff.mpr ⟨e, here, rest, c, queue, next⟩) done

theorem Over.play (gone : s.Over i) (vs : List Event) : ((sessions μ).play s vs).Over i := by
  induction vs generalizing s with
  | nil => exact gone
  | cons v vs ih => exact ih (gone.after v)

theorem play_obey (s : Session μ) (i : Nat) :
    ∃ vs : List Event, (∀ v ∈ vs, v.Inward) ∧
      (sessions μ).play s vs = { s with live := s.live.obey i } ∧
      (∀ j ≠ i, (s.live.obey i).engine? j = s.live.engine? j) ∧
      ∀ n, (Machine.Prompt μ ∨ n ≤ 1) → s.live.Stopping n i →
        ({ s with live := s.live.obey i } : Session μ).Over i := by
  let length := ((s.live.engine? i).map fun e => e.queue.length).getD 0
  obtain ⟨vs, inward, played, others, gone⟩ := play_obeyWithin (s := s) (i := i) length
  refine ⟨vs, inward, played, others, fun n unhindered stopping => ?_⟩
  by_cases past : s.Over i
  · have stays := past.play vs
    rwa [played] at stays
  · apply gone _ stopping.exact
    refine unhindered.imp_right fun few => ?_
    obtain ⟨e, here, live⟩ : ∃ e, s.live.engine? i = some e ∧ ¬e.ended = true := by
      simpa [Over] using past
    rcases stopping e here with ended | ⟨-, -, short⟩
    · exact absurd ended live
    · have own : length = e.queue.length := by simp only [length, here, Option.map_some, Option.getD]
      omega

/-- Waiting for one engine after the other is a run, if each will end. -/
theorem play_joins (prompt : Machine.Prompt μ) (k : Nat) {requested : List (Nat × Bool)}
    (waiting : s.phase = .waiting ((requested.filter Prod.snd).map Prod.fst))
    (stopping : ∀ i, (i, true) ∈ requested → ∃ n, s.live.Stopping n i) :
    ∃ vs, (sessions μ).AdmitsAll s vs ∧ (sessions μ).play s vs =
      { s with live := (Live.joins k requested s.live).2, phase := .waiting [] } := by
  induction requested generalizing s k with
  | nil =>
    refine ⟨[], trivial, ?_⟩
    change s = { s with phase := .waiting [] }
    have none_left : s.phase = .waiting [] := waiting
    rw [← none_left]
  | cons x requested ih =>
    obtain ⟨i, first⟩ := x
    rw [Live.joins_snd]
    cases first with
    | false => exact ih (k + 1) waiting fun j mine => stopping j (List.mem_cons_of_mem _ mine)
    | true =>
      obtain ⟨n, ends⟩ := stopping i List.mem_cons_self
      obtain ⟨us, inward, played, others, gone⟩ := s.play_obey i
      let left := (requested.filter Prod.snd).map Prod.fst
      let s₁ : Session μ := { s with live := s.live.obey i }
      have played : (sessions μ).play s us = s₁ := played
      have gone : s₁.Over i := gone n (Or.inl prompt) ends
      have awaits : s₁.phase = .waiting (i :: left) := waiting
      have next : (sessions μ).after s₁ .proceed = { s₁ with phase := .waiting left } := by
        rw [sessions_after]
        simp only [after, Session.proceed, awaits]
      have stopping' : ∀ j, (j, true) ∈ requested → ∃ n, s₁.live.Stopping n j := by
        intro j mine
        by_cases same : j = i
        · subst same
          exact ⟨0, fun e here => Or.inl (gone e here)⟩
        · obtain ⟨n, ends⟩ := stopping j (List.mem_cons_of_mem _ mine)
          refine ⟨n, fun e here => ends e ?_⟩
          rw [← others j same]
          exact here
      obtain ⟨vs, admitted, played'⟩ :=
        ih (k + 1) (s := { s₁ with phase := .waiting left }) rfl stopping'
      refine ⟨us ++ .proceed :: vs, ?_, ?_⟩
      · rw [System.admitsAll_append, played]
        exact ⟨admitsAll_of_inward inward, admits_of_over awaits gone, next ▸ admitted⟩
      · rw [System.play_append, played]
        exact (congrArg ((sessions μ).play · vs) next).trans played'

theorem play_cleaning {knobs : List Knob} (cleaning : s.phase = .cleaning knobs) :
    (sessions μ).AdmitsAll s (List.replicate (knobs.length + 1) .proceed) ∧
      (sessions μ).play s (List.replicate (knobs.length + 1) .proceed) =
        { s with
          live := { s.live with
            closed := true
            cluster := Knob.cleanupAll knobs s.live.cluster }
          phase := .closed } := by
  induction knobs generalizing s with
  | nil =>
    have next : (sessions μ).after s .proceed =
        { s with live := { s.live with closed := true }, phase := .closed } := by
      rw [sessions_after]
      simp only [after, Session.proceed, cleaning]
    exact ⟨⟨admits_of_free (by rw [cleaning]; rfl), trivial⟩, next⟩
  | cons k knobs ih =>
    let s₁ : Session μ := { s with
      live := { s.live with cluster := k.cleanup s.live.cluster }
      phase := .cleaning knobs }
    have next : (sessions μ).after s .proceed = s₁ := by
      rw [sessions_after]
      simp only [after, Session.proceed, cleaning, s₁]
    obtain ⟨admitted, played⟩ := ih (s := s₁) rfl
    rw [List.length_cons, List.replicate_succ]
    have free : s.phase.awaited? = none := by
      rw [cleaning]
      rfl
    exact ⟨⟨admits_of_free free, next ▸ admitted⟩,
      (congrArg ((sessions μ).play · _) next).trans played⟩

/-! ## The end of a cluster -/

/-- A cluster that is closed at one go goes through one of its runs, if no machine holds its
engine up. -/
theorem close_plays (prompt : Machine.Prompt μ) (running : s.phase = .running)
    (nobody : s.asked = []) (awake : ∀ i, ∀ e ∈ s.live.engine? i, e.ended = true ∨ e.resting = true) :
    ∃ vs, (sessions μ).AdmitsAll s vs ∧ ((sessions μ).play s vs).phase = .closed ∧
      s.live.close.2 = ((sessions μ).play s vs).live.settle := by
  let l := s.live
  let requested := l.requestStops (l.engines.map Prod.fst)
  let joined := (Live.joins 0 requested.1 requested.2).2
  let asking : List Event := .close :: List.replicate (l.engines.length + 1) .proceed
  let cleaning : List Event := List.replicate (joined.knobs.length + 1) .proceed
  obtain ⟨admitted₁, asked⟩ := play_close running nobody
  let s₁ : Session μ :=
    { live := requested.2
      phase := .waiting ((requested.1.filter Prod.snd).map Prod.fst)
      asked := requested.1 }
  have asked : (sessions μ).play s asking = s₁ := asked
  obtain ⟨waiting, admitted₂, waited⟩ := play_joins (s := s₁) prompt 0 rfl fun i mine =>
    Live.stopping_of_requestStops awake mine
  have waited : (sessions μ).play s₁ waiting = { s₁ with live := joined, phase := .waiting [] } :=
    waited
  obtain ⟨admitted₃, cleaned⟩ :=
    play_cleaning (s := { s₁ with live := joined, phase := .cleaning joined.knobs }) rfl
  let closed : Live μ := { joined with
    closed := true
    cluster := Knob.cleanupAll joined.knobs joined.cluster }
  have played : (sessions μ).play s (asking ++ (waiting ++ .proceed :: cleaning)) =
      { s₁ with live := closed, phase := .closed } := by
    rw [System.play_append, asked, System.play_append, waited]
    exact cleaned
  refine ⟨asking ++ (waiting ++ .proceed :: cleaning), ?_, ?_, ?_⟩
  · rw [System.admitsAll_append, asked, System.admitsAll_append, waited]
    exact ⟨admitted₁, admitted₂, nofun, admitted₃⟩
  · rw [played]
  · rw [played]
    rfl

/-- Whatever handles and engines do, the knobs are cleaned up when every engine has been asked to
end, and each that nobody had asked before the control has ended. For the others nothing is
waited for: where every engine has been asked or has ended, the control gets to the cleanup while
no driver does anything. A control that closes at one go is one of these runs, if no machine holds
its engine up. -/
theorem cleanup_waits_for_own (l : Live μ) {vs : List Event}
    (admitted : (sessions μ).AdmitsAll { live := l } vs) :
    let s := (sessions μ).play { live := l } vs
    (s.phase.CleansUp → ∀ i, ∀ e ∈ s.live.engine? i,
      (∃ first, (i, first) ∈ s.asked) ∧ ((i, true) ∈ s.asked → e.ended = true) ∧
      ((∀ e₀ ∈ l.engine? i, e₀.claimed = false) → .engine i .requestStop ∉ vs →
        e.ended = true)) ∧
    (s.phase = .running → (∀ i, ∀ e ∈ s.live.engine? i, e.claimed = true ∨ e.ended = true) →
      ∃ n, let us := .close :: List.replicate n .proceed
        (sessions μ).AdmitsAll s us ∧
        ((sessions μ).play s us).phase = .cleaning s.live.knobs ∧
        ∀ i, (((sessions μ).play s us).live.engine? i).map (fun e => (e.loop, e.ending)) =
          (s.live.engine? i).map fun e => (e.loop, e.ending)) ∧
    (s.phase = .running → Machine.Prompt μ →
      (∀ i, ∀ e ∈ s.live.engine? i, e.ended = true ∨ e.resting = true) →
      ∃ us, (sessions μ).AdmitsAll s us ∧ ((sessions μ).play s us).phase = .closed ∧
        s.live.close.2 = ((sessions μ).play s us).live.settle) := by
  intro s
  have run : Reachable (sessions μ) { live := l } s := System.reachable_play .start admitted
  have kept : s.Kept s.phase := by
    apply run.invariant (P := fun s => s.Kept s.phase) rfl
    intro s v kept admitted
    exact kept.after admitted
  refine ⟨?_, ?_, ?_⟩
  · intro cleaning i e here
    obtain ⟨all, gone⟩ := kept.cleansUp cleaning
    obtain ⟨first, asked⟩ : ∃ first, (i, first) ∈ s.asked := by
      have there := Live.index_mem_of_engine? here
      rw [← all] at there
      obtain ⟨⟨j, first⟩, asked, rfl⟩ := List.mem_map.mp there
      exact ⟨first, asked⟩
    refine ⟨⟨first, asked⟩, fun mine => gone i mine e here, ?_⟩
    intro unclaimed others
    have begun : Own ({ live := l } : Session μ) i := by
      intro e₀ there
      refine ⟨fun claimed => ?_, fun asked => nomatch asked⟩
      rw [unclaimed e₀ there] at claimed
      cases claimed
    have own : s.Own i := begun.play others
    cases first with
    | true => exact gone i asked e here
    | false => exact gone i ((own e here).2 asked) e here
  · intro running free
    rw [running] at kept
    exact play_cleanup running kept free
  · intro running prompt awake
    rw [running] at kept
    exact close_plays prompt running kept awake

/-- Two members that run. -/
def couple : Session Recorder where
  live :=
    { cluster := { size := 2, nodes := [], fabric := {} }
      knobs := [.record "probe"]
      machines := [{}, {}]
      engines := [(0, Sample.engine 1 Sample.shelf), (1, Sample.engine 2 Sample.shelf)] }

/-- A handle has asked the first member to end before the control closes: the control waits for
the second only. Had handles asked both, it would wait for neither, whether it closes step by step
or at one go. -/
theorem cleanup_waits_for_own_of_couple :
    let vs : List Event := [.engine 0 .requestStop, .close, .proceed, .proceed, .proceed,
      .engine 1 (.command [] (.moment 0)), .proceed, .proceed]
    let us : List Event := [.engine 0 .requestStop, .engine 1 .requestStop]
    let s := (sessions Recorder).play couple vs
    let s' := (sessions Recorder).play couple us
    ((sessions Recorder).AdmitsAll couple vs ∧ s.phase.CleansUp ∧ (0, false) ∈ s.asked ∧
      (s.live.engine? 0).map Engine.ended = some false ∧
      (s.live.engine? 1).map Engine.ended = some true) ∧
    ((sessions Recorder).AdmitsAll couple us ∧ s'.phase = .running ∧
      (∃ n, ∀ i < 2, (((sessions Recorder).play s'
        (.close :: List.replicate n .proceed)).live.engine? i).map Engine.ended = some false) ∧
      ∃ ws, ((sessions Recorder).play s' ws).phase = .closed ∧
        s'.live.close.2 = ((sessions Recorder).play s' ws).live.settle) := by
  intro vs us s s'
  have admitted : (sessions Recorder).AdmitsAll couple vs := by decide +kernel
  have admitted' : (sessions Recorder).AdmitsAll couple us := by decide +kernel
  obtain ⟨e, here⟩ : ∃ e, s.live.engine? 1 = some e :=
    Option.isSome_iff_exists.mp (by decide +kernel)
  have unclaimed : ∀ e₀ ∈ couple.live.engine? 1, e₀.claimed = false := by decide +kernel
  have waited : e.ended = true :=
    ((cleanup_waits_for_own couple.live admitted).1 trivial 1 e here).2.2 unclaimed (by simp [vs])
  have each {P : Engine Replica Recorder → Bool} (holds : ∀ i ∈ s'.live.engines.map Prod.fst,
      (s'.live.engine? i).map P = some true) : ∀ i, ∀ e ∈ s'.live.engine? i, P e = true := by
    intro i e here
    have held := holds i (Live.index_mem_of_engine? here)
    rw [Option.mem_def.mp here] at held
    exact Option.some.inj held
  have asked := each (P := Engine.claimed) (by decide +kernel)
  have awake := each (P := Engine.resting) (by decide +kernel)
  obtain ⟨-, untouched, closes⟩ := cleanup_waits_for_own couple.live admitted'
  obtain ⟨n, -, -, same⟩ := untouched rfl fun i e here => Or.inl (asked i e here)
  obtain ⟨ws, -, closed, left⟩ := closes rfl (fun _ _ _ held => by cases held)
    fun i e here => Or.inr (awake i e here)
  have runs : ∀ i < 2, (s'.live.engine? i).map Engine.ended = some false := by decide +kernel
  refine ⟨⟨admitted, trivial, by decide +kernel, by decide +kernel, ?_⟩, admitted', rfl,
    ⟨n, ?_⟩, ws, closed, left⟩
  · rw [here]
    exact congrArg some waited
  · intro i few
    have kept := congrArg (Option.map fun x => x.2.isSome) (same i)
    rw [Option.map_map, Option.map_map] at kept
    exact kept.trans (runs i few)

end Session

end QuorumLab
