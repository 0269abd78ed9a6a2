import QuorumLab.Cluster.Control
import QuorumLab.Proofs.Engine.Cycles

/-!
# What the end of a cluster waits for

A control that is closed or dropped asks every engine to end, waits, and then cleans its knobs
up. Meanwhile handles are used and engines go on as before. The control waits for those engines
that nobody had asked to end before it did: one that a handle had asked may still run while the
knobs are cleaned up.
-/

namespace QuorumLab

/-- How far the control of a cluster is with its end. -/
inductive Phase where
  | running
  /-- These engines are still to be asked. -/
  | asking (left : List Nat)
  /-- These are still to be waited for. -/
  | waiting (left : List Nat)
  /-- These knobs are still to be cleaned up. -/
  | cleaning (left : List Knob)
  | closed

namespace Phase

/-- The first knob is being cleaned up, or was. -/
def CleansUp : Phase → Prop
  | cleaning _ | closed => True
  | running | asking _ | waiting _ => False

/-- The engine that is waited for. -/
def awaited? : Phase → Option Nat
  | waiting (i :: _) => some i
  | _ => none

end Phase

/-- A running cluster, and how far its control is with the end of it. -/
structure Session (μ : Type) where
  live : Live μ
  phase : Phase := .running
  /-- The engines that the control asked to end, and whether it was the first to do so. -/
  asked : List (Nat × Bool) := []

namespace Session

inductive Event where
  /-- A handle calls the engine of node `i`, or its loop goes on, or the network changes. -/
  | engine (i : Nat) (v : QuorumLab.Event Station)
  | clock (now : Nat)
  /-- The control is closed or dropped. -/
  | close
  /-- The control makes its next step. -/
  | proceed

variable {μ : Type}

/-- To wait for an engine is to go on when it has ended. -/
def Admits (s : Session μ) : Event → Prop
  | .proceed => ∀ i ∈ s.phase.awaited?, ∀ e ∈ s.live.engine? i, e.ended = true
  | _ => True

instance (s : Session μ) : DecidablePred s.Admits
  | .proceed => inferInstanceAs
      (Decidable (∀ i ∈ s.phase.awaited?, ∀ e ∈ s.live.engine? i, e.ended = true))
  | .engine _ _ | .clock _ | .close => isTrue trivial

/-- The next step of a control that is closing. -/
def proceed (s : Session μ) : Session μ :=
  match s.phase with
  | .running | .closed => s
  | .asking (i :: left) =>
    { live := (s.live.requestStop i).2
      phase := .asking left
      asked := s.asked ++ [(i, (s.live.requestStop i).1)] }
  | .asking [] => { s with phase := .waiting ((s.asked.filter Prod.snd).map Prod.fst) }
  | .waiting (_ :: left) => { s with phase := .waiting left }
  | .waiting [] => { s with phase := .cleaning s.live.knobs }
  | .cleaning (k :: left) =>
    { s with
      live := { s.live with cluster := k.cleanup s.live.cluster }
      phase := .cleaning left }
  | .cleaning [] => { s with live := { s.live with closed := true }, phase := .closed }

variable [Machine μ]

def after (s : Session μ) : Event → Session μ
  | .engine i v =>
    match s.live.engine? i with
    | none => s
    | some e =>
      let (e, w) := e.after (s.live.station i) v
      { s with live := (s.live.setFabric w.fabric).setEngine i e }
  | .clock now => { s with live := { s.live with clock := now } }
  | .close =>
    match s.phase with
    | .running => { s with phase := .asking (s.live.engines.map Prod.fst) }
    | _ => s
  | .proceed => s.proceed

end Session

/-- All orders of what handles, engines and the control do. -/
def sessions (μ : Type) [Machine μ] : System (Session μ) Session.Event where
  admits := Session.Admits
  after := Session.after

@[simp] theorem sessions_after {μ : Type} [Machine μ] (s : Session μ) (v : Session.Event) :
    (sessions μ).after s v = s.after v := rfl

instance {μ : Type} [Machine μ] (s : Session μ) (v : Session.Event) :
    Decidable ((sessions μ).admits s v) := inferInstanceAs (Decidable (s.Admits v))

/-! ## Engines that end -/

namespace Engine

variable {κ μ ω : Type} [Core κ] [Machine μ] [Carrier ω] {e : Engine κ μ}

theorem ended_after (past : e.ended = true) (w : ω) (v : Event ω) :
    (e.after w v).1.ended = true := by
  rw [ended, (e.after_of_ended past w v).1]
  exact past

/-- Only who asks for the end of a driver claims it. -/
theorem claimed_after (w : ω) {v : Event ω} (other : v ≠ .requestStop) :
    (e.after w v).1.claimed = e.claimed := by
  have queued : ∀ c : Nat → Command, (e.enqueue c).2.claimed = e.claimed := by
    intro c
    rcases e.enqueue_cases c with ⟨f, refused⟩ | ⟨-, taken⟩
    · rw [refused]
    · rw [taken]
  have roused : v.Awaited → (e.after w v).1.claimed = e.claimed := by
    intro awaited
    have rouses := e.rouses w awaited
    generalize (e.after w v).1 = e' at rouses
    cases rouses <;> rfl
  cases v with
  | apply data =>
    change (e.apply data).2.claimed = e.claimed
    rcases e.apply_cases data with ⟨f, refused⟩ | asked
    · rw [refused]
    · rw [asked]
      exact queued _
  | snapshot | membership => exact queued _
  | requestStop => exact absurd rfl other
  | network => rfl
  | command | wake | abandon => exact roused trivial
  | statement =>
    change (e.advance w).1.claimed = e.claimed
    have advances := e.advances w
    generalize (e.advance w).1 = e' at advances
    cases advances <;> rfl

omit [Core κ] [Machine μ] in
/-- Asking changes nothing but the queue, and claims the engine. -/
theorem requestStop_spec (e : Engine κ μ) :
    e.requestStop.1 = !e.claimed ∧ e.requestStop.2.claimed = true ∧
      e.requestStop.2.ending = e.ending ∧ e.requestStop.2.loop = e.loop := by
  by_cases claimed : e.claimed = true <;> simp [requestStop, claimed]

end Engine

namespace Live

theorem index_mem_of_engine? {μ : Type} {l : Live μ} {i : Nat} {e : Engine Replica μ}
    (here : l.engine? i = some e) : i ∈ l.engines.map Prod.fst := by
  obtain ⟨before, behind, split, -⟩ := List.lookup_eq_some_iff.mp here
  rw [split]
  simp

variable {μ : Type} (l : Live μ) (i j : Nat) (e : Engine Replica μ)

theorem engine?_setEngine :
    (l.setEngine i e).engine? j =
      if j = i then (l.engine? i).map fun _ => e else l.engine? j := by
  simp only [engine?, setEngine]
  induction l.engines with
  | nil => simp
  | cons x engines ih =>
    obtain ⟨k, e'⟩ := x
    by_cases here : k = i
    · subst here
      by_cases same : j = k
      · simp [same]
      · have differ : (j == k) = false := by simpa using same
        simpa [List.lookup_cons, differ, same] using ih
    · have differ : (i == k) = false := by simpa using Ne.symm here
      by_cases same : j = k
      · subst same
        simp [here]
      · have other : (j == k) = false := by simpa using same
        simpa [List.lookup_cons, here, differ, other] using ih

theorem indexes_setEngine : (l.setEngine i e).engines.map Prod.fst = l.engines.map Prod.fst := by
  rw [setEngine, List.map_map]
  apply List.map_congr_left
  intro x _
  by_cases here : x.1 = i <;> simp [here]

theorem engine?_requestStop : (l.requestStop i).2.engine? j =
    if j = i then (l.engine? i).map fun e => e.requestStop.2 else l.engine? j := by
  rw [requestStop]
  cases here : l.engine? i with
  | none =>
    by_cases same : j = i
    · rw [if_pos same, same]
      exact here
    · rw [if_neg same]
  | some e =>
    refine (l.engine?_setEngine i j e.requestStop.2).trans ?_
    rw [here]
    rfl

theorem indexes_requestStop :
    (l.requestStop i).2.engines.map Prod.fst = l.engines.map Prod.fst := by
  rw [requestStop]
  cases l.engine? i with
  | none => rfl
  | some e => exact l.indexes_setEngine i e.requestStop.2

theorem requestStop_first : (l.requestStop i).1 = (l.engine? i).any (!·.claimed) := by
  rw [requestStop]
  cases l.engine? i with
  | none => rfl
  | some e => exact e.requestStop_spec.1

/-- Engines that are asked to end are claimed by who asked first, and are not stopped by it. -/
theorem engine?_requestStops (left : List Nat) :
    ((l.requestStops left).2.engine? j).map (fun e => (e.loop, e.ending)) =
      (l.engine? j).map fun e => (e.loop, e.ending) := by
  induction left generalizing l with
  | nil => rfl
  | cons i left ih =>
    refine (ih (l.requestStop i).2).trans ?_
    rw [engine?_requestStop]
    split
    · rename_i same
      subst same
      rw [Option.map_map]
      congr 1
      funext e
      obtain ⟨-, -, ending, loop⟩ := e.requestStop_spec
      exact Prod.ext loop ending
    · rfl

theorem unclaimed_of_requestStops {left : List Nat}
    (first : (j, true) ∈ (l.requestStops left).1) :
    ∃ e, l.engine? j = some e ∧ e.claimed = false := by
  induction left generalizing l with
  | nil => cases first
  | cons i left ih =>
    change (j, true) ∈ (i, (l.requestStop i).1) :: (requestStops left (l.requestStop i).2).1
      at first
    rcases List.mem_cons.mp first with here | later
    · rw [requestStop_first] at here
      obtain ⟨rfl, asked⟩ := Prod.mk.inj here
      cases there : l.engine? j with
      | none =>
        rw [there] at asked
        cases asked
      | some e =>
        rw [there] at asked
        exact ⟨e, rfl, by simpa using asked⟩
    · obtain ⟨e', there, unclaimed⟩ := ih (l.requestStop i).2 later
      rw [engine?_requestStop] at there
      split at there
      · obtain ⟨e, -, rfl⟩ := Option.map_eq_some_iff.mp there
        rw [e.requestStop_spec.2.1] at unclaimed
        cases unclaimed
      · exact ⟨e', there, unclaimed⟩

theorem knobs_requestStops (left : List Nat) : (l.requestStops left).2.knobs = l.knobs := by
  induction left generalizing l with
  | nil => rfl
  | cons i left ih =>
    refine (ih (l.requestStop i).2).trans ?_
    rw [requestStop]
    split <;> rfl

end Live

/-! ## One event -/

namespace Session

variable {μ : Type} [Machine μ] {s : Session μ} {v : Event} {i j : Nat} {e e' : Engine Replica μ}

/-- An engine is changed by what happens to it, or by being asked to end. -/
theorem engine_after (there : (s.after v).live.engine? j = some e') :
    ∃ e, s.live.engine? j = some e ∧ (e' = e ∨
      (∃ w u, v = .engine j u ∧ e' = (e.after w u).1) ∨
      ∃ left, v = .proceed ∧ s.phase = .asking (j :: left) ∧ e' = e.requestStop.2) := by
  cases v with
  | engine i u =>
    rw [after] at there
    cases here : s.live.engine? i with
    | none =>
      rw [here] at there
      exact ⟨e', there, Or.inl rfl⟩
    | some e =>
      rw [here] at there
      change (Live.setEngine _ i _).engine? j = _ at there
      rw [Live.engine?_setEngine] at there
      split at there
      · rename_i same
        subst same
        change (s.live.engine? j).map _ = _ at there
        rw [here] at there
        cases there
        exact ⟨e, here, Or.inr (Or.inl ⟨_, u, rfl, rfl⟩)⟩
      · exact ⟨e', there, Or.inl rfl⟩
  | clock now => exact ⟨e', there, Or.inl rfl⟩
  | close =>
    refine ⟨e', ?_, Or.inl rfl⟩
    rw [after] at there
    split at there <;> exact there
  | proceed =>
    change s.proceed.live.engine? j = _ at there
    rw [proceed] at there
    split at there
    case h_3 i left asking =>
      rw [Live.engine?_requestStop] at there
      split at there
      · rename_i same
        subst same
        obtain ⟨e, here, rfl⟩ := Option.map_eq_some_iff.mp there
        exact ⟨e, here, Or.inr (Or.inr ⟨left, rfl, asking, rfl⟩)⟩
      · exact ⟨e', there, Or.inl rfl⟩
    all_goals exact ⟨e', there, Or.inl rfl⟩

theorem indexes_after (s : Session μ) (v : Event) :
    (s.after v).live.engines.map Prod.fst = s.live.engines.map Prod.fst := by
  cases v with
  | engine i u =>
    rw [after]
    cases s.live.engine? i with
    | none => rfl
    | some e => exact Live.indexes_setEngine _ _ _
  | clock now => rfl
  | close =>
    rw [after]
    split <;> rfl
  | proceed =>
    change s.proceed.live.engines.map _ = _
    rw [proceed]
    split
    case h_3 => exact Live.indexes_requestStop _ _
    all_goals rfl

/-- The engine of node `i`, if it has one, has ended. -/
def Over (s : Session μ) (i : Nat) : Prop := ∀ e ∈ s.live.engine? i, e.ended = true

theorem Over.after (gone : s.Over i) (v : Event) : (s.after v).Over i := by
  intro e' there
  obtain ⟨e, here, rfl | ⟨w, u, -, rfl⟩ | ⟨left, -, -, rfl⟩⟩ := engine_after there
  · exact gone e' here
  · exact Engine.ended_after (gone e here) w u
  · rw [Engine.ended, e.requestStop_spec.2.2.1]
    exact gone e here

/-- How far the control is. Engines that it was the first to ask are waited for. -/
def Kept (s : Session μ) : Phase → Prop
  | .running => s.asked = []
  | .asking left => s.asked.map Prod.fst ++ left = s.live.engines.map Prod.fst
  | .waiting left => s.asked.map Prod.fst = s.live.engines.map Prod.fst ∧
      ∀ i, (i, true) ∈ s.asked → i ∈ left ∨ s.Over i
  | .cleaning _ | .closed => s.asked.map Prod.fst = s.live.engines.map Prod.fst ∧
      ∀ i, (i, true) ∈ s.asked → s.Over i

omit [Machine μ] in
/-- What does not bear on the control leaves it as far as it is. -/
theorem Kept.stay {s' : Session μ} {p : Phase} (kept : s.Kept p)
    (asked : s'.asked = s.asked)
    (indexes : s'.live.engines.map Prod.fst = s.live.engines.map Prod.fst)
    (gone : ∀ i, s.Over i → s'.Over i) : s'.Kept p := by
  cases p with
  | running => exact asked.trans kept
  | asking left =>
    rw [Kept, asked, indexes]
    exact kept
  | waiting left =>
    rw [Kept, asked, indexes]
    exact ⟨kept.1, fun i first => (kept.2 i first).imp_right (gone i)⟩
  | cleaning | closed =>
    rw [Kept, asked, indexes]
    exact ⟨kept.1, fun i first => gone i (kept.2 i first)⟩

theorem Kept.proceed (kept : s.Kept s.phase) (admitted : s.Admits .proceed) :
    s.proceed.Kept s.proceed.phase := by
  have gone : ∀ i, s.Over i → s.proceed.Over i := fun i gone => gone.after .proceed
  have indexes : s.proceed.live.engines.map Prod.fst = s.live.engines.map Prod.fst :=
    s.indexes_after .proceed
  cases phase : s.phase with
  | running =>
    have same : s.proceed = s := by simp only [Session.proceed, phase]
    rwa [same]
  | asking left =>
    rw [phase] at kept
    cases left with
    | nil =>
      have next : s.proceed = { s with
          phase := .waiting ((s.asked.filter Prod.snd).map Prod.fst) } := by
        simp only [Session.proceed, phase]
      rw [next]
      refine ⟨(List.append_nil _).symm.trans kept, fun i first => Or.inl ?_⟩
      exact List.mem_map_of_mem (List.mem_filter.mpr ⟨first, rfl⟩)
    | cons i left =>
      have next : s.proceed.phase = .asking left ∧
          s.proceed.asked = s.asked ++ [(i, (s.live.requestStop i).1)] := by
        simp only [Session.proceed, phase, and_self]
      rw [next.1, Kept, next.2, indexes, ← kept, List.map_append, List.append_assoc]
      rfl
  | waiting left =>
    rw [phase] at kept
    cases left with
    | nil =>
      have next : s.proceed = { s with phase := .cleaning s.live.knobs } := by
        simp only [Session.proceed, phase]
      rw [next]
      exact ⟨kept.1, fun i first => (kept.2 i first).resolve_left List.not_mem_nil⟩
    | cons i left =>
      have next : s.proceed = { s with phase := .waiting left } := by
        simp only [Session.proceed, phase]
      have ended : s.Over i := admitted i (by rw [phase]; rfl)
      rw [next]
      refine ⟨kept.1, fun j first => ?_⟩
      rcases kept.2 j first with later | gone
      · rcases List.mem_cons.mp later with rfl | later
        · exact Or.inr ended
        · exact Or.inl later
      · exact Or.inr gone
  | cleaning left =>
    rw [phase] at kept
    have asked : s.proceed.asked = s.asked := by
      cases left <;> simp only [Session.proceed, phase]
    have onward : s.proceed.Kept .closed := kept.stay asked indexes gone
    cases left with
    | nil =>
      have next : s.proceed.phase = .closed := by simp only [Session.proceed, phase]
      rw [next]
      exact onward
    | cons k left =>
      have next : s.proceed.phase = .cleaning left := by simp only [Session.proceed, phase]
      rw [next]
      exact onward
  | closed =>
    have same : s.proceed = s := by simp only [Session.proceed, phase]
    rwa [same]

/-- Every event leaves the control where it is, or takes it a step further. -/
theorem Kept.after (kept : s.Kept s.phase) (admitted : s.Admits v) :
    (s.after v).Kept (s.after v).phase := by
  have gone : ∀ i, s.Over i → (s.after v).Over i := fun i gone => gone.after v
  have indexes := s.indexes_after v
  cases v with
  | engine i u =>
    have same : (s.after (.engine i u)).phase = s.phase ∧
        (s.after (.engine i u)).asked = s.asked := by
      rw [Session.after]
      split <;> exact ⟨rfl, rfl⟩
    rw [same.1]
    exact kept.stay same.2 indexes gone
  | clock now => exact kept.stay rfl indexes gone
  | close =>
    rw [Session.after]
    split
    · rename_i running
      rw [running] at kept
      have asked : s.asked = [] := kept
      change List.map Prod.fst s.asked ++ _ = _
      rw [asked]
      rfl
    · exact kept
  | proceed => exact kept.proceed admitted

theorem asked_after (s : Session μ) (v : Event) : (s.after v).asked = s.asked ∨
    ∃ i left, v = .proceed ∧ s.phase = .asking (i :: left) ∧
      (s.after v).asked = s.asked ++ [(i, (s.live.requestStop i).1)] := by
  cases v with
  | engine i u =>
    rw [after]
    split <;> exact Or.inl rfl
  | clock now => exact Or.inl rfl
  | close =>
    rw [after]
    split <;> exact Or.inl rfl
  | proceed =>
    change s.proceed.asked = _ ∨ ∃ i left, _ ∧ _ ∧ s.proceed.asked = _
    rw [proceed]
    split
    case h_3 i left asking => exact Or.inr ⟨i, left, rfl, asking, rfl⟩
    all_goals exact Or.inl rfl

/-- Nobody but the control has asked engine `i` to end. -/
def Own (s : Session μ) (i : Nat) : Prop := ∀ e ∈ s.live.engine? i,
  (e.claimed = true → (i, true) ∈ s.asked) ∧ ((i, false) ∈ s.asked → (i, true) ∈ s.asked)

theorem Own.after (own : s.Own i) (other : v ≠ .engine i .requestStop) : (s.after v).Own i := by
  intro e' there
  obtain ⟨e, here, change⟩ := engine_after there
  obtain ⟨claimed, again⟩ := own e here
  have first : (s.live.requestStop i).1 = !e.claimed := by
    rw [Live.requestStop_first, here]
    rfl
  rcases s.asked_after v with same | ⟨j, left, rfl, asking, asked⟩
  · rw [same]
    refine ⟨fun claims => claimed ?_, again⟩
    rcases change with rfl | ⟨w, u, rfl, rfl⟩ | ⟨left, rfl, asking, rfl⟩
    · exact claims
    · have before := Engine.claimed_after (e := e) w (v := u) fun stop => other (by rw [stop])
      rwa [before] at claims
    · have asked : s.proceed.asked = s.asked ++ [(i, (s.live.requestStop i).1)] := by
        simp only [Session.proceed, asking]
      have length := congrArg List.length (asked.symm.trans same)
      simp at length
  · rw [asked]
    by_cases mine : j = i
    · subst mine
      have told : (j, true) ∈ s.asked ++ [(j, (s.live.requestStop j).1)] := by
        rw [first]
        cases claims : e.claimed with
        | true => exact List.mem_append_left _ (claimed claims)
        | false => exact List.mem_append_right _ List.mem_cons_self
      exact ⟨fun _ => told, fun _ => told⟩
    · have same : e' = e := by
        rcases change with same | ⟨w, u, differs, -⟩ | ⟨left', -, asking', -⟩
        · exact same
        · cases differs
        · rw [asking] at asking'
          cases asking'
          exact absurd rfl mine
      have old : ∀ b, (i, b) ∈ s.asked ++ [(j, (s.live.requestStop j).1)] ↔ (i, b) ∈ s.asked := by
        simp [Ne.symm mine]
      rw [old, old, same]
      exact own e here

/-! ## The way to the cleanup -/

omit [Machine μ] in
theorem admits_of_free (free : s.phase.awaited? = none) : s.Admits .proceed := by
  intro i awaited
  rw [free] at awaited
  cases awaited

omit [Machine μ] in
theorem admits_of_over {left : List Nat} (waiting : s.phase = .waiting (i :: left))
    (gone : s.Over i) : s.Admits .proceed := by
  intro j awaited
  rw [waiting] at awaited
  cases awaited
  exact gone

/-- Asking takes nobody else. -/
theorem play_asking {left : List Nat} (asking : s.phase = .asking left) :
    (sessions μ).AdmitsAll s (List.replicate left.length .proceed) ∧
      (sessions μ).play s (List.replicate left.length .proceed) =
        { live := (s.live.requestStops left).2
          phase := .asking []
          asked := s.asked ++ (s.live.requestStops left).1 } := by
  induction left generalizing s with
  | nil =>
    refine ⟨trivial, ?_⟩
    change s = { live := s.live, phase := .asking [], asked := s.asked ++ [] }
    rw [List.append_nil, ← asking]
  | cons i left ih =>
    have next : s.proceed =
        { live := (s.live.requestStop i).2
          phase := .asking left
          asked := s.asked ++ [(i, (s.live.requestStop i).1)] } := by
      simp only [Session.proceed, asking]
    obtain ⟨admitted, played⟩ := ih (s := s.proceed) (by rw [next])
    refine ⟨⟨admits_of_free (by rw [asking]; rfl), admitted⟩, played.trans ?_⟩
    rw [next]
    simp only [Live.requestStops, List.append_assoc, List.singleton_append]

/-- Nor does waiting for engines that have ended. -/
theorem play_waiting {left : List Nat} (waiting : s.phase = .waiting left)
    (gone : ∀ i ∈ left, s.Over i) :
    (sessions μ).AdmitsAll s (List.replicate left.length .proceed) ∧
      (sessions μ).play s (List.replicate left.length .proceed) =
        { s with phase := .waiting [] } := by
  induction left generalizing s with
  | nil =>
    refine ⟨trivial, ?_⟩
    change s = _
    rw [← waiting]
  | cons i left ih =>
    have next : s.proceed = { s with phase := .waiting left } := by
      simp only [Session.proceed, waiting]
    obtain ⟨admitted, played⟩ := ih (s := s.proceed) (by rw [next]) (by
      rw [next]
      exact fun j later => gone j (List.mem_cons_of_mem i later))
    refine ⟨⟨admits_of_over waiting (gone i List.mem_cons_self), admitted⟩, played.trans ?_⟩
    rw [next]

/-- A control that begins with the end has asked all engines before it waits for one. -/
theorem play_close (running : s.phase = .running) (nobody : s.asked = []) :
    let requested := s.live.requestStops (s.live.engines.map Prod.fst)
    let us := .close :: List.replicate (s.live.engines.length + 1) .proceed
    (sessions μ).AdmitsAll s us ∧ (sessions μ).play s us =
      { live := requested.2
        phase := .waiting ((requested.1.filter Prod.snd).map Prod.fst)
        asked := requested.1 } := by
  intro requested us
  let s₁ : Session μ := { s with phase := .asking (s.live.engines.map Prod.fst) }
  have begun : (sessions μ).after s .close = s₁ := by
    rw [sessions_after, after, running]
  obtain ⟨admitted, played⟩ := play_asking (s := s₁) rfl
  rw [List.length_map] at admitted played
  have first : (sessions μ).play s (.close :: List.replicate s.live.engines.length .proceed) =
      { live := requested.2, phase := .asking [], asked := requested.1 } := by
    refine (congrArg ((sessions μ).play · _) begun).trans (played.trans ?_)
    simp only [s₁, nobody, List.nil_append, requested]
  have split : us = (.close :: List.replicate s.live.engines.length .proceed) ++ [.proceed] := by
    rw [List.cons_append, ← List.replicate_succ']
  rw [split, System.admitsAll_append, System.play_append, first]
  refine ⟨⟨⟨trivial, ?_⟩, admits_of_free rfl, trivial⟩, rfl⟩
  rwa [begun]

/-- The control gets to the cleanup without any engine, if each has ended or was asked to. -/
theorem play_cleanup (running : s.phase = .running) (nobody : s.asked = [])
    (free : ∀ i, ∀ e ∈ s.live.engine? i, e.claimed = true ∨ e.ended = true) :
    ∃ n, let us := .close :: List.replicate n .proceed
      (sessions μ).AdmitsAll s us ∧
      ((sessions μ).play s us).phase = .cleaning s.live.knobs ∧
      ∀ i, (((sessions μ).play s us).live.engine? i).map (fun e => (e.loop, e.ending)) =
        (s.live.engine? i).map fun e => (e.loop, e.ending) := by
  let requested := s.live.requestStops (s.live.engines.map Prod.fst)
  let own := (requested.1.filter Prod.snd).map Prod.fst
  let s₁ : Session μ := { live := requested.2, phase := .waiting own, asked := requested.1 }
  obtain ⟨admitted, played⟩ := play_close running nobody
  have played : (sessions μ).play s
      (.close :: List.replicate (s.live.engines.length + 1) .proceed) = s₁ := played
  have same : ∀ i, (requested.2.engine? i).map (fun e => (e.loop, e.ending)) =
      (s.live.engine? i).map fun e => (e.loop, e.ending) :=
    fun i => s.live.engine?_requestStops i _
  have gone : ∀ i ∈ own, s₁.Over i := by
    intro i mine e' there
    obtain ⟨⟨j, first⟩, asked, rfl⟩ := List.mem_map.mp mine
    obtain ⟨asked, rfl⟩ := List.mem_filter.mp asked
    obtain ⟨e, here, unclaimed⟩ := s.live.unclaimed_of_requestStops j asked
    have past := (free j e here).resolve_left (by simp [unclaimed])
    have kept := same j
    rw [here, there] at kept
    have ending := (Prod.mk.inj (Option.some.inj kept)).2
    rwa [Engine.ended, ending]
  obtain ⟨admitted', played'⟩ := play_waiting (s := s₁) rfl gone
  refine ⟨s.live.engines.length + 1 + (own.length + 1), ?_⟩
  intro us
  have split : us = (.close :: List.replicate (s.live.engines.length + 1) .proceed) ++
      (List.replicate own.length .proceed ++ [.proceed]) := by
    rw [List.cons_append, ← List.replicate_succ', List.replicate_append_replicate]
  rw [split, System.admitsAll_append, System.play_append, played, System.admitsAll_append,
    System.play_append, played']
  refine ⟨⟨admitted, admitted', admits_of_free rfl, trivial⟩, ?_, same⟩
  exact congrArg Phase.cleaning (s.live.knobs_requestStops _)

/-! ## Every run -/

theorem Own.play {vs : List Event} (own : s.Own i) (others : .engine i .requestStop ∉ vs) :
    ((sessions μ).play s vs).Own i := by
  induction vs generalizing s with
  | nil => exact own
  | cons v vs ih =>
    obtain ⟨other, others⟩ := List.ne_and_not_mem_of_not_mem_cons others
    exact ih (own.after (Ne.symm other)) others

omit [Machine μ] in
/-- When the cleanup begins, all engines have been asked, and the control's own have ended. -/
theorem Kept.cleansUp (kept : s.Kept s.phase) (cleaning : s.phase.CleansUp) :
    s.asked.map Prod.fst = s.live.engines.map Prod.fst ∧
      ∀ i, (i, true) ∈ s.asked → s.Over i := by
  cases phase : s.phase with
  | running | asking | waiting =>
    rw [phase] at cleaning
    exact absurd cleaning not_false
  | cleaning | closed =>
    rw [phase] at kept
    exact kept

end Session

end QuorumLab
