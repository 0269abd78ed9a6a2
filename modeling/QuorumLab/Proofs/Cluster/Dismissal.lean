import QuorumLab.Machine.Rig
import QuorumLab.Proofs.Cluster.Moves

/-!
# What a dismissal collects

Engines that are dismissed together are all asked to end before one of them is waited for. Only
who is the first to ask an engine gets its driver to wait for; what the drivers end with is
collected under the positions at which their engines are listed first.
-/

namespace QuorumLab

/-- How far somebody is who dismisses engines. -/
structure Dismissal where
  /-- These are still to be asked. -/
  left : List Nat
  /-- These were asked, and gave their driver to be waited for or had none. -/
  asked : List (Nat × Bool) := []
  /-- How many of them have been waited for. -/
  waited : Nat := 0
  failures : List (Nat × Failure) := []

namespace Live

variable {μ : Type} {l : Live μ} {i : Nat}

/-- The driver of engine `i` is there for who asks next. -/
def Unclaimed (l : Live μ) (i : Nat) : Prop := ∃ e, l.engine? i = some e ∧ e.claimed = false

theorem requestStop_first_iff : (l.requestStop i).1 = true ↔ l.Unclaimed i := by
  rw [requestStop_first, Unclaimed]
  cases l.engine? i <;> simp

def failure? (l : Live μ) (i : Nat) : Option Failure := (l.engine? i).bind Engine.failure?

variable {ω : Type} [Machine μ] [Carrier ω]

/-- To ask an engine to end is a move. -/
theorem requestStop_moved (l : Live μ) (i : Nat) (w : ω) :
    (l.requestStop i).2 = l.moved (.engine i w .requestStop) := by
  rw [requestStop, moved]
  cases l.engine? i <;> rfl

theorem Unclaimed.of_moved {m : Move ω} (unclaimed : (l.moved m).Unclaimed i) :
    l.Unclaimed i := by
  obtain ⟨e', there, unclaimed⟩ := unclaimed
  rw [engine?_moved] at there
  obtain ⟨e, here, rfl⟩ := Option.map_eq_some_iff.mp there
  refine ⟨e, here, ?_⟩
  rw [← Bool.not_eq_true] at unclaimed ⊢
  exact fun claimed => unclaimed (m.act_keeps (P := fun e => e.claimed = true) claimed
    (fun w v claimed => Engine.claimed_after_of_claimed claimed w v) i)

/-- Only who asks for a driver takes it. -/
theorem Unclaimed.moved {m : Move ω} (unclaimed : l.Unclaimed i) (spares : m.Spares i) :
    (l.moved m).Unclaimed i := by
  obtain ⟨e, here, unclaimed⟩ := unclaimed
  refine ⟨m.act i e, by rw [engine?_moved, here]; rfl, ?_⟩
  cases m with
  | engine j w v =>
    rw [Move.act]
    split
    · rename_i same
      rw [Engine.claimed_after w (spares same.symm)]
      exact unclaimed
    · exact unclaimed
  | fabric | clock => exact unclaimed

end Live

namespace Dismissal

variable {μ ω : Type} [Machine μ] [Carrier ω]

/-- The engine that is waited for. -/
def awaited? (d : Dismissal) : Option Nat :=
  match d.left, d.asked[d.waited]? with
  | [], some (i, true) => some i
  | _, _ => none

/-- What is found of an engine that was asked, and when. -/
def collect (l : Live μ) (x : (Nat × Bool) × Nat) : Option (Nat × Failure) :=
  if x.1.2 then (l.failure? x.1.1).map (x.2, ·) else none

def step (l : Live μ) (d : Dismissal) : Live μ × Dismissal :=
  match d.left, d.asked[d.waited]? with
  | i :: left, _ =>
    ((l.requestStop i).2, { d with left, asked := d.asked ++ [(i, (l.requestStop i).1)] })
  | [], some x =>
    (l, { d with
      waited := d.waited + 1
      failures := d.failures ++ (collect l (x, d.waited)).toList })
  | [], none => (l, d)

/-- Nobody is left to be asked or waited for. -/
def Over (d : Dismissal) : Prop := d.left = [] ∧ d.asked.length ≤ d.waited

instance (d : Dismissal) : Decidable d.Over :=
  inferInstanceAs (Decidable (d.left = [] ∧ d.asked.length ≤ d.waited))

namespace Over

variable {d : Dismissal}

theorem awaited?_eq (finished : d.Over) : d.awaited? = none := by
  rw [awaited?, finished.1, List.getElem?_eq_none finished.2]

omit [Machine μ] in
theorem step_eq (finished : d.Over) (l : Live μ) : step l d = (l, d) := by
  rw [step, finished.1, List.getElem?_eq_none finished.2]

end Over

/-- To wait for an engine is to go on when it has ended. -/
def thread (μ : Type) : Thread μ Dismissal where
  ready l d := ∀ i ∈ d.awaited?, ∀ e ∈ l.engine? i, e.ended = true
  step := step

/-! ## One step -/

variable {l l₀ : Live μ} {d : Dismissal} {nodes : List Nat}

omit [Machine μ] in
theorem indexes_step (l : Live μ) (d : Dismissal) :
    (step l d).1.engines.map Prod.fst = l.engines.map Prod.fst := by
  rw [step]
  split
  · exact l.indexes_requestStop _
  · rfl
  · rfl

/-- How far a dismissal is, and what it knows. -/
structure Sound (l₀ : Live μ) (nodes : List Nat) (l : Live μ) (d : Dismissal) : Prop where
  order : d.asked.map Prod.fst ++ d.left = nodes
  patient : d.left ≠ [] → d.waited = 0
  within : d.waited ≤ d.asked.length
  lived : ∀ i, ∀ e ∈ l.engine? i, e.Lived
  claimed : ∀ i ∈ d.asked.map Prod.fst, ∀ e ∈ l.engine? i, e.claimed = true
  driver : ∀ i, (i, true) ∈ d.asked → ∃ e, l.engine? i = some e ∧ e.Leaving
  once : ∀ k i, d.asked[k]? = some (i, true) → i ∉ (d.asked.take k).map Prod.fst
  before : ∀ i, l.Unclaimed i → l₀.Unclaimed i
  given : ∀ i, (i, true) ∈ d.asked → l₀.Unclaimed i
  gone : ∀ x ∈ d.asked.zipIdx.take d.waited, x.1.2 = true →
    ∀ e ∈ l.engine? x.1.1, e.ended = true
  collected : d.failures = (d.asked.zipIdx.take d.waited).filterMap (collect l)

namespace Sound

theorem start (lived : ∀ i, ∀ e ∈ l.engine? i, e.Lived) : Sound l nodes l { left := nodes } where
  order := rfl
  patient _ := rfl
  within := Nat.le_refl _
  lived := lived
  claimed _ none := absurd none List.not_mem_nil
  driver _ none := absurd none List.not_mem_nil
  once _ _ none := nomatch none
  before _ unclaimed := unclaimed
  given _ none := absurd none List.not_mem_nil
  gone _ none := absurd none List.not_mem_nil
  collected := rfl

/-- Moves take nothing back. -/
theorem moved (h : Sound l₀ nodes l d) (m : Live.Move ω) : Sound l₀ nodes (l.moved m) d := by
  have keeps {P : Engine Replica μ → Prop} {i : Nat}
      (kept : ∀ {e : Engine Replica μ} (w : ω) (v : Event ω), P e → P (e.after w v).1)
      (holds : ∀ e ∈ l.engine? i, P e) : ∀ e ∈ (l.moved m).engine? i, P e :=
    Live.engine?_moves_keeps kept holds [m]
  refine { h with
    lived := ?_, claimed := ?_, driver := ?_, before := ?_, gone := ?_, collected := ?_ }
  · exact fun i => keeps (fun w v lived => lived.after w v) (h.lived i)
  · exact fun i hi => keeps (fun w v claimed => Engine.claimed_after_of_claimed claimed w v)
      (h.claimed i hi)
  · intro i first
    obtain ⟨e, here, leaving⟩ := h.driver i first
    refine ⟨m.act i e, by rw [Live.engine?_moved, here]; rfl, ?_⟩
    exact m.act_keeps leaving (fun w v leaving => leaving.after w v) i
  · exact fun i unclaimed => h.before i unclaimed.of_moved
  · exact fun x hx first => keeps (fun w v past => Engine.ended_after past w v) (h.gone x hx first)
  · rw [h.collected]
    apply List.filterMap_congr
    intro x hx
    have same : x.1.2 = true → (l.moved m).failure? x.1.1 = l.failure? x.1.1 := by
      intro first
      rw [Live.failure?, Live.failure?, Live.engine?_moved]
      cases here : l.engine? x.1.1 with
      | none => rfl
      | some e =>
        have past := h.gone x hx first e here
        exact (m.act_keeps (P := fun e' => e'.ended = true ∧ e'.failure? = e.failure?)
          ⟨past, rfl⟩ (fun w v ⟨past, same⟩ =>
            ⟨Engine.ended_after past w v, (Engine.failure?_after past w v).trans same⟩) x.1.1).2
    rw [collect, collect]
    split
    · rename_i first
      rw [same first]
    · rfl

/-- The next engine is asked. -/
theorem ask (h : Sound l₀ nodes l d) {i : Nat} {left : List Nat} (next : d.left = i :: left) :
    Sound l₀ nodes (l.requestStop i).2
      { d with left, asked := d.asked ++ [(i, (l.requestStop i).1)] } := by
  have nobody : d.waited = 0 := h.patient (by rw [next]; exact List.cons_ne_nil i left)
  have asked := h.moved (.engine i (default : Station) .requestStop)
  rw [← l.requestStop_moved] at asked
  have names : (d.asked ++ [(i, (l.requestStop i).1)]).map Prod.fst =
      d.asked.map Prod.fst ++ [i] := by rw [List.map_append, List.map_singleton]
  constructor
  case order =>
    rw [names, List.append_assoc, ← h.order, next]
    rfl
  case patient => exact fun _ => nobody
  case within => exact nobody ▸ Nat.zero_le _
  case lived => exact asked.lived
  case claimed =>
    intro j hj e' there
    rw [names] at hj
    rcases List.mem_append.mp hj with before | now
    · exact asked.claimed j before e' there
    · obtain rfl := List.mem_singleton.mp now
      rw [Option.mem_def, Live.engine?_requestStop, if_pos rfl] at there
      obtain ⟨e, -, rfl⟩ := Option.map_eq_some_iff.mp there
      exact e.requestStop_spec.2.1
  case driver =>
    intro j first
    rcases List.mem_append.mp first with before | now
    · exact asked.driver j before
    · obtain ⟨rfl, given⟩ := Prod.mk.inj (List.mem_singleton.mp now)
      obtain ⟨e, here, unclaimed⟩ := Live.requestStop_first_iff.mp given.symm
      refine ⟨e.requestStop.2, ?_, Engine.leaving_requestStop unclaimed⟩
      rw [Live.engine?_requestStop, if_pos rfl, here]
      rfl
  case once =>
    intro k j first
    rw [List.getElem?_append] at first
    split at first
    · rename_i old
      rw [List.take_append_of_le_length (Nat.le_of_lt old)]
      exact h.once k j first
    · rename_i new
      rw [List.getElem?_singleton] at first
      split at first
      · rename_i last
        obtain ⟨rfl, given⟩ := Prod.mk.inj (Option.some.inj first)
        obtain rfl : k = d.asked.length := by omega
        rw [List.take_left]
        intro before
        obtain ⟨e, here, unclaimed⟩ := Live.requestStop_first_iff.mp given
        rw [h.claimed i before e here] at unclaimed
        cases unclaimed
      · cases first
  case before => exact asked.before
  case given =>
    intro j first
    rcases List.mem_append.mp first with before | now
    · exact h.given j before
    · obtain ⟨rfl, given⟩ := Prod.mk.inj (List.mem_singleton.mp now)
      exact h.before j (Live.requestStop_first_iff.mp given.symm)
  case gone =>
    intro x hx
    rw [nobody] at hx
    exact absurd hx List.not_mem_nil
  case collected =>
    have none_yet := h.collected
    rw [nobody] at none_yet
    rw [none_yet, nobody]
    rfl

/-- The next engine has ended, or had no driver to wait for. -/
theorem wait (h : Sound l₀ nodes l d) (all : d.left = []) {x : Nat × Bool}
    (next : d.asked[d.waited]? = some x)
    (ready : x.2 = true → ∀ e ∈ l.engine? x.1, e.ended = true) :
    Sound l₀ nodes l { d with
      waited := d.waited + 1
      failures := d.failures ++ (collect l (x, d.waited)).toList } := by
  have more : d.asked.zipIdx.take (d.waited + 1) =
      d.asked.zipIdx.take d.waited ++ [(x, d.waited)] := by
    rw [List.take_add_one, List.getElem?_zipIdx, next]
    simp
  refine { h with patient := ?_, within := ?_, gone := ?_, collected := ?_ }
  · exact fun some_left => absurd all some_left
  · exact (List.getElem?_eq_some_iff.mp next).1
  · intro y hy
    rw [more] at hy
    rcases List.mem_append.mp hy with before | now
    · exact h.gone y before
    · obtain rfl := List.mem_singleton.mp now
      exact ready
  · rw [more, List.filterMap_append, ← h.collected]
    rfl

theorem step (h : Sound l₀ nodes l d) (ready : (thread μ).ready l d) :
    Sound l₀ nodes ((thread μ).step l d).1 ((thread μ).step l d).2 := by
  change Sound l₀ nodes (Dismissal.step l d).1 (Dismissal.step l d).2
  rw [Dismissal.step]
  split
  · rename_i i left next
    exact h.ask next
  · rename_i x all next
    apply h.wait all next
    intro first
    apply ready
    rw [awaited?, all, next]
    obtain ⟨i, b⟩ := x
    cases first
    rfl
  · exact h

theorem after (h : Sound l₀ nodes l d) {v : Option (Live.Move ω)}
    (admitted : ((thread μ).amid ω).admits (l, d) v) :
    Sound l₀ nodes (((thread μ).amid ω).after (l, d) v).1 (((thread μ).amid ω).after (l, d) v).2 := by
  cases v with
  | none => exact h.step admitted
  | some m => exact h.moved m

/-- The engines that were listed before. -/
theorem take_asked (h : Sound l₀ nodes l d) {k : Nat} (inside : k ≤ d.asked.length) :
    (d.asked.take k).map Prod.fst = nodes.take k := by
  rw [← h.order, List.take_append_of_le_length (by rwa [List.length_map]), List.map_take]

/-- A driver that somebody has is not given again. -/
theorem none_given (h : Sound l₀ nodes l d) (claimed : ∀ i ∈ nodes, ¬l₀.Unclaimed i) (i : Nat) :
    (i, true) ∉ d.asked := by
  intro first
  refine claimed i ?_ (h.given i first)
  rw [← h.order]
  exact List.mem_append_left _ (List.mem_map_of_mem first)

/-- Who finds no driver to wait for collects nothing. -/
theorem nothing (h : Sound l₀ nodes l d) (claimed : ∀ i ∈ nodes, ¬l₀.Unclaimed i) :
    d.awaited? = none ∧ d.failures = [] := by
  constructor
  · rw [awaited?]
    split
    · rename_i i _ next
      exact absurd (List.mem_of_getElem? next) (h.none_given claimed i)
    · rfl
  · rw [h.collected, List.filterMap_eq_nil_iff]
    intro x hx
    have listed : x.1 ∈ d.asked := List.fst_mem_of_mem_zipIdx (List.mem_of_mem_take hx)
    rw [collect, if_neg]
    intro first
    exact h.none_given claimed x.1.1 (first ▸ listed)

/-- When it is over, all who gave their driver have ended. -/
theorem ended (h : Sound l₀ nodes l d) (finished : d.Over) {i : Nat} (first : (i, true) ∈ d.asked) :
    ∃ e, l.engine? i = some e ∧ e.ended = true ∧ e.published.state = .shutdown := by
  obtain ⟨e, here, -⟩ := h.driver i first
  obtain ⟨k, there⟩ := List.mem_iff_getElem?.mp first
  have listed : ((i, true), k) ∈ d.asked.zipIdx.take d.waited := by
    rw [List.take_of_length_le (by rw [List.length_zipIdx]; exact finished.2)]
    exact List.mk_mem_zipIdx_iff_getElem?.mpr there
  have past := h.gone _ listed rfl e here
  exact ⟨e, here, past, (h.lived i e here).state_of_ended past⟩

end Sound

/-- Nobody else asks engine `i` to end. -/
structure Alone (l₀ : Live μ) (i : Nat) (l : Live μ) (d : Dismissal) : Prop where
  fresh : i ∉ d.asked.map Prod.fst → l₀.Unclaimed i → l.Unclaimed i
  taken : ∀ k first, d.asked[k]? = some (i, first) → i ∉ (d.asked.take k).map Prod.fst →
    l₀.Unclaimed i → first = true

omit [Machine μ] in
theorem Alone.start {i : Nat} : Alone l i l { left := nodes } :=
  ⟨fun _ unclaimed => unclaimed, fun _ _ none => nomatch none⟩

theorem Alone.after {i : Nat} (h : Alone l₀ i l d) {v : Option (Live.Move ω)}
    (spares : ∀ m ∈ v, m.Spares i) :
    Alone l₀ i (((thread μ).amid ω).after (l, d) v).1 (((thread μ).amid ω).after (l, d) v).2 := by
  cases v with
  | some m =>
    exact ⟨fun unasked unclaimed => (h.fresh unasked unclaimed).moved (spares m rfl), h.taken⟩
  | none =>
    change Alone l₀ i (step l d).1 (step l d).2
    rw [step]
    split
    · rename_i j left next
      constructor
      case fresh =>
        intro unasked unclaimed
        rw [List.map_append, List.mem_append, not_or] at unasked
        have other : j ≠ i := fun same => unasked.2 (by simp [same])
        rw [l.requestStop_moved j (default : Station)]
        exact (h.fresh unasked.1 unclaimed).moved fun same => absurd same other
      case taken =>
        intro k first there new unclaimed
        rw [List.getElem?_append] at there
        split at there
        · rename_i old
          rw [List.take_append_of_le_length (Nat.le_of_lt old)] at new
          exact h.taken k first there new unclaimed
        · rw [List.getElem?_singleton] at there
          split at there
          · rename_i last
            obtain ⟨rfl, rfl⟩ := Prod.mk.inj (Option.some.inj there)
            obtain rfl : k = d.asked.length := by omega
            rw [List.take_left] at new
            exact Live.requestStop_first_iff.mpr (h.fresh new unclaimed)
          · cases there
    · exact ⟨h.fresh, h.taken⟩
    · exact h

/-- Then its driver is given, if anybody could have it. -/
theorem Alone.given {i : Nat} (alone : Alone l₀ i l d) (sound : Sound l₀ nodes l d)
    (all : d.left = []) (listed : i ∈ nodes) (unclaimed : l₀.Unclaimed i) :
    (i, true) ∈ d.asked := by
  have asked : i ∈ d.asked.map Prod.fst := by
    rwa [← sound.order, all, List.append_nil] at listed
  -- where engine `i` is listed first
  obtain ⟨names, others, split, new⟩ := List.eq_append_cons_of_mem asked
  obtain ⟨before, behind, whole, named, at_i⟩ := List.map_eq_append_iff.mp split
  obtain ⟨⟨j, first⟩, rest, rfl, rfl, -⟩ := List.map_eq_cons_iff.mp at_i
  have there : d.asked[before.length]? = some (j, first) := by simp [whole]
  obtain rfl : first = true := by
    apply alone.taken before.length first there _ unclaimed
    rw [whole, List.take_left, named]
    exact new
  exact List.mem_of_getElem? there

/-! ## Dismissals at one go -/

/-- What is found at one position, and what at those behind it. -/
theorem joins_cons (k i : Nat) (first : Bool) (requested : List (Nat × Bool)) (l : Live μ) :
    let l' := if first then l.obey i else l
    Live.joins k ((i, first) :: requested) l =
      ((collect l' ((i, first), k)).toList ++ (Live.joins (k + 1) requested l').1,
        (Live.joins (k + 1) requested l').2) := by
  cases first with
  | false => rfl
  | true =>
    have found : ((l.obey i).engine? i |>.bind Engine.result?).getD (.ok ()) =
        Engine.toResult ((l.obey i).failure? i) := by
      rw [Live.failure?]
      cases (l.obey i).engine? i with
      | none => rfl
      | some e => exact e.result?_eq
    simp only [Live.joins, Live.join, if_true, found, collect]
    cases (l.obey i).failure? i <;> rfl

/-- Asking is a run. -/
theorem reaches_requestStops (left : List Nat) (asked : List (Nat × Bool)) :
    (thread μ).Reaches (l, { left, asked })
      ((l.requestStops left).2, { left := [], asked := asked ++ (l.requestStops left).1 }) := by
  induction left generalizing l asked with
  | nil =>
    rw [Live.requestStops, List.append_nil]
    exact .refl
  | cons i left ih =>
    have rest := ih (l := (l.requestStop i).2) (asked ++ [(i, (l.requestStop i).1)])
    rw [List.append_assoc] at rest
    exact Thread.Reaches.trans (.own (by rintro j ⟨⟩) rfl) rest

/-- Waiting is a run, if each engine that is waited for will end. -/
theorem reaches_joins {requested : List (Nat × Bool)} (asked : List (Nat × Bool))
    (failures : List (Nat × Failure))
    (ends : ∀ i, (i, true) ∈ requested →
      ∃ n, (Machine.Prompt μ ∨ n ≤ 1) ∧ l.Stopping n i) :
    (thread μ).Reaches
      (l, { left := [], asked := asked ++ requested, waited := asked.length, failures })
      ((Live.joins asked.length requested l).2, {
        left := []
        asked := asked ++ requested
        waited := (asked ++ requested).length
        failures := failures ++ (Live.joins asked.length requested l).1 }) := by
  induction requested generalizing l asked failures with
  | nil =>
    rw [Live.joins, List.append_nil, List.append_nil]
    exact .refl
  | cons x requested ih =>
    obtain ⟨i, first⟩ := x
    let l' := if first then l.obey i else l
    obtain ⟨ms, spares, moved, others, gone⟩ : ∃ ms : List (Live.Move Station),
        (∀ m ∈ ms, ∀ j, m.Spares j) ∧ l' = l.moves ms ∧
        (∀ j ≠ i, l'.engine? j = l.engine? j) ∧
        (first = true → ∀ e ∈ l'.engine? i, e.ended = true) := by
      cases first with
      | false => exact ⟨[], List.forall_mem_nil _, rfl, fun _ _ => rfl, Bool.noConfusion⟩
      | true =>
        obtain ⟨n, unhindered, stopping⟩ := ends i List.mem_cons_self
        obtain ⟨ms, spares, moved, others, gone⟩ := l.obey_moves i
        exact ⟨ms, spares, moved, others, fun _ => gone n unhindered stopping⟩
    have ends' : ∀ j, (j, true) ∈ requested →
        ∃ n, (Machine.Prompt μ ∨ n ≤ 1) ∧ l'.Stopping n j := by
      intro j mine
      obtain ⟨n, unhindered, stopping⟩ := ends j (List.mem_cons_of_mem _ mine)
      cases first with
      | false => exact ⟨n, unhindered, stopping⟩
      | true =>
        by_cases same : j = i
        · subst same
          exact ⟨0, Or.inr (Nat.zero_le 1), fun e here => Or.inl (gone rfl e here)⟩
        · refine ⟨n, unhindered, fun e here => stopping e ?_⟩
          rw [← others j same]
          exact here
    let d : Dismissal :=
      { left := [], asked := asked ++ (i, first) :: requested, waited := asked.length, failures }
    let found := (collect l' ((i, first), asked.length)).toList
    have next : d.asked[d.waited]? = some (i, first) := by simp [d]
    have ready : (thread μ).ready l' d := by
      intro j awaited
      cases first with
      | false =>
        rw [awaited?, next] at awaited
        cases awaited
      | true =>
        rw [awaited?, next] at awaited
        cases awaited
        exact gone rfl
    have stepped : step l' d =
        (l', { d with waited := asked.length + 1, failures := failures ++ found }) := by
      rw [step, next]
    have waited : (thread μ).Reaches (l, d) (l', d) := moved ▸ .moves ms spares
    have rest := ih (l := l') (asked ++ [(i, first)]) (failures ++ found) ends'
    rw [← List.append_cons, List.length_append, List.length_singleton] at rest
    rw [joins_cons, ← List.append_assoc failures]
    exact waited.trans (Thread.Reaches.trans (.own ready stepped) rest)

/-- A dismissal at one go is a run in which nobody else asks for an end. -/
theorem reaches_shutdownAll (l : Live μ) (nodes : List Nat)
    (ends : ∀ i, (i, true) ∈ (l.requestStops nodes).1 →
      ∃ n, (Machine.Prompt μ ∨ n ≤ 1) ∧ (l.requestStops nodes).2.Stopping n i) :
    ∃ d : Dismissal, (thread μ).Reaches (l, { left := nodes }) ((l.shutdownAll nodes).2, d) ∧
      d.Over ∧ d.failures = (l.shutdownAll nodes).1 := by
  let requested := (l.requestStops nodes).1
  let d : Dismissal :=
    { left := [], asked := requested, waited := requested.length
      failures := (l.shutdownAll nodes).1 }
  have asking := reaches_requestStops (l := l) nodes []
  have waiting := reaches_joins [] [] ends
  exact ⟨d, asking.trans waiting, ⟨rfl, Nat.le_refl _⟩, rfl⟩

/-! ## Every dismissal -/

theorem sound_play (lived : ∀ i, ∀ e ∈ l₀.engine? i, e.Lived) {vs : List (Option (Live.Move ω))}
    (admitted : ((thread μ).amid ω).AdmitsAll (l₀, { left := nodes }) vs) :
    Sound l₀ nodes (((thread μ).amid ω).play (l₀, { left := nodes }) vs).1
      (((thread μ).amid ω).play (l₀, { left := nodes }) vs).2 :=
  (System.reachable_play .start admitted).invariant (P := fun s => Sound l₀ nodes s.1 s.2)
    (.start lived) fun sound admitted => sound.after admitted

theorem alone_play {i : Nat} {vs : List (Option (Live.Move ω))}
    (admitted : ((thread μ).amid ω).AdmitsAll (l₀, { left := nodes }) vs)
    (spares : ∀ v ∈ vs, ∀ m ∈ v, m.Spares i) :
    Alone l₀ i (((thread μ).amid ω).play (l₀, { left := nodes }) vs).1
      (((thread μ).amid ω).play (l₀, { left := nodes }) vs).2 :=
  System.play_invariant (P := fun s => Alone l₀ i s.1 s.2) .start admitted spares
    fun alone _ spares => alone.after spares

/-- Once all were asked, nobody who dismisses them again waits for one or collects anything. -/
theorem nothing_again (sound : Sound l₀ nodes l d) (all : d.left = []) (ms : List (Live.Move ω))
    {again : List Nat} (subset : again ⊆ nodes) :
    ((l.moves ms).shutdownAll again).1 = [] ∧
      ∀ us : List (Option (Live.Move ω)),
        ((thread μ).amid ω).AdmitsAll (l.moves ms, { left := again }) us →
        let d' := (((thread μ).amid ω).play (l.moves ms, { left := again }) us).2
        d'.awaited? = none ∧ d'.failures = [] := by
  have claimed : ∀ i ∈ again, ¬(l.moves ms).Unclaimed i := by
    rintro i hi ⟨e, there, unclaimed⟩
    have asked : i ∈ d.asked.map Prod.fst := by
      have listed := subset hi
      rwa [← sound.order, all, List.append_nil] at listed
    have taken := Live.engine?_moves_keeps (P := fun e => e.claimed = true)
      (fun w v claimed => Engine.claimed_after_of_claimed claimed w v) (sound.claimed i asked) ms
    rw [taken e there] at unclaimed
    cases unclaimed
  have lived : ∀ i, ∀ e ∈ (l.moves ms).engine? i, e.Lived := fun i =>
    Live.engine?_moves_keeps (fun w v lived => lived.after w v) (sound.lived i) ms
  constructor
  · obtain ⟨_, -, asking, asked⟩ := reaches_requestStops (l := l.moves ms) again []
    have nobody := sound_play lived asking
    rw [asked] at nobody
    obtain ⟨d', ⟨us, -, admitted, played⟩, -, collected⟩ :=
      reaches_shutdownAll _ _ fun i first => absurd first (nobody.none_given claimed i)
    have sound' := sound_play lived admitted
    rw [played] at sound'
    rw [← collected, (sound'.nothing claimed).2]
  · exact fun us admitted => (sound_play lived admitted).nothing claimed

/-- Whatever goes on meanwhile, a dismissal asks all of its engines before it waits for one. The
driver is given to who lists the engine first, and only if nobody had it before; if nobody else
asks meanwhile, then always. When the dismissal is over, these drivers have ended, their engines
say so, and each failure they ended with is collected once, in order of position. Whoever
dismisses some of these engines again waits for nobody and collects nothing. A dismissal at one
go is one of these runs, where no machine holds its engine up. -/
theorem failures_collected_once (lived : ∀ i, ∀ e ∈ l₀.engine? i, e.Lived)
    {vs : List (Option (Live.Move ω))}
    (admitted : ((thread μ).amid ω).AdmitsAll (l₀, { left := nodes }) vs) :
    let l := (((thread μ).amid ω).play (l₀, { left := nodes }) vs).1
    let d := (((thread μ).amid ω).play (l₀, { left := nodes }) vs).2
    (0 < d.waited → d.left = []) ∧
    (∀ i, (i, true) ∈ d.asked → ∃ e, l.engine? i = some e ∧ e.Leaving) ∧
    (∀ k i first, d.asked[k]? = some (i, first) →
      (first = true → i ∉ nodes.take k ∧ l₀.Unclaimed i) ∧
      ((∀ v ∈ vs, ∀ m ∈ v, m.Spares i) → i ∉ nodes.take k → l₀.Unclaimed i → first = true)) ∧
    (d.Over → d.asked.map Prod.fst = nodes ∧
      (∀ i, (i, true) ∈ d.asked → ∃ e, l.engine? i = some e ∧ e.ended = true ∧
        e.published.state = .shutdown) ∧
      d.failures = d.asked.zipIdx.filterMap (collect l)) ∧
    (d.left = [] → ∀ ms : List (Live.Move ω), ∀ again ⊆ nodes,
      ((l.moves ms).shutdownAll again).1 = [] ∧
      ∀ us : List (Option (Live.Move ω)),
        ((thread μ).amid ω).AdmitsAll (l.moves ms, { left := again }) us →
        let d' := (((thread μ).amid ω).play (l.moves ms, { left := again }) us).2
        d'.awaited? = none ∧ d'.failures = []) ∧
    (Machine.Prompt μ → (∀ i, ∀ e ∈ l₀.engine? i, e.ended = true ∨ e.resting = true) →
      ∃ us : List (Option (Live.Move Station)), (∀ v ∈ us, ∀ m ∈ v, ∀ i, m.Spares i) ∧
        ((thread μ).amid Station).AdmitsAll (l₀, { left := nodes }) us ∧
        ∃ d' : Dismissal, ((thread μ).amid Station).play (l₀, { left := nodes }) us =
          ((l₀.shutdownAll nodes).2, d') ∧ d'.Over ∧ d'.failures = (l₀.shutdownAll nodes).1) := by
  intro l d
  have sound : Sound l₀ nodes l d := sound_play lived admitted
  refine ⟨?_, sound.driver, ?_, ?_, ?_, ?_⟩
  · intro some_waited
    by_contra some_left
    exact absurd (sound.patient some_left) (Nat.ne_of_gt some_waited)
  · intro k i first there
    have inside : k < d.asked.length := (List.getElem?_eq_some_iff.mp there).1
    rw [← sound.take_asked (Nat.le_of_lt inside)]
    constructor
    · rintro rfl
      exact ⟨sound.once k i there, sound.given i (List.mem_of_getElem? there)⟩
    · intro spares new unclaimed
      have alone : Alone l₀ i l d := alone_play admitted fun v hv m hm => spares v hv m hm
      exact alone.taken k first there new unclaimed
  · rintro ⟨all, waited⟩
    have whole : d.asked.zipIdx.take d.waited = d.asked.zipIdx :=
      List.take_of_length_le (by rwa [List.length_zipIdx])
    refine ⟨?_, ?_, whole ▸ sound.collected⟩
    · rw [← sound.order, all, List.append_nil]
    · exact fun i first => sound.ended ⟨all, waited⟩ first
  · exact fun all ms again subset => nothing_again sound all ms subset
  · intro prompt awake
    obtain ⟨d', ⟨us, spares, admitted, played⟩, finished⟩ :=
      reaches_shutdownAll l₀ nodes fun i first => by
        obtain ⟨n, stopping⟩ := Live.stopping_of_requestStops awake first
        exact ⟨n, Or.inl prompt, stopping⟩
    exact ⟨us, spares, admitted, d', played, finished⟩

instance (l : Live μ) (d : Dismissal) : Decidable ((thread μ).ready l d) :=
  inferInstanceAs (Decidable (∀ i ∈ d.awaited?, ∀ e ∈ l.engine? i, e.ended = true))

instance (s : Live μ × Dismissal) :
    ∀ v : Option (Live.Move ω), Decidable (((thread μ).amid ω).admits s v)
  | none => inferInstanceAs (Decidable ((thread μ).ready s.1 s.2))
  | some _ => isTrue trivial

/-- Four engines: the first failed before, the second does not survive what it gets meanwhile, the
third ends well, and somebody else asked the fourth. -/
theorem failures_collected_once_of_four :
    let engine (id : Nat) (temper : Temper) : Engine Replica Rig :=
      Engine.boot id {} (Sample.follower id Sample.shelf) { temper } Sample.shelf [] 0
    let failed :=
      (Engine.plays (engine 1 .failRestore, (default : Station)) (Sample.iteration [Sample.ship 1])).1
    let l : Live Rig :=
      { cluster := Cluster.new 0, knobs := [], machines := []
        engines := [(0, failed), (1, engine 2 .faultOnApply), (2, engine 3 .plain),
          (3, (engine 4 .plain).requestStop.2)] }
    let nodes := [2, 0, 1, 0, 3, 1]
    let meanwhile (i : Nat) (vs : List (Event Station)) : List (Option (Live.Move Station)) :=
      vs.map fun v => some (.engine i default v)
    let vs : List (Option (Live.Move Station)) := List.replicate 6 none ++
      meanwhile 1 (Sample.iteration [Sample.append 2 1]) ++
      meanwhile 2 [.command [] (.moment 0)] ++ List.replicate 6 none
    (∀ i, ∀ e ∈ l.engine? i, e.Lived) ∧
    ((thread Rig).amid Station).AdmitsAll (l, { left := nodes }) vs ∧
    let d := (((thread Rig).amid Station).play (l, { left := nodes }) vs).2
    d.Over ∧ d.failures = [(1, .machine "corrupt"), (2, .panicked 2)] := by
  intro engine failed l nodes meanwhile vs
  have admitted : ((thread Rig).amid Station).AdmitsAll (l, { left := nodes }) vs := by
    decide +kernel
  have lived : ∀ i, ∀ e ∈ l.engine? i, e.Lived := by
    have booted : ∀ id temper, (engine id temper).Lived := fun _ _ => .running rfl
    have first : failed.Lived :=
      (booted 1 .failRestore).plays (default : Station) (Sample.iteration [Sample.ship 1])
    have last : (engine 4 .plain).requestStop.2.Lived :=
      (booted 4 .plain).after (default : Station) .requestStop
    have all : ∀ x ∈ l.engines, x.2.Lived := by
      simp only [l, List.forall_mem_cons]
      exact ⟨first, booted 2 _, booted 3 _, last, List.forall_mem_nil _⟩
    exact fun i e here => all (i, e) (Live.mem_of_engine? here)
  have all := failures_collected_once lived admitted
  obtain ⟨r, played⟩ : ∃ r, r = ((thread Rig).amid Station).play (l, { left := nodes }) vs :=
    ⟨_, rfl⟩
  have finished : r.2.left = [] ∧ r.2.asked.length ≤ r.2.waited := by
    rw [played]
    decide +kernel
  have asked : r.2.asked =
      [(2, true), (0, true), (1, true), (0, false), (3, false), (1, false)] := by
    rw [played]
    decide +kernel
  have left : r.1.failure? 0 = some (.machine "corrupt") ∧
      r.1.failure? 1 = some (.panicked 2) ∧ r.1.failure? 2 = none := by
    rw [played]
    decide +kernel
  rw [← played] at all ⊢
  obtain ⟨-, -, -, collected, -, -⟩ := all
  refine ⟨lived, admitted, finished, (collected finished).2.2.trans ?_⟩
  rw [asked]
  simp [collect, left]

end Dismissal

end QuorumLab
