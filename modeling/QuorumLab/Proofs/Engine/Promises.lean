import Mathlib.Control.Monad.Basic
import QuorumLab.Proofs.Engine.Answers

/-!
# Promises to those who propose

The record is kept along a run: at every call that enqueues a command, and at every
statement. If the protocol does as it promises, each command that was accepted is answered
once and truthfully, however the events are ordered and however the engine ends.
-/

namespace QuorumLab

namespace History

variable {κ μ ω : Type} [Core κ] [Machine μ] [Carrier ω]

/-- The record after an event. -/
def note (h : History) (e : Engine κ (Traced μ)) (w : ω) : Event ω → History
  | .apply data => match (e.apply data).1 with
    | .ticket n => { h with accepted := h.accepted ++ [(n, data)] }
    | .failed _ => h
  | .statement => h.noteWork e (e.advance w).1
  | _ => h

/-- Only of a statement does the protocol promise anything. -/
def Admits (h : History) (e : Engine κ (Traced μ)) (w : ω) : Event ω → Prop
  | .statement => h.AdmitsWork e (e.advance w).1
  | _ => True

instance (h : History) (e : Engine κ (Traced μ)) (w : ω) : ∀ v, Decidable (h.Admits e w v)
  | .statement => inferInstanceAs (Decidable (h.AdmitsWork _ _))
  | .apply _ | .snapshot | .membership | .requestStop | .command _ _ | .wake _ _ | .abandon
  | .network _ => isTrue trivial

end History

/-- Runs in which the protocol does as it promises. -/
def proposals (κ μ ω : Type) [Core κ] [Machine μ] [Carrier ω] :
    System (Moment κ (Traced μ) ω History) (Event ω) where
  admits m v := m.record.Admits m.engine m.network v
  after m v := m.next v (m.record.note m.engine m.network v)

instance {κ μ ω : Type} [Core κ] [Machine μ] [Carrier ω] (m : Moment κ (Traced μ) ω History)
    (v : Event ω) : Decidable ((proposals κ μ ω).admits m v) :=
  inferInstanceAs (Decidable (m.record.Admits m.engine m.network v))

namespace History

/-! ## Events -/

section Commands

variable {h : History} {new : List (Nat × Bytes)} {issued : Nat}

/-- The record of further commands does not matter to a command that has a ticket already. -/
theorem Fits.append {c : Command} (fits : h.Fits c) (below : ∀ n, c.ticket? = some n → n < issued)
    (fresh : ∀ a ∈ new, a.1 = issued) :
    History.Fits { h with accepted := h.accepted ++ new } c := by
  have other : ∀ n, c.ticket? = some n → ¬ h.Proposed n →
      ¬ History.Proposed { h with accepted := h.accepted ++ new } n := by
    rintro n ticket unasked ⟨data, asked⟩
    rcases List.mem_append.mp asked with old | new
    · exact unasked ⟨data, old⟩
    · have := fresh _ new
      have := below n ticket
      omega
  cases c with
  | propose n data => exact List.mem_append_left _ fits
  | snapshot n | membership n => exact other n rfl fits
  | stop => trivial

theorem Sound.accept (sound : h.Sound issued) (fresh : ∀ a ∈ new, a.1 = issued)
    (one : ∀ a ∈ new, ∀ b ∈ new, a = b) :
    History.Sound { h with accepted := h.accepted ++ new } (issued + 1) where
  accepted_lt n data hn := by
    rcases List.mem_append.mp hn with old | hn
    · have := sound.accepted_lt n data old
      omega
    · have := fresh _ hn
      omega
  accepted_once n a b ha hb := by
    rcases List.mem_append.mp ha with oldA | newA <;> rcases List.mem_append.mp hb with oldB | newB
    · exact sound.accepted_once n a b oldA oldB
    · have := sound.accepted_lt n a oldA
      have := fresh _ newB
      omega
    · have := sound.accepted_lt n b oldB
      have := fresh _ newA
      omega
    · exact congrArg Prod.snd (one _ newA _ newB)
  put n x hx := by
    obtain ⟨accepted, command⟩ := sound.put n x hx
    exact ⟨List.mem_append_left _ accepted, command⟩
  known := sound.known

end Commands

namespace Knows

variable {κ μ ω : Type} [Core κ] {h : History} {e : Engine κ (Traced μ)}

/-- What is known once a command is in the queue under a new ticket. -/
theorem issue (know : h.Knows e) (live : e.ending = none) {c : Command}
    {new : List (Nat × Bytes)} (fresh : ∀ a ∈ new, a.1 = e.issued)
    (one : ∀ a ∈ new, ∀ b ∈ new, a = b)
    (fits : History.Fits { h with accepted := h.accepted ++ new } c)
    (accounted :
      Engine.Accounted { e with queue := e.queue ++ [c], issued := e.issued + 1 }) :
    History.Knows { h with accepted := h.accepted ++ new }
      { e with queue := e.queue ++ [c], issued := e.issued + 1 } := by
  have guides := know.guides live
  have mine : ∀ c, c ∈ e.queue ∨ .handle c ∈ e.loop.todo →
      ∀ n, c.ticket? = some n → n < e.issued := by
    intro c hc n ticket
    apply know.mem_tickets_lt live
    rcases hc with queued | handled
    · exact List.mem_append_left _
        (List.mem_append_left _ (List.mem_filterMap.mpr ⟨c, queued, ticket⟩))
    · exact List.mem_append_left _
        (List.mem_append_right _ (List.mem_filterMap.mpr ⟨_, handled, ticket⟩))
  apply running accounted live (know.sound.accept fresh one)
  · refine know.told.record ?_ (fun _ _ _ => Iff.rfl) (fun _ hx => hx) fun _ ht => ht
    intro n answered data proposed
    have below := know.mem_tickets_lt live
      (List.mem_append_right _ (List.mem_append_right _ answered))
    rcases List.mem_append.mp proposed with old | added
    · exact old
    · have := fresh _ added
      omega
  constructor
  case follows =>
    exact ⟨guides.follows.pending, guides.follows.role, guides.follows.reign, guides.follows.leads,
      guides.follows.deposed⟩
  case queue =>
    intro c hc
    rcases List.mem_append.mp hc with queued | added
    · exact (guides.queue c queued).append (mine c (Or.inl queued)) fresh
    · rw [List.mem_singleton.mp added]
      exact fits
  case handling =>
    intro c hc
    exact (guides.handling c hc).append (mine c (Or.inr hc)) fresh
  case committed => exact guides.committed
  case paced => exact guides.paced
  case gone => exact guides.gone
  case settled => exact guides.settled

/-- What is known once something else than a proposal was asked for. -/
theorem ask (know : h.Knows e) {c : Nat → Command} (mine : ∀ n, (c n).ticket? = some n)
    (fits : ¬ h.Proposed e.issued → h.Fits (c e.issued)) :
    h.Knows (e.enqueue c).2 := by
  rcases e.enqueue_cases c with ⟨f, refused⟩ | ⟨live, taken⟩
  · rw [refused]
    exact know
  · rw [taken]
    have unasked : ¬ h.Proposed e.issued := by
      rintro ⟨data, proposed⟩
      exact Nat.lt_irrefl _ (know.sound.accepted_lt _ data proposed)
    have same : { h with accepted := h.accepted ++ [] } = h := by rw [List.append_nil]
    have fits' : History.Fits { h with accepted := h.accepted ++ [] } (c e.issued) := by
      rw [same]
      exact fits unasked
    have known := know.issue live (by simp) (by simp) fits' (know.accounted.issue (mine _))
    rwa [same] at known

/-- A queue that differs in requests to stop is as good. -/
theorem requeue (know : h.Knows e) {queue : List Command} {claimed : Bool}
    (fits : e.ending = none → ∀ c ∈ queue, h.Fits c)
    (same : queue.filterMap Command.ticket? = e.queue.filterMap Command.ticket?) :
    h.Knows { e with queue, claimed } := by
  refine ⟨know.accounted.requeue same, know.sound, know.told, ?_, know.returned⟩
  intro live
  have guides := know.guides live
  exact ⟨guides.follows, fits live, guides.handling, guides.committed, guides.paced, guides.gone,
    guides.settled⟩

/-- What is known once an iteration has begun. -/
theorem woken (know : h.Knows e) (rest : e.resting = true) (cause : Option Command)
    {queue : List Command} (inbox : List Message) (t : Readings)
    (taken : e.queue = cause.toList ++ queue) :
    h.Knows { e with queue, loop := e.loop.wake (cause.map .handle).toList inbox t } := by
  obtain ⟨live, stage, idle⟩ := e.resting_iff.mp rest
  have guides := know.guides live
  have asked : ∀ c ∈ cause.toList ++ queue, h.Fits c := taken ▸ guides.queue
  have begun : ∀ a ∈ (e.loop.wake (cause.map .handle).toList inbox t).todo,
      (∃ c ∈ cause.toList, a = .handle c) ∨
        (∀ c, a ≠ .handle c) ∧ (∀ x, a ≠ .apply x) ∧ ∀ s, a ≠ .restore s := by
    intro a ha
    simp only [Loop.wake, List.mem_append, List.mem_map, List.mem_cons, List.not_mem_nil, or_false,
      Option.mem_toList, Option.map_eq_some_iff] at ha
    rcases ha with (⟨c, hc, rfl⟩ | ⟨m, _, rfl⟩) | rfl | rfl
    · exact Or.inl ⟨c, Option.mem_toList.mpr hc, rfl⟩
    all_goals exact Or.inr (by simp)
  apply running (know.accounted.woken cause inbox t idle taken) live know.sound know.told
  constructor
  case follows => exact guides.follows
  case queue =>
    intro c hc
    exact asked c (List.mem_append_right _ hc)
  case handling =>
    intro c hc
    rcases begun _ hc with ⟨c', hc', same⟩ | ⟨other, -⟩
    · cases same
      exact asked c (List.mem_append_left _ hc')
    · exact absurd rfl (other c)
  case committed =>
    intro x hx
    rcases begun _ hx with ⟨c, -, same⟩ | ⟨-, other, -⟩
    · cases same
    · exact absurd rfl (other x)
  case paced =>
    refine Or.inl ?_
    intro s hs
    rcases begun _ hs with ⟨c, -, same⟩ | ⟨-, -, other⟩
    · cases same
    · exact absurd rfl (other s)
  case gone => exact guides.gone
  case settled =>
    intro _
    exact guides.settled (Or.inr ⟨stage, by simp [idle]⟩)

theorem roused (know : h.Knows e) {e' : Engine κ (Traced μ)} (rouses : e.Rouses e') :
    h.Knows e' := by
  cases rouses with
  | same => exact know
  | @ends queue rest left =>
    obtain ⟨live, -, idle⟩ := e.resting_iff.mp rest
    have queued := (know.guides live).queue
    have ready : h.Knows { e with queue } := by
      rcases left with rfl | stop
      · exact know
      · rw [stop] at queued
        refine know.requeue (fun _ c hc => queued c (List.mem_cons_of_mem _ hc)) ?_
        rw [stop]
        rfl
    apply ready.finish live (.returned (.ok ()))
    intro _ _
    exact congrArg _ idle
  | wakes cause rest taken => exact know.woken rest cause _ _ taken

variable [Machine μ] [Carrier ω]

/-- Every event keeps what is known, if the protocol does as it promises. -/
theorem after (know : h.Knows e) {w : ω} {v : Event ω} (admits : h.Admits e w v) :
    (h.note e w v).Knows (e.after w v).1 := by
  cases v with
  | network => exact know
  | statement => exact know.advance w admits
  | snapshot => exact know.ask (fun _ => rfl) id
  | membership => exact know.ask (fun _ => rfl) id
  | command inbox t => exact know.roused (e.rouses w (v := .command inbox t) trivial)
  | wake inbox t => exact know.roused (e.rouses w (v := .wake inbox t) trivial)
  | abandon => exact know.roused (e.rouses w (v := .abandon) trivial)
  | requestStop =>
    change h.Knows e.requestStop.2
    rcases e.requestStop_cases with same | ⟨queue, added, stops⟩
    · rw [same]
      exact know
    · rw [stops]
      rcases added with rfl | rfl
      · exact know.requeue (fun live => (know.guides live).queue) rfl
      · apply know.requeue
        · intro live c hc
          rcases List.mem_append.mp hc with queued | added
          · exact (know.guides live).queue c queued
          · rw [List.mem_singleton.mp added]
            trivial
        · rw [List.filterMap_append]
          exact List.append_nil _
  | apply data =>
    change History.Knows (match (e.apply data).1 with
      | .ticket n => { h with accepted := h.accepted ++ [(n, data)] }
      | .failed _ => h) (e.apply data).2
    rcases e.apply_cases data with ⟨f, refused⟩ | asked
    · rw [refused]
      exact know
    · rw [asked]
      rcases e.enqueue_cases (.propose · data) with ⟨f, refused⟩ | ⟨live, taken⟩
      · rw [refused]
        exact know
      · rw [taken]
        refine know.issue live ?_ ?_ ?_ (know.accounted.issue rfl)
        · intro a ha
          rw [List.mem_singleton.mp ha]
        · intro a ha b hb
          exact (List.mem_singleton.mp ha).trans (List.mem_singleton.mp hb).symm
        · exact List.mem_append_right _ (List.mem_singleton.mpr rfl)

omit [Machine μ] [Carrier ω] in
/-- Nothing has happened to an engine that is started. -/
theorem boot {id : Nat} {settings : Settings} {core : κ} {machine : Traced μ} {shelf : Shelf}
    {peers : Directory} {now : Nat} (follower : Core.role core ≠ .leader) :
    History.Knows {} (Engine.boot id settings core machine shelf peers now) where
  accounted := .boot
  sound := ⟨fun _ _ hn => absurd hn List.not_mem_nil, fun _ _ _ hn => absurd hn List.not_mem_nil,
    fun _ _ hn => absurd hn List.not_mem_nil, fun _ hx => absurd hx List.not_mem_nil⟩
  told := ⟨fun _ _ hn => absurd hn List.not_mem_nil, fun _ _ hn => absurd hn List.not_mem_nil,
    fun _ _ _ hn => absurd hn List.not_mem_nil⟩
  guides _ := {
    follows := ⟨fun _ hq => absurd hq List.not_mem_nil, fun some => absurd rfl some,
      fun _ hq => absurd hq List.not_mem_nil, fun leads => absurd leads follower,
      fun _ t same => by cases same⟩
    queue := fun _ hc => absurd hc List.not_mem_nil
    handling := fun _ hc => absurd hc List.not_mem_nil
    committed := fun _ hx => absurd hx List.not_mem_nil
    paced := Or.inl fun _ => List.not_mem_nil
    gone := fun _ ha => absurd ha List.not_mem_nil
    settled := fun _ leads => absurd leads follower }
  returned r returned := by cases returned

end Knows

end History

namespace Engine

variable {κ μ ω : Type} [Core κ] [Machine μ] [Carrier ω] {id : Nat} {settings : Settings}
variable {core : κ} {machine : μ} {shelf : Shelf} {peers : Directory} {now : Nat} {network : ω}
variable {m : Moment κ (Traced μ) ω History}

/-- While the engine runs, every command that was accepted waits, is under way or is answered;
none is answered twice, and when the loop has returned all are. Every answer is true, and no two
commands are given the same index. -/
theorem proposals_answered (follower : Core.role core ≠ .leader)
    (run : Reachable (proposals κ μ ω)
      ⟨boot id settings core { machine } shelf peers now, network, {}⟩ m) :
    let e := m.engine
    let d := e.driver
    (∀ n data, (n, data) ∈ m.record.accepted →
      (e.ending = none → (e.waiting ++ d.awaited ++ d.answered).count n = 1) ∧
      d.answered.count n ≤ 1 ∧
      (∀ r, e.ending = some (.returned r) → d.answered.count n = 1) ∧
      ∀ o, (n, o) ∈ d.answers → m.record.Answers d.calls e.ended n data o) ∧
    ∀ n k i, m.record.Proposed n → m.record.Proposed k →
      (n, .ok (.index i)) ∈ d.answers → (k, .ok (.index i)) ∈ d.answers → n = k := by
  intro e d
  have know : m.record.Knows e :=
    run.invariant (P := fun m => m.record.Knows m.engine) (.boot follower)
      fun {m v} know admits => know.after (w := m.network) (v := v) admits
  constructor
  · intro n data accepted
    refine ⟨?_, ?_, ?_, ?_⟩
    · intro live
      have issued : n ∈ List.range e.issued :=
        List.mem_range.mpr (know.sound.accepted_lt n data accepted)
      have once := List.nodup_range.count.trans (if_pos issued)
      rw [← (know.accounted.places live).count_eq, Driver.tickets, ← List.append_assoc] at once
      exact once
    · exact List.nodup_iff_count.mp know.accounted.once n
    · intro r returned
      have answered := know.returned r returned n ⟨data, accepted⟩
      exact know.accounted.once.count.trans (if_pos answered)
    · intro o told
      exact know.told.truthful n o told data accepted
  · intro n k i first second toFirst toSecond
    exact know.told.distinct n k i toFirst toSecond first second

deriving instance DecidableEq for Ending

/-- A node that is alone refuses a command before it leads, takes the next one once it does, and
does not get to the last one before it stops. -/
theorem proposals_answered_of_solo :
    let S := proposals Replica Recorder Station
    let m := S.play
      ⟨boot 1 {} (Sample.follower 1 Sample.solo) { machine := {} } Sample.solo [] 0, default, {}⟩
      (Sample.call (.apply [6]) ++ Sample.iteration [Sample.campaign 1] ++
        Sample.call (.apply [7]) ++ [.requestStop, .apply [8], .command [] (.moment 0)])
    m.engine.driver.answers =
        [(0, .error (.notLeader none)), (1, .ok (.index 2)), (2, .error .shutdown)] ∧
      (∀ x, (0, x) ∉ m.record.put) ∧ (2, [7]) ∈ m.engine.driver.calls ∧
      m.engine.driver.answered.count 2 = 1 := by
  intro S m
  have run : Reachable S _ m := System.reachable_play .start (by decide +kernel)
  obtain ⟨told, -⟩ := proposals_answered (by decide +kernel) run
  obtain ⟨-, -, -, refused⟩ := told 0 [6] (by decide +kernel)
  obtain ⟨-, -, -, applied⟩ := told 1 [7] (by decide +kernel)
  obtain ⟨-, -, answered, -⟩ := told 2 [8] (by decide +kernel)
  have answers : m.engine.driver.answers =
      [(0, .error (.notLeader none)), (1, .ok (.index 2)), (2, .error .shutdown)] := by
    decide +kernel
  refine ⟨answers, refused (.error (.notLeader none)) ?_, applied (.ok (.index 2)) ?_,
    answered (.ok ()) (by decide +kernel)⟩
  · rw [answers]
    exact List.mem_cons_self
  · rw [answers]
    exact List.mem_cons_of_mem _ List.mem_cons_self

end Engine

end QuorumLab
