import QuorumLab.Proofs.Engine.Chronicle

/-!
# The pace of ticks

Each tick sets the deadline of the next one: an interval after its own, or after the clock once
that has passed by. So a protocol never counts more ticks than intervals have passed, and what an
engine has missed while it stood still it does not make up for.
-/

namespace QuorumLab

/-- A tick of the protocol: the iteration it was done in, when it was due, and what the clock
read when the loop looked and after the tick. -/
structure Tick where
  iteration : Nat
  due : Nat
  now : Nat
  later : Nat
  deriving Repr, DecidableEq

namespace Tick

/-- When the next tick is due. -/
def next (k : Tick) (interval : Nat) : Nat :=
  if k.due + interval < k.later then k.later + interval else k.due + interval

variable {interval : Nat}

theorem later_le_next (k : Tick) : k.later ≤ k.next interval := by
  unfold next
  split <;> omega

theorem due_add_le_next (k : Tick) : k.due + interval ≤ k.next interval := by
  unfold next
  split <;> omega

/-! ## Schedules -/

/-- A tick that is due at `due` comes no earlier, and leaves the next deadline behind. -/
structure Step (interval due : Nat) (k : Tick) (next : Nat) : Prop where
  due : k.due = due
  now : k.due ≤ k.now
  later : k.now ≤ k.later
  next : next = k.next interval

/-- The ticks were done one after the other. The first was due at `due`, and the next one is at
`next`. -/
abbrev Scheduled (interval : Nat) : Nat → List Tick → Nat → Prop := Leads (Step interval)

namespace Scheduled

variable {due next : Nat} {ticks : List Tick}

theorem bounds (h : Scheduled interval due ticks next) : due ≤ next ∧ ∀ k ∈ ticks,
    due ≤ k.due ∧ k.due ≤ k.now ∧ k.now ≤ k.later ∧ k.later ≤ next := by
  induction ticks generalizing due with
  | nil => exact ⟨Nat.le_of_eq h.symm, by simp⟩
  | cons j ticks ih =>
    obtain ⟨_, ⟨first, looked, ticked, rfl⟩, rest⟩ := h
    obtain ⟨forward, within⟩ := ih rest
    have due_le : j.due + interval ≤ j.next interval := j.due_add_le_next
    have later_le : j.later ≤ j.next interval := j.later_le_next
    refine ⟨by omega, ?_⟩
    rintro k (_ | ⟨_, hk⟩)
    · omega
    · have := within k hk
      omega

/-- A tick is due an interval after the one before it at least, and not before the clock was read
after that. -/
theorem pairwise (h : Scheduled interval due ticks next) :
    ticks.Pairwise fun a b => a.due + interval ≤ b.due ∧ a.later ≤ b.due := by
  induction ticks generalizing due with
  | nil => exact .nil
  | cons j ticks ih =>
    obtain ⟨_, ⟨-, -, -, rfl⟩, rest⟩ := h
    refine .cons ?_ (ih rest)
    intro k hk
    have above := ((bounds rest).2 k hk).1
    exact ⟨Nat.le_trans j.due_add_le_next above, Nat.le_trans j.later_le_next above⟩

/-- There are never more ticks than deadlines an interval apart. -/
theorem length_le (h : Scheduled interval due ticks next) (runs : 0 < interval) (t : Nat) :
    (ticks.filter (·.now ≤ t)).length ≤ (t + interval - due) / interval := by
  induction ticks generalizing due with
  | nil => exact Nat.zero_le _
  | cons j ticks ih =>
    obtain ⟨_, ⟨first, looked, -, rfl⟩, rest⟩ := h
    have due_le : j.due + interval ≤ j.next interval := j.due_add_le_next
    have counted := ih rest
    have fewer : (t + interval - j.next interval) / interval ≤ (t - due) / interval :=
      Nat.div_le_div_right (by omega)
    by_cases past : j.now ≤ t
    · -- The first tick was due by `t`, so it takes one of the deadlines up to there.
      have one : (t + interval - due) / interval = (t - due) / interval + 1 := by
        rw [← Nat.add_div_right _ runs]
        congr 1
        omega
      rw [List.filter_cons_of_pos (by simpa using past), List.length_cons]
      omega
    · have more : (t - due) / interval ≤ (t + interval - due) / interval :=
        Nat.div_le_div_right (by omega)
      rw [List.filter_cons_of_neg (by simpa using past)]
      omega

/-- Of the ticks that are overdue at any time, no more than one is ever done. -/
theorem overdue (h : Scheduled interval due ticks next) (t : Nat) :
    (ticks.filter fun k => k.due < t ∧ t ≤ k.now).length ≤ 1 := by
  induction ticks generalizing due with
  | nil => exact Nat.zero_le _
  | cons j ticks ih =>
    obtain ⟨_, ⟨-, -, ticked, rfl⟩, rest⟩ := h
    by_cases missed : j.due < t ∧ t ≤ j.now
    · -- The clock has passed `t` before any further tick is due.
      have later_le : j.later ≤ j.next interval := j.later_le_next
      have none : ticks.filter (fun k => k.due < t ∧ t ≤ k.now) = [] := by
        rw [List.filter_eq_nil_iff]
        intro k hk missed
        have above := ((bounds rest).2 k hk).1
        rw [decide_eq_true_eq] at missed
        omega
      rw [List.filter_cons_of_pos (by simpa using missed), none]
      exact Nat.le_refl 1
    · rw [List.filter_cons_of_neg (by simpa using missed)]
      exact ih rest

end Scheduled

/-! ## The ticks of a run -/

variable {κ μ : Type}

/-- A tick is noted where one is due. -/
def note (iteration : Nat) (d : Driver κ μ) : Act → Option Tick
  | .tick now later =>
    if now < d.nextTick then none else some { iteration, due := d.nextTick, now, later }
  | _ => none

theorem note_eq_some {n : Nat} {d : Driver κ μ} {a : Act} {k : Tick} (h : note n d a = some k) :
    ∃ now later, a = .tick now later ∧ ¬now < d.nextTick ∧
      k = { iteration := n, due := d.nextTick, now, later } := by
  cases a with
  | tick now later =>
    by_cases early : now < d.nextTick
    · simp [note, early] at h
    · rw [note, if_neg early] at h
      exact ⟨now, later, rfl, early, (Option.some.inj h).symm⟩
  | _ => cases h

/-- What is so of the ticks that were noted while an engine runs that was started at `start`. -/
structure Paced (interval start : Nat) (c : Chronicle Tick) (d : Driver κ μ) (left : List Act) :
    Prop where
  settings : d.settings.tick = interval
  scheduled : Scheduled interval (start + interval) c.notes d.nextTick
  ordered : c.notes.Pairwise (·.iteration < ·.iteration)
  begun : ∀ k ∈ c.notes, k.iteration ≤ c.begun
  /-- Nothing has ticked in an iteration that begins with a tick. -/
  ahead : ∀ now later, .tick now later ∈ left.head? →
    now ≤ later ∧ ∀ k ∈ c.notes, k.iteration < c.begun
  once : ∀ now later, .tick now later ∉ left.tail

end Tick

namespace Driver

variable {κ μ : Type} [Core κ]

/-- The protocol ticks if there is a tick to do, which says when the next one is due. -/
def tickOnce (d : Driver κ μ) : Option Tick → Except Fault (Driver κ μ)
  | none => .ok d
  | some k => (Core.tick d.shelf d.core).map fun core =>
    { d with core, nextTick := k.next d.settings.tick }

/-- The protocol ticks where a tick is noted. -/
theorem tickIfDue_eq_tickOnce (d : Driver κ μ) (iteration now later : Nat) :
    d.tickIfDue now later = d.tickOnce (Tick.note iteration d (.tick now later)) := by
  by_cases early : now < d.nextTick
  · simp only [tickIfDue, Tick.note, if_pos early]
    rfl
  · simp only [tickIfDue, Tick.note, if_neg early]
    rfl

end Driver

namespace Tick.Paced

variable {κ μ : Type} {interval start : Nat} {c : Chronicle Tick} {d d' : Driver κ μ}
variable {left : List Act}

/-- A tick that is due follows the ones before. -/
theorem ticks {now later : Nat} (h : Paced interval start c d (.tick now later :: left))
    (due : ¬now < d.nextTick) :
    let k : Tick := { iteration := c.begun, due := d.nextTick, now, later }
    Scheduled interval (start + interval) (c.notes ++ [k]) (k.next interval) ∧
      (c.notes ++ [k]).Pairwise (·.iteration < ·.iteration) := by
  intro k
  obtain ⟨forward, fresh⟩ := h.ahead now later rfl
  have step : Step interval d.nextTick k (k.next interval) :=
    ⟨rfl, Nat.not_lt.mp due, forward, rfl⟩
  refine ⟨leads_append.mpr ⟨_, h.scheduled, leads_singleton.mpr step⟩, ?_⟩
  rw [List.pairwise_append]
  refine ⟨h.ordered, List.pairwise_singleton _ k, ?_⟩
  intro j hj b hb
  cases List.mem_singleton.mp hb
  exact fresh j hj

/-- Once what was first is done, what is left does not tick. -/
theorem rest {a : Act} (h : Paced interval start c d (a :: left))
    (settings : d'.settings = d.settings) (same : d'.nextTick = d.nextTick) :
    Paced interval start c d' left where
  settings := settings ▸ h.settings
  scheduled := same ▸ h.scheduled
  ordered := h.ordered
  begun := h.begun
  ahead now later first := absurd (List.mem_of_mem_head? first) (h.once now later)
  once now later later' := h.once now later (List.mem_of_mem_tail later')

theorem punctual (h : Paced interval start c d left) (same : d.Punctual d') :
    Paced interval start c d' left where
  settings := same.settings ▸ h.settings
  scheduled := same.nextTick ▸ h.scheduled
  ordered := h.ordered
  begun := h.begun
  ahead := h.ahead
  once := h.once

/-- A tick that is due is noted, and moves the deadline. -/
theorem did_tick [Core κ] {now later : Nat} (h : Paced interval start c d (.tick now later :: left))
    (done : d.tickIfDue now later = .ok d') :
    Paced interval start
      { c with notes := c.notes ++ (note c.begun d (.tick now later)).toList } d' left := by
  rw [d.tickIfDue_eq_tickOnce c.begun] at done
  by_cases early : now < d.nextTick
  · simp only [note, if_pos early, Driver.tickOnce] at done ⊢
    cases done
    simpa using h.rest rfl rfl
  · obtain ⟨scheduled, ordered⟩ := h.ticks early
    have left : Paced interval start c d left := h.rest rfl rfl
    simp only [note, if_neg early, Driver.tickOnce] at done ⊢
    cases ticked : Core.tick d.shelf d.core with
    | error f => rw [ticked] at done; cases done
    | ok core =>
      rw [ticked] at done
      cases done
      exact {
        settings := h.settings
        scheduled := h.settings ▸ scheduled
        ordered
        begun := by
          intro k hk
          rcases List.mem_append.mp hk with hk | hk
          · exact h.begun k hk
          · cases List.mem_singleton.mp hk
            exact Nat.le_refl _
        ahead := fun now later first =>
          absurd (List.mem_of_mem_head? first) (h.once now later)
        once := left.once }

end Tick.Paced

/-- The ticks of a run follow their schedule, one at most in every iteration. -/
theorem Tick.minutes {κ μ ω : Type} [Core κ] [Machine μ] [Carrier ω] (interval start : Nat) :
    Minutes ω (fun (_ : Driver κ μ) _ => True) Tick.note
      (fun ticks _ => (∃ next, Scheduled interval (start + interval) ticks next) ∧
        ticks.Pairwise (·.iteration < ·.iteration)) (Paced interval start) where
  held := rfl
  sound h := ⟨⟨_, h.scheduled⟩, h.ordered⟩
  exchange machine h := ⟨h.settings, h.scheduled, h.ordered, h.begun, h.ahead, h.once⟩
  wake h follow := {
    settings := h.settings
    scheduled := h.scheduled
    ordered := h.ordered
    begun := fun k hk => Nat.le_succ_of_le (h.begun k hk)
    ahead := by
      rintro now later first
      cases Option.some.inj first
      exact ⟨follow.ticked, fun k hk => Nat.lt_succ_of_le (h.begun k hk)⟩
    once := by simp }
  turn h _ _ := h.punctual ⟨rfl, rfl, rfl⟩
  noted {c d a left} h _ := by
    cases noted : note c.begun d a with
    | none => simpa using ⟨⟨_, h.scheduled⟩, h.ordered⟩
    | some k =>
      obtain ⟨now, later, rfl, due, rfl⟩ := note_eq_some noted
      obtain ⟨scheduled, ordered⟩ := Paced.ticks h due
      exact ⟨⟨_, scheduled⟩, ordered⟩
  did {c d a left d' w w'} h _ done := by
    cases a with
    | tick now later =>
      obtain ⟨_, ticked, same⟩ := Effect.map_ofFault_done done
      cases same
      exact h.did_tick ticked
    | policy now noted =>
      cases done
      obtain ⟨machine, shelf, lastSnapshot, lastCheck, frame⟩ := d.checkPolicy_frame now noted
      rw [frame]
      have same : Paced interval start c { d with machine, shelf, lastSnapshot, lastCheck } left :=
        .rest h rfl rfl
      simpa [note] using same
    | receive | handle | send | restore | apply | append | setHardState | setCommit | settle
    | observe | publish =>
      have same : Paced interval start c d' left := .punctual h (Driver.punctual_perform rfl done)
      simpa [note] using same

/-- The protocol ticks when a tick is noted, and at no other time. -/
theorem Tick.minutes_counted {κ μ ω : Type} [Core κ] [Machine μ] [Carrier ω] {calls : κ → Nat}
    (counts : Core.Counts .tick calls) (before : Nat) :
    Minutes ω (fun (_ : Driver κ μ) _ => True) Tick.note
      (fun ticks core => calls core ≤ before + ticks.length)
      (fun c d _ => calls d.core = before + c.notes.length) where
  held := rfl
  sound h := Nat.le_of_eq h
  exchange _ h := h
  wake h _ := h
  turn h run called :=
    (counts.unchanged run fun ticks => by simpa using called ticks).trans h
  noted {c d a left} h _ := by
    rw [h, List.length_append]
    omega
  did {c d a left d' w w'} h _ done := by
    have silent (other : .tick ∉ a.calls) (unnoted : note c.begun d a = none) :
        calls d'.core = before + (c.notes ++ (note c.begun d a).toList).length := by
      rw [Driver.perform_uncalled counts other done, h, unnoted, Option.toList_none, List.append_nil]
    cases a with
    | tick now later =>
      obtain ⟨_, ticked, same⟩ := Effect.map_ofFault_done done
      cases same
      rw [d.tickIfDue_eq_tickOnce c.begun] at ticked
      cases noted : note c.begun d (.tick now later) with
      | none =>
        rw [noted] at ticked
        cases ticked
        simpa using h
      | some k =>
        simp only [noted, Driver.tickOnce] at ticked
        cases called : Core.tick d.shelf d.core with
        | error f => rw [called] at ticked; cases ticked
        | ok core =>
          rw [called] at ticked
          cases ticked
          have once : calls core = calls d.core + 1 := counts.own (.tick called)
          simp only [once, h, Option.toList_some, List.length_append, List.length_singleton,
            Nat.add_assoc]
    | receive | handle | send | restore | apply | append | setHardState | setCommit | settle
    | observe | publish | policy => exact silent (by simp [Act.calls]) rfl

namespace Engine

variable {κ μ ω : Type} [Core κ] [Machine μ] [Carrier ω] {id : Nat} {settings : Settings}
variable {core : κ} {machine : μ} {shelf : Shelf} {peers : Directory} {start : Nat}

/-- At any time there have been no more ticks than intervals since the start, one at most in every
iteration. Each comes once it is due, and the next one is due an interval after that at least and
not before the clock was read after the tick. So of the ticks that are overdue when an engine goes
on after it stood still, it does no more than one. These are all the ticks that the protocol is
given: whatever counts its ticks has counted as many, but for one that it did not survive. -/
theorem ticks_keep_pace (runs : 0 < settings.tick) {w₀ : ω} {m : Moment κ μ ω (Chronicle Tick)}
    (run : Reachable (timed ω (fun _ _ => True) Tick.note)
      ⟨boot id settings core machine shelf peers start, w₀, { clock := start }⟩ m) :
    let ticks := m.record.notes
    (∀ t, (ticks.filter (·.now ≤ t)).length ≤ (t - start) / settings.tick) ∧
    ticks.Pairwise (·.iteration < ·.iteration) ∧
    (∀ k ∈ ticks, k.due ≤ k.now ∧ k.now ≤ k.later) ∧
    ticks.Pairwise (fun a b => a.due + settings.tick ≤ b.due ∧ a.later ≤ b.due) ∧
    (∀ t, (ticks.filter fun k => k.due < t ∧ t ≤ k.now).length ≤ 1) ∧
    (∀ calls : κ → Nat, Core.Counts .tick calls →
      (∀ t, (∀ k ∈ ticks, k.now ≤ t) →
        calls m.engine.driver.core ≤ calls core + (t - start) / settings.tick) ∧
      (m.engine.ending = none → calls m.engine.driver.core = calls core + ticks.length)) ∧
    (m.engine.ending = none → (∀ k ∈ ticks, k.later ≤ m.engine.driver.nextTick) ∧
      ∀ now later, m.engine.driver.tickIfDue now later =
        m.engine.driver.tickOnce (Tick.note m.record.begun m.engine.driver (.tick now later))) := by
  intro ticks
  have begun : Tick.Paced settings.tick start { clock := start }
      (driverOf settings core machine shelf peers start) [] :=
    ⟨rfl, rfl, .nil, by simp, by simp, by simp⟩
  obtain ⟨⟨⟨next, scheduled⟩, ordered⟩, paced⟩ :=
    (Tick.minutes settings.tick start).reachable begun run
  have fewer (t : Nat) : (ticks.filter (·.now ≤ t)).length ≤ (t - start) / settings.tick := by
    simpa [Nat.add_sub_add_right] using scheduled.length_le runs t
  refine ⟨fewer, ordered, ?_, scheduled.pairwise, scheduled.overdue, ?_, ?_⟩
  · exact fun k hk => ⟨(scheduled.bounds.2 k hk).2.1, (scheduled.bounds.2 k hk).2.2.1⟩
  · intro calls counts
    obtain ⟨atMost, exact⟩ := (Tick.minutes_counted counts (calls core)).reachable rfl run
    refine ⟨?_, exact⟩
    intro t past
    have all : ticks.filter (·.now ≤ t) = ticks :=
      List.filter_eq_self.mpr fun k hk => by simpa using past k hk
    have := fewer t
    rw [all] at this
    exact Nat.le_trans atMost (Nat.add_le_add_left this _)
  · intro live
    exact ⟨fun k hk => ((paced live).scheduled.bounds.2 k hk).2.2.2,
      m.engine.driver.tickIfDue_eq_tickOnce _⟩

/-- An engine that ticks ten times a second is held up for a third of one. It does one of the three
ticks that it has missed, and counts from there on. Its protocol was given two ticks in all. -/
theorem ticks_keep_pace_of_stall :
    let ms := Span.ofMillis
    let wake (due ticked : Nat) : List (Occurrence Recorder Station) :=
      .event (.wake [] ⟨ms due, ms ticked, ms ticked, ms ticked⟩) ::
        List.replicate 5 (.event .statement)
    let core : Counted Replica := { core := Sample.follower 1 Sample.shelf }
    let m₀ : Moment (Counted Replica) Recorder Station (Chronicle Tick) :=
      ⟨boot 1 {} core {} Sample.shelf [] 0, default, { clock := 0 }⟩
    let m := (timed Station (fun _ _ => True) Tick.note).play m₀
      (wake 350 360 ++ wake 365 365 ++ wake 470 470)
    0 < ({} : Settings).tick ∧ m.engine.ending = none ∧
      m.record.notes = [⟨1, ms 100, ms 350, ms 360⟩, ⟨3, ms 460, ms 470, ms 470⟩] ∧
      (m.record.notes.filter (·.now ≤ ms 470)).length ≤ 4 ∧
      m.engine.driver.core.calls.count .tick = 2 ∧ m.engine.driver.nextTick = ms 560 := by
  intro ms wake core m₀ m
  have runs : 0 < ({} : Settings).tick := by decide
  have run : Reachable (timed Station (fun _ _ => True) Tick.note) m₀ m :=
    System.reachable_play .start (by decide +kernel)
  obtain ⟨bounded, -, -, -, -, counted, -⟩ := ticks_keep_pace runs run
  have live : m.engine.ending = none := by decide +kernel
  have notes : m.record.notes = [⟨1, ms 100, ms 350, ms 360⟩, ⟨3, ms 460, ms 470, ms 470⟩] := by
    decide +kernel
  have four : (ms 470 - 0) / ({} : Settings).tick = 4 := by decide
  refine ⟨runs, live, notes, four ▸ bounded (ms 470), ?_, by decide +kernel⟩
  rw [(counted _ (Counted.counts .tick)).2 live, notes]
  rfl

end Engine

end QuorumLab
