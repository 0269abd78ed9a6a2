import QuorumLab.Proofs.Engine.Steps

/-!
# Where a ticket is

A ticket that was given out is with a command in the queue, with the statement that takes
its command in, with a proposal under way, or answered: in one of these places, and once.
This needs nothing of the protocol.
-/

namespace QuorumLab

def Act.ticket? : Act → Option Nat
  | .handle c => c.ticket?
  | _ => none

namespace Driver

variable {κ μ ω : Type}

def answered (d : Driver κ μ) : List Nat := d.answers.map Prod.fst

def awaited (d : Driver κ μ) : List Nat := d.pending.map fun q => q.2.ticket

/-- The tickets that a driver has taken in. -/
def tickets (d : Driver κ μ) : List Nat := d.awaited ++ d.answered

/-- No two proposals wait for the same index. -/
def Keyed (d : Driver κ μ) : Prop := (d.pending.map Prod.fst).Nodup

/-- `d'` waits for, has answered and has observed what `d` has. -/
structure Mute (d d' : Driver κ μ) : Prop where
  pending : d'.pending = d.pending
  answers : d'.answers = d.answers
  role : d'.role = d.role

theorem Mute.refl (d : Driver κ μ) : d.Mute d := ⟨rfl, rfl, rfl⟩

theorem mute_takeSnapshot [Machine μ] (d : Driver κ μ) : d.Mute d.takeSnapshot.2 := by
  obtain ⟨machine, shelf, lastSnapshot, frame⟩ := d.takeSnapshot_frame
  rw [frame]
  exact ⟨rfl, rfl, rfl⟩

theorem mute_of_plain [Core κ] [Machine μ] [Carrier ω] {d d' : Driver κ μ} {w w' : ω} {a : Act}
    (plain : a.Plain) (done : d.perform w a = .done (d', w')) : d.Mute d' := by
  obtain ⟨_, _, _, _, _, _, _, _, rfl, -⟩ := frame_of_plain plain done
  exact ⟨rfl, rfl, rfl⟩

/-! ## Keys -/

theorem lookup_perm {β : Type} {l : List (Nat × β)} {k : Nat} (keys : (l.map Prod.fst).Nodup) :
    l.Perm (((l.lookup k).map (k, ·)).toList ++ l.filter (·.1 ≠ k)) := by
  induction l with
  | nil => exact .refl _
  | cons q l ih =>
    obtain ⟨new, keys⟩ := List.nodup_cons.mp keys
    by_cases same : q.1 = k
    · have others : l.filter (·.1 ≠ k) = l := by
        apply List.filter_eq_self.mpr
        intro x hx
        have : x.1 ≠ k := by
          intro again
          exact new (List.mem_map.mpr ⟨x, hx, again.trans same.symm⟩)
        simpa using this
      have found : (q :: l).lookup k = some q.2 := by
        rw [List.lookup_cons, same, beq_self_eq_true]
      rw [found, List.filter_cons_of_neg (by simpa using same), others, ← same]
      exact .refl _
    · have found : (q :: l).lookup k = l.lookup k := by
        have : (k == q.1) = false := by simpa using Ne.symm same
        rw [List.lookup_cons, this]
      rw [found, List.filter_cons_of_pos (by simpa using same)]
      exact ((ih keys).cons q).trans List.perm_middle.symm

/-- An entry put in its place among the others. -/
theorem insert_perm {β : Type} (l : List (Nat × β)) (k : Nat) (b : β) :
    (l.filter (·.1 < k) ++ (k, b) :: l.filter (k < ·.1)).Perm ((k, b) :: l.filter (·.1 ≠ k)) := by
  refine List.perm_middle.trans (.cons _ ?_)
  have below : l.filter (·.1 < k) = (l.filter (·.1 ≠ k)).filter (·.1 < k) := by
    rw [List.filter_filter]
    apply List.filter_congr
    intro x _
    apply Bool.eq_iff_iff.mpr
    simp only [Bool.and_eq_true, decide_eq_true_eq]
    omega
  have above : l.filter (k < ·.1) = (l.filter (·.1 ≠ k)).filter fun x => !decide (x.1 < k) := by
    rw [List.filter_filter]
    apply List.filter_congr
    intro x _
    apply Bool.eq_iff_iff.mpr
    simp only [Bool.and_eq_true, Bool.not_eq_true', decide_eq_true_eq, decide_eq_false_iff_not]
    omega
  rw [below, above]
  exact List.filter_append_perm _ _

/-- Whoever waits for `index`. -/
def waiter (d : Driver κ μ) (index : Nat) : List Nat :=
  ((d.pending.lookup index).map Proposal.ticket).toList

/-- The tickets that wait for another index than `index`. -/
def others (d : Driver κ μ) (index : Nat) : List Nat :=
  (d.pending.filter (·.1 ≠ index)).map fun q => q.2.ticket

theorem awaited_perm {d : Driver κ μ} (keyed : d.Keyed) (index : Nat) :
    d.awaited.Perm (d.waiter index ++ d.others index) := by
  have split := (lookup_perm (k := index) keyed).map fun q => q.2.ticket
  cases h : d.pending.lookup index <;> simpa [awaited, waiter, others, h] using split

theorem keyed_others {d : Driver κ μ} (keyed : d.Keyed) (index : Nat) :
    ((d.pending.filter (·.1 ≠ index)).map Prod.fst).Nodup :=
  List.Nodup.sublist (List.filter_sublist.map _) keyed

/-- A new proposal takes the place of whoever waited for its index before, who is answered. -/
theorem enlist_tickets {d : Driver κ μ} (keyed : d.Keyed) (index : Nat) (p : Proposal) :
    (d.enlist index p).Keyed ∧ (d.enlist index p).tickets.Perm (p.ticket :: d.tickets) := by
  have pending : (d.enlist index p).pending =
      d.pending.filter (·.1 < index) ++ (index, p) :: d.pending.filter (index < ·.1) := by
    cases h : d.pending.lookup index <;> simp only [enlist, h, answer]
  have answered : (d.enlist index p).answered = d.answered ++ d.waiter index := by
    cases h : d.pending.lookup index <;> simp [enlist, h, answer, Driver.answered, waiter]
  have place := insert_perm d.pending index p
  constructor
  · rw [Keyed, pending, (place.map Prod.fst).nodup_iff, List.map_cons, List.nodup_cons]
    refine ⟨?_, keyed_others keyed index⟩
    intro found
    obtain ⟨x, hx, same⟩ := List.mem_map.mp found
    simp [same] at hx
  · have awaited : (d.enlist index p).awaited.Perm (p.ticket :: d.others index) := by
      have := place.map fun q => q.2.ticket
      rwa [← pending] at this
    have before := awaited_perm keyed index
    apply List.perm_iff_count.mpr
    intro n
    have := awaited.count_eq n
    have := before.count_eq n
    simp only [tickets, answered, List.count_append, List.count_cons] at *
    omega

/-- Applying an entry answers whoever waits for its index. -/
theorem noteApplied_tickets {d : Driver κ μ} (keyed : d.Keyed) (e : Entry) :
    (d.noteApplied e).Keyed ∧ (d.noteApplied e).tickets.Perm d.tickets := by
  have before := awaited_perm keyed e.index
  rcases d.noteApplied_cases e with ⟨waits, same⟩ | ⟨p, o, waits, told, -⟩
  · rw [same]
    exact ⟨keyed, .refl _⟩
  · rw [told]
    refine ⟨keyed_others keyed e.index, List.perm_iff_count.mpr ?_⟩
    intro n
    have := before.count_eq n
    simp only [waiter, waits, Option.map_some, Option.toList_some] at this
    change (d.others e.index ++ (d.answers ++ [(p.ticket, o)]).map Prod.fst).count n = _
    simp only [tickets, answered, List.map_append, List.map_cons, List.map_nil,
      List.count_append] at *
    omega

end Driver

namespace Driver

variable {κ μ ω : Type}

theorem answer_tickets {d : Driver κ μ} (keyed : d.Keyed) (ticket : Nat) (o : Outcome) :
    (d.answer ticket o).Keyed ∧ (d.answer ticket o).tickets.Perm (ticket :: d.tickets) := by
  refine ⟨keyed, List.perm_iff_count.mpr ?_⟩
  intro n
  simp only [tickets, awaited, answered, answer, List.map_append, List.map_cons, List.map_nil,
    List.count_append, List.count_cons, List.count_nil]
  omega

theorem failPending_tickets (d : Driver κ μ) (f : Failure) :
    (d.failPending f).Keyed ∧ (d.failPending f).tickets.Perm d.tickets := by
  refine ⟨List.nodup_nil, List.perm_iff_count.mpr ?_⟩
  intro n
  have told : (d.failPending f).answered = d.answered ++ d.awaited := by
    simp [failPending, answered, awaited, Function.comp_def]
  simp only [tickets, told, List.count_append]
  simp only [awaited, failPending, List.map_nil, List.count_nil]
  omega

theorem Mute.tickets {d d' : Driver κ μ} (k : d.Mute d') (keyed : d.Keyed) :
    d'.Keyed ∧ d'.tickets.Perm d.tickets := by
  rw [Keyed, Driver.tickets, awaited, answered, k.pending, k.answers]
  exact ⟨keyed, .refl _⟩

variable [Core κ] [Machine μ] [Carrier ω]

omit [Carrier ω] in
/-- A command that is taken in is answered or under way. -/
theorem handle_tickets {d d' : Driver κ μ} {c : Command} (keyed : d.Keyed)
    (done : d.handle c = .ok d') :
    d'.Keyed ∧ d'.tickets.Perm (c.ticket?.toList ++ d.tickets) := by
  cases c with
  | propose ticket data =>
    rcases propose_cases done with ⟨-, _, rfl⟩ | ⟨-, _, core, -, rfl⟩ | ⟨-, core, -, rfl⟩
    · exact answer_tickets keyed _ _
    · exact answer_tickets (d := { d with core }) keyed _ _
    · exact enlist_tickets (d := { d with core }) keyed _ _
  | snapshot ticket =>
    cases done
    obtain ⟨keyed, same⟩ := d.mute_takeSnapshot.tickets keyed
    obtain ⟨keyed, told⟩ := answer_tickets keyed ticket (d.takeSnapshot.1.map .index)
    exact ⟨keyed, told.trans (same.cons ticket)⟩
  | membership ticket =>
    cases done
    exact answer_tickets keyed _ _
  | stop =>
    cases done
    exact ⟨keyed, .refl _⟩

omit [Machine μ] [Carrier ω] in
theorem observeRole_tickets {d : Driver κ μ} (keyed : d.Keyed) :
    d.observeRole.Keyed ∧ d.observeRole.tickets.Perm d.tickets := by
  rcases d.observeRole_cases with ⟨-, h⟩ | ⟨-, -, h⟩ | ⟨-, -, h⟩ <;> rw [h]
  · exact ⟨keyed, .refl _⟩
  · exact d.failPending_tickets .leadershipLost
  · exact ⟨keyed, .refl _⟩

/-- No statement loses a ticket or answers one twice. -/
theorem perform_tickets {d d' : Driver κ μ} {w w' : ω} {a : Act} (keyed : d.Keyed)
    (done : d.perform w a = .done (d', w')) :
    d'.Keyed ∧ d'.tickets.Perm (a.ticket?.toList ++ d.tickets) := by
  cases a with
  | handle c =>
    obtain ⟨_, hh, he⟩ := Effect.map_ofFault_done done
    cases he
    exact handle_tickets keyed hh
  | apply e =>
    obtain ⟨_, ha, he⟩ := Effect.map_ofApplied_done done
    cases he
    rcases apply_cases ha with ⟨-, rfl⟩ | ⟨-, machine, rfl, -⟩
    · exact ⟨keyed, .refl _⟩
    · exact noteApplied_tickets (d := { d with machine }) keyed e
  | observe =>
    cases done
    exact observeRole_tickets keyed
  | receive | tick | policy | send | restore | append | setHardState | setCommit | settle
  | publish => exact (mute_of_plain (by trivial) done).tickets keyed

end Driver

/-! ## The order of a loop -/

namespace Loop

variable {κ μ : Type}

/-- Only the statement that an iteration begins with takes in a command, and an iteration ends
with the coda. -/
structure Shaped (l : Loop κ μ) : Prop where
  head : ∀ a ∈ l.todo.tail, a.ticket? = none
  closing : l.stage = .closing → coda <:+ l.todo ∨ l.todo <:+ coda

theorem Shaped.rest {l : Loop κ μ} {d : Driver κ μ} {a : Act} {rest : List Act} (h : l.Shaped)
    (todo : l.todo = a :: rest) : Shaped { l with driver := d, todo := rest } where
  head := by
    intro b hb
    have := h.head
    rw [todo] at this
    exact this b (List.mem_of_mem_tail hb)
  closing := by
    intro stage
    have shape := h.closing stage
    rw [todo] at shape
    rcases shape with before | within
    · rcases List.suffix_cons_iff.mp before with same | before
      · refine Or.inr ?_
        change rest <:+ coda
        rw [same]
        exact List.suffix_cons a rest
      · exact Or.inl before
    · exact Or.inr ((List.suffix_cons a rest).trans within)

theorem ticket?_ready {r : Ready} : ∀ a ∈ r.acts, a.ticket? = none := by
  intro a ha
  simp only [Ready.acts, List.mem_append, List.mem_map, Option.mem_toList] at ha
  rcases ha with ((((⟨m, _, rfl⟩ | hs) | ⟨e, _, rfl⟩) | he) | hh) | ⟨m, _, rfl⟩
  · rfl
  · obtain ⟨s, _, rfl⟩ := Option.map_eq_some_iff.mp hs
    rfl
  · rfl
  · split at he
    · cases he
    · obtain rfl := List.mem_singleton.mp he
      rfl
  · obtain ⟨x, _, rfl⟩ := Option.map_eq_some_iff.mp hh
    rfl
  · rfl

theorem ticket?_followup {f : Followup} : ∀ a ∈ f.acts, a.ticket? = none := by
  intro a ha
  simp only [Followup.acts, List.mem_append, List.mem_map, Option.mem_toList,
    List.mem_singleton] at ha
  rcases ha with ((hc | ⟨m, _, rfl⟩) | ⟨e, _, rfl⟩) | rfl
  · obtain ⟨c, _, rfl⟩ := Option.map_eq_some_iff.mp hc
    rfl
  all_goals rfl

theorem ticket?_coda : ∀ a ∈ coda, a.ticket? = none := by
  intro a ha
  simp only [coda, List.mem_cons, List.not_mem_nil, or_false] at ha
  rcases ha with rfl | rfl <;> rfl

/-- No stage but the opening takes in a command. -/
theorem ticket?_turn [Core κ] {l l' : Loop κ μ} (busy : l.stage ≠ .closing)
    (turn : l.turn = .done l') :
    (∀ a ∈ l'.todo, a.ticket? = none) ∧ (l'.stage = .closing → coda <:+ l'.todo) := by
  simp only [Loop.turn] at turn
  split at turn
  · split at turn <;> cases turn
    · exact ⟨ticket?_coda, fun _ => List.suffix_rfl⟩
    · exact ⟨ticket?_ready, fun stage => by cases stage⟩
  · split at turn <;> cases turn
    refine ⟨?_, fun _ => List.suffix_append _ _⟩
    intro a ha
    rcases List.mem_append.mp ha with ha | ha
    · exact ticket?_followup a ha
    · exact ticket?_coda a ha
  · rename_i stage
    exact absurd stage busy

theorem mute_turn [Core κ] {l l' : Loop κ μ} (turn : l.turn = .done l') :
    l.driver.Mute l'.driver := by
  simp only [Loop.turn] at turn
  split at turn
  · split at turn <;> cases turn <;> exact ⟨rfl, rfl, rfl⟩
  · split at turn <;> cases turn
    exact ⟨rfl, rfl, rfl⟩
  · cases turn
    exact .refl _

end Loop

/-! ## Accounts -/

namespace Engine

variable {κ μ ω : Type}

/-- The tickets whose commands have not been taken in. -/
def waiting (e : Engine κ μ) : List Nat :=
  e.queue.filterMap Command.ticket? ++ e.loop.todo.filterMap Act.ticket?

/-- Every ticket is in one place, and once; when the engine has ended nobody was told twice. -/
structure Accounted (e : Engine κ μ) : Prop where
  keyed : e.driver.Keyed
  shaped : e.loop.Shaped
  places : e.ending = none → (e.waiting ++ e.driver.tickets).Perm (List.range e.issued)
  once : e.driver.answered.Nodup

/-- When its loop returns, an engine tells all that wait for it to be done or to be asked that
it has shut down. -/
theorem answers_returned (e : Engine κ μ) (r : Except Failure Unit) :
    (e.finish (.returned r)).driver.answers = e.driver.answers ++
      (e.driver.awaited ++ e.queue.filterMap Command.owed?).map (·, .error .shutdown) := by
  change (e.queue.foldl reject (e.driver.failPending .shutdown)).answers = _
  rw [foldl_reject]
  simp [Driver.failPending, Driver.awaited, Function.comp_def]

theorem answered_returned (e : Engine κ μ) (r : Except Failure Unit) :
    (e.finish (.returned r)).driver.answered =
      e.driver.answered ++ e.driver.awaited ++ e.queue.filterMap Command.owed? := by
  simp [Driver.answered, answers_returned, Function.comp_def]

theorem owed_sublist (queue : List Command) :
    (queue.filterMap Command.owed?).Sublist (queue.filterMap Command.ticket?) := by
  induction queue with
  | nil => exact .slnil
  | cons c queue ih =>
    cases c with
    | propose ticket _ | snapshot ticket => exact ih.cons_cons ticket
    | membership ticket => exact ih.cons ticket
    | stop => exact ih

theorem pending_returned (e : Engine κ μ) (r : Except Failure Unit) :
    (e.finish (.returned r)).driver.pending = [] := by
  change (e.queue.foldl reject (e.driver.failPending .shutdown)).pending = []
  rw [foldl_reject]
  rfl

namespace Accounted

variable {e : Engine κ μ}

theorem boot [Core κ] {id : Nat} {settings : Settings} {core : κ} {machine : μ} {shelf : Shelf}
    {peers : Directory} {now : Nat} :
    (Engine.boot id settings core machine shelf peers now).Accounted where
  keyed := List.nodup_nil
  shaped := ⟨fun _ ha => absurd ha List.not_mem_nil, fun _ => Or.inr (List.nil_suffix)⟩
  places _ := .refl _
  once := List.nodup_nil

/-- Tickets that are in one place while the engine runs are answered once at its end. -/
theorem finish (h : e.Accounted) (live : e.ending = none) (ending : Ending) :
    (e.finish ending).Accounted := by
  have all : (e.waiting ++ e.driver.tickets).Nodup :=
    (h.places live).nodup_iff.mpr List.nodup_range
  have shaped : (e.finish ending).loop.Shaped := ⟨h.shaped.head, h.shaped.closing⟩
  cases ending with
  | crashed f => exact ⟨h.keyed, shaped, (fun running => by cases running), h.once⟩
  | returned r =>
    refine ⟨?_, shaped, (fun running => by cases running), ?_⟩
    · rw [Driver.Keyed, pending_returned]
      exact List.nodup_nil
    · have parts : (e.queue.filterMap Command.ticket? ++ e.driver.tickets).Nodup := by
        refine all.sublist ?_
        rw [waiting, List.append_assoc]
        exact (List.sublist_append_right _ _).append_left _
      have told : (e.queue.filterMap Command.owed? ++ e.driver.tickets).Nodup :=
        parts.sublist ((owed_sublist e.queue).append_right _)
      rw [answered_returned]
      refine List.Perm.nodup (List.perm_iff_count.mpr ?_) told
      intro n
      simp only [Driver.tickets, List.count_append]
      omega

theorem issue (h : e.Accounted) {c : Command} (mine : c.ticket? = some e.issued) :
    Engine.Accounted { e with queue := e.queue ++ [c], issued := e.issued + 1 } := by
  refine ⟨h.keyed, h.shaped, ?_, h.once⟩
  intro live
  have places := h.places live
  apply List.perm_iff_count.mpr
  intro n
  have := places.count_eq n
  change ((e.queue ++ [c]).filterMap Command.ticket? ++ e.loop.todo.filterMap Act.ticket? ++
    e.driver.tickets).count n = _
  simp only [waiting, List.filterMap_append, List.filterMap_cons, List.filterMap_nil, mine,
    List.range_succ, List.count_append] at *
  omega

/-- A request to stop holds no ticket. -/
theorem requeue (h : e.Accounted) {queue : List Command} {claimed : Bool}
    (same : queue.filterMap Command.ticket? = e.queue.filterMap Command.ticket?) :
    Engine.Accounted { e with queue, claimed } := by
  refine ⟨h.keyed, h.shaped, ?_, h.once⟩
  intro live
  have places := h.places live
  rw [waiting, ← same] at places
  exact places

/-- An iteration that begins takes in at most one command. -/
theorem woken (h : e.Accounted) {queue : List Command} (cause : Option Command)
    (inbox : List Message) (t : Readings) (idle : e.loop.todo = [])
    (taken : e.queue = cause.toList ++ queue) :
    Engine.Accounted
      { e with queue, loop := e.loop.wake (cause.map .handle).toList inbox t } := by
  have plain : ∀ a ∈ inbox.map Act.receive ++ [.tick t.due t.ticked, .policy t.checked t.noted],
      a.ticket? = none := by
    intro a ha
    rcases List.mem_append.mp ha with ha | ha
    · obtain ⟨m, _, rfl⟩ := List.mem_map.mp ha
      rfl
    · simp only [List.mem_cons, List.not_mem_nil, or_false] at ha
      rcases ha with rfl | rfl <;> rfl
  have silent := List.filterMap_eq_nil_iff.mpr plain
  have todo : (e.loop.wake (cause.map .handle).toList inbox t).todo =
      (cause.map .handle).toList ++ (inbox.map .receive ++
        [.tick t.due t.ticked, .policy t.checked t.noted]) := by
    simp only [Loop.wake, List.append_assoc]
  refine ⟨h.keyed, ⟨?_, fun stage => by cases stage⟩, ?_, h.once⟩
  · intro a ha
    rw [todo] at ha
    cases cause with
    | none => exact plain a (List.mem_of_mem_tail ha)
    | some c => exact plain a ha
  · intro live
    have places := h.places live
    apply List.perm_iff_count.mpr
    intro n
    have := places.count_eq n
    change (queue.filterMap Command.ticket? ++ (e.loop.wake (cause.map .handle).toList inbox
      t).todo.filterMap Act.ticket? ++ e.driver.tickets).count n = _
    rw [todo, List.filterMap_append, silent]
    simp only [waiting, idle, taken] at this
    cases cause with
    | none => simpa using this
    | some c =>
      cases ticket : c.ticket? <;>
        simp only [Option.toList_some, Option.map_some, List.filterMap_append, List.filterMap_cons,
          List.filterMap_nil, Act.ticket?, ticket, List.append_nil, List.nil_append,
          List.count_append, List.count_cons, List.count_nil] at * <;> omega

variable {e' : Engine κ μ}

theorem asked (h : e.Accounted) (asks : e.Asks e') : e'.Accounted := by
  cases asks with
  | same => exact h
  | issue live mine => exact h.issue mine
  | stop added =>
    refine h.requeue ?_
    rcases added with rfl | rfl
    · rfl
    · rw [List.filterMap_append]
      exact List.append_nil _

theorem roused (h : e.Accounted) (rouses : e.Rouses e') : e'.Accounted := by
  cases rouses with
  | same => exact h
  | @ends queue rest left =>
    have fewer : queue.filterMap Command.ticket? = e.queue.filterMap Command.ticket? := by
      rcases left with rfl | stop
      · rfl
      · rw [stop]
        rfl
    exact (h.requeue fewer).finish (e.resting_iff.mp rest).1 _
  | wakes cause rest taken => exact h.woken cause _ _ (e.resting_iff.mp rest).2.2 taken

variable [Core κ] [Machine μ] [Carrier ω]

/-- A statement that fails has no ticket, and leaves all of them where they are. -/
theorem failed (h : e.Accounted) {a : Act} {rest : List Act} {f : Failure} {d : Driver κ μ}
    {w w' : ω} (todo : e.loop.todo = a :: rest)
    (stop : e.driver.perform w a = .stopped f (d, w')) :
    Engine.Accounted { e with loop := { e.loop with driver := d, todo := rest } } := by
  have silent : a.ticket? = none := by
    rcases (Driver.perform_stopped stop).2 with ⟨s, rfl, -⟩ | ⟨batch, rfl, -⟩ <;> rfl
  obtain ⟨machine, rfl⟩ := Driver.left_of_stopped stop
  refine ⟨h.keyed, h.shaped.rest todo, ?_, h.once⟩
  intro live
  have places := h.places live
  rw [waiting, todo, List.filterMap_cons_none silent] at places
  exact places

/-- One statement moves a ticket at most one place on. -/
theorem advance (h : e.Accounted) (w : ω) : (e.advance w).1.Accounted := by
  have step := e.advances w
  generalize (e.advance w).1 = e' at step
  cases step with
  | still => exact h
  | crashed live => exact h.finish live _
  | stopped live todo stop => exact (h.failed todo stop).finish live _
  | @did a rest d _ live todo done =>
    obtain ⟨keyed, moved⟩ := Driver.perform_tickets h.keyed done
    have places : (e.queue.filterMap Command.ticket? ++ rest.filterMap Act.ticket? ++
        d.tickets).Perm (List.range e.issued) := by
      refine .trans (List.perm_iff_count.mpr ?_) (h.places live)
      intro n
      have := moved.count_eq n
      cases ticket : a.ticket? <;>
        simp only [waiting, todo, List.filterMap_cons, ticket, Option.toList_none,
          Option.toList_some, List.nil_append, List.cons_append, List.count_append,
          List.count_cons] at * <;> omega
    refine ⟨keyed, h.shaped.rest todo, fun _ => places, ?_⟩
    have all := places.nodup_iff.mpr List.nodup_range
    exact (List.nodup_append.mp (List.nodup_append.mp all).2.1).2.1
  | @turned l live todo busy turn =>
    have k : e.driver.Mute l.driver := Loop.mute_turn turn
    obtain ⟨keyed, same⟩ := k.tickets h.keyed
    obtain ⟨plain, closing⟩ := Loop.ticket?_turn busy turn
    have shaped : l.Shaped :=
      ⟨fun a ha => plain a (List.mem_of_mem_tail ha), fun stage => Or.inl (closing stage)⟩
    refine ⟨keyed, shaped, ?_, ?_⟩
    · intro _
      have silent := List.filterMap_eq_nil_iff.mpr plain
      have places := h.places live
      change (e.queue.filterMap Command.ticket? ++ l.todo.filterMap Act.ticket? ++
        l.driver.tickets).Perm _
      rw [waiting, todo] at places
      rw [silent]
      exact ((same.append_left _).trans places)
    · change l.driver.answered.Nodup
      rw [Driver.answered, k.answers]
      exact h.once

end Accounted

end Engine

end QuorumLab
