import Mathlib.Tactic.MkIffOfInductiveProp
import QuorumLab.Proofs.Engine.Proposals

/-!
# What the record knows of an engine

While an engine runs, the record knows what waits in its queue, what is still to do and what
its driver has told. Every statement keeps this, if the protocol does as it promises.
-/

namespace QuorumLab

namespace History

variable {κ μ ω : Type} [Core κ]

/-- What the record says of a command that has not been taken in. -/
def Fits (h : History) : Command → Prop
  | .propose n data => (n, data) ∈ h.accepted
  | .snapshot n | .membership n => ¬ h.Proposed n
  | .stop => True

/-- The record after a statement has made `d'` of `d`. -/
def noteAct (h : History) (d d' : Driver κ μ) : Act → History
  | .handle (.propose n data) => h.notePropose n data d d'
  | .observe => h.noteObserve d'
  | _ => { h with reign := h.reign.next (Core.role d'.core) (Core.term d'.core) }

/-- What is known of the statement that is done next. -/
structure Expects [Machine μ] (h : History) (d : Driver κ (Traced μ)) (a : Act) : Prop where
  fits : ∀ c, a = .handle c → h.Fits c
  fresh : ∀ n data, a = .handle (.propose n data) → n ∉ d.answered ∧ (∀ x, (n, x) ∉ h.put) ∧
    (Core.role d.core = .leader → d.role = .leader)
  committed : ∀ x, a = .apply x → x ∈ h.committed
  ahead : ∀ s, a = .restore s → d.applied < s.index

/-- If a command is proposed next, its proposal is admitted. -/
def AdmitsAct (h : History) (d : Driver κ μ) : Act → Prop
  | .handle (.propose _ data) => h.AdmitsPropose d data
  | _ => True

instance (h : History) (d : Driver κ μ) : ∀ a, Decidable (h.AdmitsAct d a)
  | .handle (.propose _ data) => inferInstanceAs (Decidable (h.AdmitsPropose d data))
  | .handle (.snapshot _) | .handle (.membership _) | .handle .stop | .receive _ | .tick _ _
  | .policy _ _ | .send _ | .restore _ | .apply _ | .append _ | .setHardState _ | .setCommit _
  | .settle | .observe | .publish => isTrue trivial

section Act

variable {h : History} {d d' : Driver κ (Traced μ)} {issued : Nat} {a : Act} {w w' : ω}

omit [Core κ] in
/-- Whoever asked for something else is told something else. -/
theorem told_other {n : Nat} {o : Outcome} (told : h.Told false d) (other : ¬ h.Proposed n)
    (alike : d.applied = d'.applied ∧ d'.calls = d.calls) (answers : d'.answers = d.answers) :
    h.Told false (d'.answer n o) := by
  have added : (d'.answer n o).answers = d.answers ++ [(n, o)] := by
    rw [← answers]
    rfl
  refine told.append added (Nat.le_of_eq alike.1) (fun c hc => alike.2 ▸ hc) id ?_
  intro k o' hk data accepted
  obtain ⟨rfl, -⟩ := Prod.mk.inj (List.mem_singleton.mp hk)
  exact absurd ⟨data, accepted⟩ other

variable [Machine μ] [Carrier ω]

/-- Every statement keeps the record sound and what is told true. -/
theorem noteAct_spec (sound : h.Sound issued) (told : h.Told false d) (f : h.Follows d)
    (expects : h.Expects d a) (admits : h.AdmitsAct d a)
    (allowed : h.reign.Allows (Core.role d'.core) (Core.term d'.core))
    (done : d.perform w a = .done (d', w')) :
    (h.noteAct d d' a).Sound issued ∧ (h.noteAct d d' a).Told false d' ∧
      (h.noteAct d d' a).Follows d' := by
  cases a with
  | observe =>
    cases done
    have core : d.observeRole.core = d.core := by
      rcases d.observeRole_cases with ⟨-, eq⟩ | ⟨-, -, eq⟩ | ⟨-, -, eq⟩
      · rw [eq]
      · rw [eq]
        rfl
      · rw [eq]
    have noted : h.noteAct d d.observeRole .observe = h.noteObserve d := by
      rw [noteAct, noteObserve, core]
      rfl
    rw [noted]
    exact ⟨sound.extend (h.extends_noteObserve d) sound.known, told.observe f, f.observe⟩
  | apply x =>
    obtain ⟨_, ha, he⟩ := Effect.map_ofApplied_done done
    cases he
    obtain ⟨told, fewer, role⟩ := told.apply sound f (expects.committed x rfl) ha
    exact ⟨sound.extend (h.extends_reign _) sound.known, told.extend (h.extends_reign _),
      f.next fewer role (fun _ ha => ha) rfl allowed⟩
  | handle c =>
    obtain ⟨_, hh, he⟩ := Effect.map_ofFault_done done
    cases he
    cases c with
    | propose n data =>
      obtain ⟨new, unput, settled⟩ := expects.fresh n data rfl
      exact propose_spec told sound f settled (expects.fits _ rfl) new unput admits allowed hh
    | snapshot n =>
      cases hh
      have mute := d.mute_takeSnapshot
      have applied := d.applied_takeSnapshot.symm
      exact ⟨sound.extend (h.extends_reign _) sound.known,
        (told_other told (expects.fits _ rfl) ⟨applied, d.calls_takeSnapshot⟩ mute.answers).extend
          (h.extends_reign _),
        f.next (fun q hq => mute.pending ▸ hq) mute.role (fun _ ha => ha) rfl allowed⟩
    | membership n =>
      cases hh
      have told' : ∀ o, h.Told false (d.answer n o) := fun o =>
        told_other told (expects.fits _ rfl) ⟨rfl, rfl⟩ rfl
      exact ⟨sound.extend (h.extends_reign _) sound.known, (told' _).extend (h.extends_reign _),
        f.next (fun _ hq => hq) rfl (fun _ ha => ha) rfl allowed⟩
    | stop =>
      cases hh
      exact ⟨sound.extend (h.extends_reign _) sound.known, told.extend (h.extends_reign _),
        f.next (fun _ hq => hq) rfl (fun _ ha => ha) rfl allowed⟩
  | receive | tick | policy | send | restore | append | setHardState | setCommit | settle
  | publish =>
    have mute := Driver.mute_of_plain (by trivial) done
    have calls := Driver.calls_of_plain (by trivial) done
    have further := Driver.applied_le_perform expects.ahead done
    have told' : h.Told false d' := told.keep mute.answers further fun c hc => calls ▸ hc
    exact ⟨sound.extend (h.extends_reign _) sound.known, told'.extend (h.extends_reign _),
      f.next (fun q hq => mute.pending ▸ hq) mute.role (fun _ ha => ha) rfl allowed⟩

end Act

end History

/-! ## What is known while the engine runs -/

/-- At most one snapshot is still to restore. It lies beyond what is applied, and only messages
are sent before it. -/
def Act.Paced (applied : Nat) (todo : List Act) : Prop :=
  (∀ s, .restore s ∉ todo) ∨ ∃ (messages : List Message) (s : Snapshot) (rest : List Act),
    todo = messages.map .send ++ .restore s :: rest ∧ applied < s.index ∧ ∀ s', .restore s' ∉ rest

namespace Act.Paced

variable {κ μ ω : Type} {a : Act} {todo : List Act} {applied : Nat}

theorem restore_ready {r : Ready} (ahead : ∀ s ∈ r.snapshot, applied < s.index) :
    Paced applied r.acts := by
  have others : ∀ s, .restore s ∉ r.committed.map Act.apply ++
      ((if r.entries.isEmpty then [] else [.append r.entries]) ++
        ((r.hard.map Act.setHardState).toList ++ r.heldMessages.map Act.send)) := by
    intro s hs
    simp only [List.mem_append, List.mem_map, Option.mem_toList, Option.map_eq_some_iff] at hs
    rcases hs with ⟨_, _, h⟩ | hs | ⟨_, _, h⟩ | ⟨_, _, h⟩
    · cases h
    · split at hs
      · cases hs
      · cases List.mem_singleton.mp hs
    · cases h
    · cases h
  have acts : r.acts = r.messages.map .send ++ ((r.snapshot.map Act.restore).toList ++
      (r.committed.map Act.apply ++ ((if r.entries.isEmpty then [] else [.append r.entries]) ++
        ((r.hard.map Act.setHardState).toList ++ r.heldMessages.map Act.send)))) := by
    simp only [Ready.acts, List.append_assoc]
  rw [acts]
  cases snapshot : r.snapshot with
  | none =>
    refine Or.inl ?_
    intro s hs
    rcases List.mem_append.mp hs with hs | hs
    · obtain ⟨_, _, h⟩ := List.mem_map.mp hs
      cases h
    · exact others s hs
  | some s => exact Or.inr ⟨r.messages, s, _, rfl, ahead s snapshot, others⟩

theorem head {s : Snapshot} (h : Paced applied (.restore s :: todo)) : applied < s.index := by
  rcases h with none | ⟨messages, s', after, split, ahead, -⟩
  · exact absurd List.mem_cons_self (none s)
  · cases messages with
    | nil =>
      cases split
      exact ahead
    | cons m messages => cases split

theorem rest [Core κ] [Machine μ] [Carrier ω] {d d' : Driver κ μ} {w w' : ω}
    (h : Paced d.applied (a :: todo)) (done : d.perform w a = .done (d', w')) :
    Paced d'.applied todo := by
  rcases h with none | ⟨messages, s, after, split, ahead, others⟩
  · refine Or.inl ?_
    intro s hs
    exact none s (List.mem_cons_of_mem _ hs)
  · cases messages with
    | nil =>
      cases split
      exact Or.inl others
    | cons m messages =>
      cases split
      have same := (Driver.alike_of_quiet (by trivial) done).applied
      exact Or.inr ⟨messages, s, after, rfl, same ▸ ahead, others⟩

end Act.Paced

namespace Engine

variable {κ μ ω : Type} [Core κ]

/-- The entries that the next statement is given as committed. -/
def handed (e : Engine κ μ) : List Entry :=
  (e.round?.map Ready.committed).getD [] ++ (e.followup?.map Followup.committed).getD []

/-- A leader has observed that it leads before an iteration may take in a command. -/
def Settled (e : Engine κ μ) : Prop :=
  e.loop.todo.filterMap Act.ticket? ≠ [] ∨ e.loop.stage = .closing ∧ .observe ∉ e.loop.todo →
    Core.role e.driver.core = .leader → e.driver.role = .leader

end Engine

namespace History

variable {κ μ ω : Type} [Core κ]

/-- What the record knows of an engine that has not ended. -/
structure Guides (h : History) (e : Engine κ (Traced μ)) : Prop where
  follows : h.Follows e.driver
  queue : ∀ c ∈ e.queue, h.Fits c
  handling : ∀ c, .handle c ∈ e.loop.todo → h.Fits c
  committed : ∀ x, .apply x ∈ e.loop.todo → x ∈ h.committed
  paced : Act.Paced e.driver.applied e.loop.todo
  gone : ∀ a ∈ h.put, a.1 ∈ e.driver.tickets
  settled : e.Settled

/-- What the record knows of an engine at any time. -/
structure Knows (h : History) (e : Engine κ (Traced μ)) : Prop where
  accounted : e.Accounted
  sound : h.Sound e.issued
  told : h.Told e.ended e.driver
  guides : e.ending = none → h.Guides e
  returned : ∀ r, e.ending = some (.returned r) → ∀ n, h.Proposed n → n ∈ e.driver.answered

/-- The record after an engine `e` has done its next statement and become `e'`. -/
def noteWork (h : History) (e e' : Engine κ μ) : History :=
  match e.loop.todo with
  | a :: _ => h.noteAct e.driver e'.driver a
  | [] => { h with
      committed := h.committed ++ e.handed
      reign := h.reign.next (Core.role e'.driver.core) (Core.term e'.driver.core) }

/-- What the protocol promises of the statement that makes `e'` of `e`. -/
@[mk_iff]
structure AdmitsWork (h : History) (e e' : Engine κ μ) : Prop where
  act : ∀ a ∈ e.loop.todo.head?, h.AdmitsAct e.driver a
  /-- A snapshot goes beyond what is applied. -/
  ahead : ∀ r ∈ e.round?, ∀ s ∈ r.snapshot, e.driver.applied < s.index
  /-- There is at most one entry of an index and a term. -/
  agreed : Compatible (h.known ++ e.handed)
  /-- Leadership is not lost and regained before the node looks at its role. -/
  reign : h.reign.Allows (Core.role e'.driver.core) (Core.term e'.driver.core)

instance (h : History) (e e' : Engine κ μ) : Decidable (h.AdmitsWork e e') :=
  decidable_of_iff _ (admitsWork_iff h e e').symm

end History

/-! ## One statement -/

namespace History

variable {κ μ ω : Type} [Core κ] {h : History}

section Records

variable {d d' : Driver κ μ} {a : Act}

theorem noteAct_accepted : (h.noteAct d d' a).accepted = h.accepted := by
  cases a with
  | handle c => cases c <;> rfl
  | _ => rfl

theorem noteAct_committed : (h.noteAct d d' a).committed = h.committed := by
  cases a with
  | handle c => cases c <;> rfl
  | _ => rfl

/-- Only the command that is taken in may be put into the log. -/
theorem noteAct_put : ∀ b ∈ (h.noteAct d d' a).put, b ∈ h.put ∨ a.ticket? = some b.1 := by
  intro b hb
  cases a with
  | handle c =>
    cases c with
    | propose n data =>
      simp only [noteAct, notePropose] at hb
      split at hb
      · exact Or.inl hb
      · rcases List.mem_append.mp hb with old | new
        · exact Or.inl old
        · rw [List.mem_singleton.mp new]
          exact Or.inr rfl
    | snapshot | membership | stop => exact Or.inl hb
  | _ => exact Or.inl hb

/-- A statement that changes neither the protocol nor the stores puts nothing into the log. -/
theorem extends_noteAct (core : d'.core = d.core) (shelf : d'.shelf = d.shelf) :
    h.Extends (h.noteAct d d' a) := by
  cases a with
  | observe => exact h.extends_noteObserve d'
  | handle c =>
    cases c with
    | propose n data => exact extends_notePropose (by rw [core, shelf])
    | snapshot | membership | stop => exact h.extends_reign _
  | _ => exact h.extends_reign _

end Records

variable {e e' : Engine κ (Traced μ)}

theorem extends_noteWork (core : e'.driver.core = e.driver.core)
    (shelf : e'.driver.shelf = e.driver.shelf) : h.Extends (h.noteWork e e') := by
  cases todo : e.loop.todo with
  | nil =>
    simp only [noteWork, todo]
    exact ⟨rfl, rfl, fun _ hx => List.mem_append_left _ hx, fun _ ht => ht⟩
  | cons a rest =>
    simp only [noteWork, todo]
    exact extends_noteAct core shelf

theorem known_noteWork (x : h.Extends (h.noteWork e e'))
    (agreed : Compatible (h.known ++ e.handed)) : Compatible (h.noteWork e e').known := by
  apply agreed.mono
  intro y hy
  rw [known, x.put] at hy
  rcases List.mem_append.mp hy with put | committed
  · exact List.mem_append_left _ (List.mem_append_left _ put)
  · cases todo : e.loop.todo with
    | nil =>
      simp only [noteWork, todo] at committed
      rcases List.mem_append.mp committed with old | new
      · exact List.mem_append_left _ (List.mem_append_right _ old)
      · exact List.mem_append_right _ new
    | cons a rest =>
      simp only [noteWork, todo, noteAct_committed] at committed
      exact List.mem_append_left _ (List.mem_append_right _ committed)

namespace Knows

/-- Of an engine that runs, nothing but what guides it is to be known besides. -/
theorem running (accounted : e.Accounted) (live : e.ending = none) (sound : h.Sound e.issued)
    (told : h.Told e.ended e.driver) (guides : h.Guides e) : h.Knows e where
  accounted := accounted
  sound := sound
  told := told
  guides _ := guides
  returned r returned := by
    rw [live] at returned
    cases returned

/-- After an engine has ended, more may be known of its protocol, and it does not matter. -/
theorem extend {h' : History} (know : h.Knows e) (past : e.ended = true) (x : h.Extends h')
    (known : Compatible h'.known) : h'.Knows e where
  accounted := know.accounted
  sound := know.sound.extend x known
  told := know.told.extend x
  guides live := by simp [Engine.ended, live] at past
  returned r returned n := by
    rintro ⟨data, proposed⟩
    exact know.returned r returned n ⟨data, x.accepted ▸ proposed⟩

theorem mem_owed {queue : List Command} {n : Nat} (fits : ∀ c ∈ queue, h.Fits c)
    (proposed : h.Proposed n) (waits : n ∈ queue.filterMap Command.ticket?) :
    n ∈ queue.filterMap Command.owed? := by
  obtain ⟨c, hc, ticket⟩ := List.mem_filterMap.mp waits
  refine List.mem_filterMap.mpr ⟨c, hc, ?_⟩
  have fits := fits c hc
  cases c with
  | propose m data => exact ticket
  | snapshot m | membership m =>
    cases ticket
    exact absurd proposed fits
  | stop => cases ticket

/-- The tickets that a running engine has taken in were given out. -/
theorem mem_tickets_lt (know : h.Knows e) (live : e.ending = none) {n : Nat}
    (taken : n ∈ e.waiting ++ e.driver.tickets) : n < e.issued :=
  List.mem_range.mp ((know.accounted.places live).mem_iff.mp taken)

/-- An engine that returns with no command taken in half has answered every one. -/
theorem of_finish (accounted : e.Accounted) (sound : h.Sound e.issued)
    (told : h.Told e.ended e.driver) (queue : ∀ c ∈ e.queue, h.Fits c) (live : e.ending = none)
    (ending : Ending)
    (whole : ∀ r, ending = .returned r → e.loop.todo.filterMap Act.ticket? = []) :
    h.Knows (e.finish ending) := by
  have alike := (e.alike_finish ending).1
  have calls : (e.finish ending).driver.calls = e.driver.calls := by
    rw [Driver.calls, Driver.calls, alike.machine]
  constructor
  case accounted => exact accounted.finish live ending
  case sound => exact sound
  case told =>
    cases ending with
    | crashed f =>
      exact told.append (List.append_nil _).symm (Nat.le_refl _) (fun _ hc => hc)
        (fun _ => rfl) fun _ _ hn => by cases hn
    | returned r =>
      apply told.append (e.answers_returned r) (Nat.le_of_eq alike.applied.symm)
        (fun c hc => calls ▸ hc) (fun _ => rfl)
      intro n o hn data _
      obtain ⟨_, -, same⟩ := List.mem_map.mp hn
      obtain ⟨-, rfl⟩ := Prod.mk.inj same
      exact ⟨rfl, fun i same => by cases same⟩
  case guides =>
    intro running
    cases running
  case returned =>
    rintro r returned n ⟨data, proposed⟩
    obtain rfl : ending = .returned r := Option.some.inj returned
    have taken : n ∈ e.waiting ++ e.driver.tickets :=
      (accounted.places live).mem_iff.mpr
        (List.mem_range.mpr (sound.accepted_lt n data proposed))
    rw [e.answered_returned]
    rw [Engine.waiting, whole r rfl, List.append_nil] at taken
    rcases List.mem_append.mp taken with waits | taken
    · exact List.mem_append_right _ (mem_owed queue ⟨data, proposed⟩ waits)
    · rcases List.mem_append.mp taken with awaited | answered
      · exact List.mem_append_left _ (List.mem_append_right _ awaited)
      · exact List.mem_append_left _ (List.mem_append_left _ answered)

theorem finish (know : h.Knows e) (live : e.ending = none) (ending : Ending)
    (whole : ∀ r, ending = .returned r → e.loop.todo.filterMap Act.ticket? = []) :
    h.Knows (e.finish ending) :=
  of_finish know.accounted know.sound know.told (know.guides live).queue live ending whole

end Knows

end History

namespace Loop

variable {κ μ : Type} {l : Loop κ μ} {a : Act} {rest : List Act}

/-- Nothing but publishing comes after a look at the role. -/
theorem Shaped.last (h : l.Shaped) (todo : l.todo = a :: rest) (stage : l.stage = .closing)
    (seen : .observe ∉ rest) : a = .observe ∨ a = .publish := by
  have shape := h.closing stage
  rw [todo] at shape
  rcases shape with before | within
  · rcases List.suffix_cons_iff.mp before with same | before
    · cases same
      exact Or.inl rfl
    · exact absurd (before.subset (by simp [coda])) seen
  · rcases List.suffix_cons_iff.mp within with same | within
    · cases same
      exact Or.inl rfl
    · rcases List.suffix_cons_iff.mp within with same | none
      · cases same
        exact Or.inr rfl
      · exact absurd (List.suffix_nil.mp none) (List.cons_ne_nil _ _)

end Loop

namespace History

variable {κ μ ω : Type} [Core κ] {h : History} {e : Engine κ (Traced μ)}

theorem Fits.of_accepted {h' : History} {c : Command} (fits : h.Fits c)
    (same : h'.accepted = h.accepted) : h'.Fits c := by
  cases c with
  | propose n data =>
    change (n, data) ∈ h'.accepted
    exact same ▸ fits
  | snapshot n | membership n =>
    rintro ⟨data, proposed⟩
    exact fits ⟨data, same ▸ proposed⟩
  | stop => trivial

namespace Knows

variable [Machine μ] [Carrier ω] {a : Act} {rest : List Act} {d : Driver κ (Traced μ)} {w w' : ω}

omit [Carrier ω] in
/-- A command that is taken in is in no other place. -/
theorem expects (know : h.Knows e) (live : e.ending = none) (todo : e.loop.todo = a :: rest) :
    h.Expects e.driver a := by
  have guides := know.guides live
  have next : a ∈ e.loop.todo := todo ▸ List.mem_cons_self
  constructor
  case fits =>
    rintro c rfl
    exact guides.handling c next
  case fresh =>
    rintro n data rfl
    have waits : n ∈ e.waiting :=
      List.mem_append_right _ (List.mem_filterMap.mpr ⟨_, next, rfl⟩)
    have once : (e.waiting ++ e.driver.tickets).Nodup :=
      (know.accounted.places live).nodup_iff.mpr List.nodup_range
    have apart : n ∉ e.driver.tickets := by
      intro taken
      exact (List.nodup_append.mp once).2.2 n waits n taken rfl
    refine ⟨?_, ?_, guides.settled (Or.inl ?_)⟩
    · intro answered
      exact apart (List.mem_append_right _ answered)
    · intro x put
      exact apart (guides.gone _ put)
    · rw [todo, List.filterMap_cons]
      exact List.cons_ne_nil _ _
  case committed =>
    rintro x rfl
    exact guides.committed x next
  case ahead =>
    rintro s rfl
    exact (todo ▸ guides.paced).head

/-- What is known after a statement was done. -/
theorem did (know : h.Knows e) (live : e.ending = none) (todo : e.loop.todo = a :: rest)
    (admits : h.AdmitsAct e.driver a)
    (allowed : h.reign.Allows (Core.role d.core) (Core.term d.core))
    (done : e.driver.perform w a = .done (d, w'))
    (accounted : Engine.Accounted { e with loop := { e.loop with driver := d, todo := rest } }) :
    (h.noteAct e.driver d a).Knows
      { e with loop := { e.loop with driver := d, todo := rest } } := by
  have guides := know.guides live
  have told : h.Told false e.driver := by
    have := know.told
    rwa [Engine.ended, live] at this
  obtain ⟨sound, told, follows⟩ :=
    noteAct_spec know.sound told guides.follows (know.expects live todo) admits allowed done
  have left : ∀ b ∈ rest, b ∈ e.loop.todo := by
    intro b hb
    rw [todo]
    exact List.mem_cons_of_mem a hb
  have moved := (Driver.perform_tickets know.accounted.keyed done).2
  apply running accounted live sound (by rwa [Engine.ended, live])
  constructor
  case follows => exact follows
  case queue =>
    intro c hc
    exact (guides.queue c hc).of_accepted noteAct_accepted
  case handling =>
    intro c hc
    exact (guides.handling c (left _ hc)).of_accepted noteAct_accepted
  case committed =>
    intro x hx
    rw [noteAct_committed]
    exact guides.committed x (left _ hx)
  case paced => exact (todo ▸ guides.paced).rest done
  case gone =>
    intro b hb
    apply moved.mem_iff.mpr
    rcases noteAct_put b hb with old | taken
    · exact List.mem_append_right _ (guides.gone b old)
    · rw [taken]
      exact List.mem_append_left _ (List.mem_singleton.mpr rfl)
  case settled =>
    have later : rest.filterMap Act.ticket? = [] := by
      apply List.filterMap_eq_nil_iff.mpr
      intro b hb
      exact know.accounted.shaped.head b (by rwa [todo])
    rintro (taken | ⟨stage, seen⟩)
    · exact absurd later taken
    rcases know.accounted.shaped.last todo stage seen with rfl | rfl
    · cases done
      change Core.role e.driver.observeRole.core = .leader → e.driver.observeRole.role = .leader
      rcases e.driver.observeRole_cases with ⟨same, eq⟩ | ⟨-, -, eq⟩ | ⟨-, -, eq⟩ <;> rw [eq]
      · exact fun leader => same ▸ leader
      · exact id
      · exact id
    · cases done
      refine guides.settled (Or.inr ⟨stage, ?_⟩)
      rw [todo]
      simpa using seen

end Knows

end History

namespace Engine

variable {κ μ : Type} [Core κ] {e : Engine κ μ} {l : Loop κ μ}

/-- What is to apply in a stage was given for it. -/
theorem handed_of_turn (live : e.ending = none) (todo : e.loop.todo = [])
    (busy : e.loop.stage ≠ .closing) (turn : e.loop.turn = .done l) :
    ∀ x, .apply x ∈ l.todo → x ∈ e.handed := by
  intro x hx
  obtain ⟨-, -, ⟨-, -, acts, -⟩ | ⟨r, round, -, acts, -⟩ | ⟨f, -, followup, acts, -⟩⟩ :=
    turn_cases live todo busy turn <;> rw [acts] at hx
  · simp [Loop.coda] at hx
  · have given : x ∈ r.committed := by
      simp only [Ready.acts, List.mem_append, List.mem_map, Option.mem_toList] at hx
      rcases hx with ((((⟨_, _, h⟩ | h) | ⟨y, hy, h⟩) | h) | h) | ⟨_, _, h⟩
      · cases h
      · simp at h
      · cases h
        exact hy
      · split at h <;> simp at h
      · simp at h
      · cases h
    rw [handed, round]
    exact List.mem_append_left _ given
  · have given : x ∈ f.committed := by
      simpa [Followup.acts, Loop.coda] using hx
    rw [handed, followup]
    exact List.mem_append_right _ given

theorem paced_of_turn (live : e.ending = none) (todo : e.loop.todo = [])
    (busy : e.loop.stage ≠ .closing) (turn : e.loop.turn = .done l)
    (ahead : ∀ r ∈ e.round?, ∀ s ∈ r.snapshot, e.driver.applied < s.index) :
    Act.Paced e.driver.applied l.todo := by
  obtain ⟨-, -, ⟨-, -, acts, -⟩ | ⟨r, round, -, acts, -⟩ | ⟨f, -, -, acts, -⟩⟩ :=
    turn_cases live todo busy turn <;> rw [acts]
  · exact Or.inl fun s hs => by simp [Loop.coda] at hs
  · exact .restore_ready (ahead r round)
  · exact Or.inl fun s hs => by simp [Followup.acts, Loop.coda] at hs

end Engine

namespace History.Knows

variable {κ μ ω : Type} [Core κ] {h : History} {e : Engine κ (Traced μ)}

/-- What is known at the beginning of a stage. -/
theorem turned {l : Loop κ (Traced μ)} (know : h.Knows e) (live : e.ending = none)
    (todo : e.loop.todo = []) (busy : e.loop.stage ≠ .closing) (turn : e.loop.turn = .done l)
    (admits : h.AdmitsWork e { e with loop := l })
    (accounted : Engine.Accounted { e with loop := l }) :
    (h.noteWork e { e with loop := l }).Knows { e with loop := l } := by
  have guides := know.guides live
  obtain ⟨core, driver, -⟩ := Engine.turn_cases live todo busy turn
  have given := Engine.handed_of_turn live todo busy turn
  have paced := Engine.paced_of_turn live todo busy turn admits.ahead
  have mute := Loop.mute_turn turn
  have noted : h.noteWork e { e with loop := l } = { h with
      committed := h.committed ++ e.handed
      reign := h.reign.next (Core.role l.driver.core) (Core.term l.driver.core) } := by
    simp only [noteWork, todo]
    rfl
  have x : h.Extends (h.noteWork e { e with loop := l }) := by
    rw [noted]
    exact ⟨rfl, rfl, fun _ hx => List.mem_append_left _ hx, fun _ ht => ht⟩
  have told : h.Told e.ended l.driver := by
    apply know.told.keep mute.answers (Nat.le_of_eq (by rw [driver]))
    intro c hc
    rw [driver]
    exact hc
  obtain ⟨silent, closing⟩ := Loop.ticket?_turn busy turn
  apply running accounted live (know.sound.extend x (known_noteWork x admits.agreed))
    (told.extend x)
  constructor
  case follows =>
    apply guides.follows.next (fun q hq => mute.pending ▸ hq) mute.role (fun a ha => x.put ▸ ha)
      ?_ admits.reign
    rw [noted]
  case queue =>
    intro c hc
    exact (guides.queue c hc).of_accepted x.accepted
  case handling =>
    intro c hc
    have other : c.ticket? = none := silent _ hc
    cases c with
    | stop => trivial
    | propose | snapshot | membership => cases other
  case committed =>
    intro y hy
    rw [noted]
    exact List.mem_append_right _ (given y hy)
  case paced =>
    change Act.Paced l.driver.applied l.todo
    rw [driver]
    exact paced
  case gone =>
    intro a ha
    rw [x.put] at ha
    exact ((mute.tickets know.accounted.keyed).2.mem_iff).mpr (guides.gone a ha)
  case settled =>
    rintro (taken | ⟨stage, seen⟩)
    · exact absurd (List.filterMap_eq_nil_iff.mpr silent) taken
    · exact absurd ((closing stage).subset (by simp [Loop.coda])) seen

/-- An engine that does not survive a statement has done nothing of it. -/
theorem crashed (know : h.Knows e) (live : e.ending = none) {f : Fault}
    (admits : h.AdmitsWork e (e.finish (.crashed f))) :
    (h.noteWork e (e.finish (.crashed f))).Knows (e.finish (.crashed f)) := by
  obtain ⟨alike, core⟩ := e.alike_finish (.crashed f)
  have x : h.Extends (h.noteWork e (e.finish (.crashed f))) := extends_noteWork core alike.shelf
  have ended := know.finish live (.crashed f) fun r same => by cases same
  exact ended.extend rfl x (known_noteWork x admits.agreed)

/-- An engine whose machine refuses a snapshot, or its log entries, has done nothing of it but what
the machine made of itself. -/
theorem stopped [Machine μ] [Carrier ω] (know : h.Knows e) (live : e.ending = none) {a : Act}
    {rest : List Act} {f : Failure} {d : Driver κ (Traced μ)} {w w' : ω}
    (todo : e.loop.todo = a :: rest) (stop : e.driver.perform w a = .stopped f (d, w'))
    (admits : h.AdmitsWork e (({ e with loop := { e.loop with driver := d, todo := rest } } :
      Engine κ (Traced μ)).finish (.returned (.error f)))) :
    let e' := ({ e with loop := { e.loop with driver := d, todo := rest } } :
      Engine κ (Traced μ)).finish (.returned (.error f))
    (h.noteWork e e').Knows e' := by
  let behind : Engine κ (Traced μ) := { e with loop := { e.loop with driver := d, todo := rest } }
  have calls := Driver.calls_of_stopped stop
  have accounted : behind.Accounted := know.accounted.failed todo stop
  obtain ⟨machine, rfl⟩ := Driver.left_of_stopped stop
  have told : h.Told behind.ended behind.driver :=
    know.told.keep rfl (Nat.le_refl _) fun c hc => calls ▸ hc
  have whole : rest.filterMap Act.ticket? = [] := by
    have shaped := know.accounted.shaped.head
    rw [todo] at shaped
    exact List.filterMap_eq_nil_iff.mpr shaped
  obtain ⟨alike, core⟩ := behind.alike_finish (.returned (.error f))
  have x : h.Extends (h.noteWork e (behind.finish (.returned (.error f)))) :=
    extends_noteWork core alike.shelf
  have ended : h.Knows (behind.finish (.returned (.error f))) :=
    of_finish accounted know.sound told (know.guides live).queue live _ fun _ _ => whole
  exact ended.extend rfl x (known_noteWork x admits.agreed)

/-- An engine that is held up, or that has ended, stays as it is. -/
theorem still (know : h.Knows e) (admits : h.AdmitsWork e e)
    (held : e.ending = none → e.loop.todo = [] ∨ ∃ x rest, e.loop.todo = .apply x :: rest) :
    (h.noteWork e e).Knows e := by
  have x : h.Extends (h.noteWork e e) := extends_noteWork rfl rfl
  have known := known_noteWork x admits.agreed
  rcases Option.eq_none_or_eq_some e.ending with live | ⟨ending, past⟩
  · have guides := know.guides live
    have reign : (h.noteWork e e).reign =
        h.reign.next (Core.role e.driver.core) (Core.term e.driver.core) := by
      rcases held live with todo | ⟨y, rest, todo⟩
      · simp only [noteWork, todo]
      · simp only [noteWork, todo]
        rfl
    apply running know.accounted live (know.sound.extend x known) (know.told.extend x)
    constructor
    case follows =>
      exact guides.follows.next (fun _ hq => hq) rfl (fun a ha => x.put ▸ ha) reign admits.reign
    case queue =>
      intro c hc
      exact (guides.queue c hc).of_accepted x.accepted
    case handling =>
      intro c hc
      exact (guides.handling c hc).of_accepted x.accepted
    case committed =>
      intro y hy
      exact x.committed y (guides.committed y hy)
    case paced => exact guides.paced
    case gone =>
      rw [x.put]
      exact guides.gone
    case settled => exact guides.settled
  · exact know.extend (by simp [Engine.ended, past]) x known

variable [Machine μ] [Carrier ω]

/-- One statement keeps what is known, if the protocol does as it promises. -/
theorem advance (know : h.Knows e) (w : ω) (admits : h.AdmitsWork e (e.advance w).1) :
    (h.noteWork e (e.advance w).1).Knows (e.advance w).1 := by
  have accounted := know.accounted.advance w
  have step := e.advances w
  generalize (e.advance w).1 = e' at step accounted admits ⊢
  cases step with
  | still _ _ held => exact know.still admits held
  | crashed live => exact know.crashed live admits
  | turned live todo busy turn => exact know.turned live todo busy turn admits accounted
  | @did a rest d w' live todo done =>
    have noted : h.noteWork e { e with loop := { e.loop with driver := d, todo := rest } } =
        h.noteAct e.driver d a := by
      simp only [noteWork, todo]
      rfl
    rw [noted]
    exact know.did live todo (admits.act a (by rw [todo]; rfl)) admits.reign done accounted
  | stopped live todo stop => exact know.stopped live todo stop admits

end History.Knows

end QuorumLab
