import QuorumLab.Machine.Rig
import QuorumLab.Proofs.Engine.Chronicle
import QuorumLab.Proofs.Engine.Timing

/-!
# The spacing of snapshots

A node takes a snapshot when its policy says so or a handle asks for one, and restores those of
others. A look at the policy counts whatever comes of it, so a snapshot that fails is not tried
again before a further interval. However a snapshot came about, the next one lies above it, and
one that the policy takes lies above it by the threshold.
-/

namespace QuorumLab

/-- A log can be cut anywhere below an entry whose term it knows. -/
theorem Log.compact_ok_of_term {l : Log} {index term cut : Nat} (known : l.term index = .ok term)
    (below : cut ≤ index) : ∃ log, l.compact (cut + 1) = .ok log := by
  by_cases behind : cut + 1 ≤ l.first
  · exact ⟨l, if_pos behind⟩
  · simp only [first] at behind
    have held : index - l.first < l.entries.length := by
      rw [Log.term, if_neg (by omega), if_neg (by omega)] at known
      rcases Nat.lt_or_ge (index - l.first) l.entries.length with inside | past
      · exact inside
      · rw [List.getElem?_eq_none past] at known
        cases known
    have inside : cut + 1 - l.first - 1 < l.entries.length := by
      simp only [first] at held ⊢
      omega
    rw [compact, if_neg (by simpa only [first] using behind), List.getElem?_eq_getElem inside]
    exact ⟨_, rfl⟩

/-! ## What is noted -/

/-- What came of a look at the policy: too little was applied, or a snapshot failed or was taken
at an index. -/
inductive Attempt where
  | early
  | failed (f : Failure)
  | taken (index : Nat)
  deriving Repr, DecidableEq

/-- A look at the policy once its interval was over: when it began, and what it noted as its
time. -/
structure Look where
  now : Nat
  noted : Nat
  attempt : Attempt
  deriving Repr, DecidableEq

/-- What moves the next snapshot: a look at the policy, a snapshot that a handle asked for, and
one that was restored. -/
inductive Milestone where
  | look (l : Look)
  | request (index : Nat)
  | restore (index : Nat)
  deriving Repr, DecidableEq

namespace Milestone

def look? : Milestone → Option Look
  | look l => some l
  | _ => none

/-- The index of the snapshot that was taken or restored. -/
def index? : Milestone → Option Nat
  | look ⟨_, _, .taken index⟩ | request index | restore index => some index
  | _ => none

/-- The index of the latest snapshot, where the one at the start was at `i₀`. -/
def latest (i₀ : Nat) (milestones : List Milestone) : Nat :=
  (milestones.filterMap index?).getLastD i₀

end Milestone

/-- Where the policy last looked, and the index of the last snapshot. -/
structure Marks where
  check : Nat
  last : Nat

namespace Driver

variable {κ μ : Type} [Machine μ]

def marks (d : Driver κ μ) : Marks := { check := d.lastCheck, last := d.lastSnapshot }

/-- What comes of a look at the policy. -/
def attempt (d : Driver κ μ) : Attempt :=
  if d.applied - d.lastSnapshot < d.settings.snapshotThreshold then .early
  else match d.takeSnapshot.1 with
    | .ok index => .taken index
    | .error f => .failed f

end Driver

/-- What is noted of a statement. -/
def Milestone.note {κ μ : Type} [Machine μ] (_ : Nat) (d : Driver κ μ) : Act → Option Milestone
  | .policy now noted =>
    if now - d.lastCheck < d.settings.snapshotInterval then none
    else
      let d : Driver κ μ := { d with lastCheck := noted }
      some (.look { now, noted, attempt := d.attempt })
  | .handle (.snapshot _) =>
    match d.takeSnapshot.1 with
    | .ok index => some (.request index)
    | .error _ => none
  | .restore s =>
    match d.restore s with
    | .ok _ => some (.restore s.index)
    | .error _ => none
  | _ => none

/-- A snapshot is restored only if it is newer than anything applied. -/
def Act.Newer {κ μ : Type} (d : Driver κ μ) : Act → Prop
  | .restore s => d.applied < s.index
  | _ => True

instance {κ μ : Type} (d : Driver κ μ) : ∀ a : Act, Decidable (a.Newer d)
  | .restore s => inferInstanceAs (Decidable (d.applied < s.index))
  | .receive _ | .handle _ | .tick _ _ | .policy _ _ | .send _ | .apply _ | .append _
  | .setHardState _ | .setCommit _ | .settle | .observe | .publish => isTrue trivial

namespace Milestone

/-! ## Distances -/

/-- The milestone keeps its distance from the marks before it, and leaves its own. -/
structure Step (s : Settings) (b : Marks) (x : Milestone) (b' : Marks) : Prop where
  looks : ∀ l ∈ x.look?, b.check + s.snapshotInterval ≤ l.now ∧ l.now ≤ l.noted
  enough : ∀ l ∈ x.look?, ∀ i, l.attempt = .taken i → b.last + s.snapshotThreshold ≤ i
  above : ∀ i ∈ x.index?, b.last < i
  check : b'.check = (x.look?.map Look.noted).getD b.check
  last : b'.last = x.index?.getD b.last

/-- The milestones keep their distances, the first from the marks `b`, and leave `b'`. -/
abbrev Spaced (s : Settings) : Marks → List Milestone → Marks → Prop := Leads (Step s)

section Step

variable {s : Settings} {b : Marks}

theorem step_look {l : Look} (apart : b.check + s.snapshotInterval ≤ l.now)
    (forward : l.now ≤ l.noted)
    (taken : ∀ i, l.attempt = .taken i → b.last + s.snapshotThreshold ≤ i ∧ b.last < i) :
    Step s b (.look l) { check := l.noted, last := (index? (.look l)).getD b.last } where
  looks _ same := Option.some.inj same ▸ ⟨apart, forward⟩
  enough _ same i came := (taken i (Option.some.inj same ▸ came)).1
  above i came := by
    obtain ⟨now, noted, attempt⟩ := l
    cases attempt with
    | taken j => exact (taken i (congrArg _ (Option.some.inj came))).2
    | early | failed => cases came
  check := rfl
  last := rfl

theorem step_of_index {x : Milestone} {i : Nat} (look : x.look? = none) (index : x.index? = some i)
    (above : b.last < i) : Step s b x { b with last := i } where
  looks := by simp [look]
  enough := by simp [look]
  above := by simpa [index] using above
  check := by simp [look]
  last := by simp [index]

end Step

namespace Spaced

variable {s : Settings} {b b' : Marks} {milestones : List Milestone}

/-- Before each look a whole interval has passed. -/
theorem looks (h : Spaced s b milestones b') :
    (∀ l ∈ milestones.filterMap look?,
      b.check + s.snapshotInterval ≤ l.now ∧ l.now ≤ l.noted) ∧
    (milestones.filterMap look?).Pairwise fun l k =>
      l.noted + s.snapshotInterval ≤ k.now ∧ k.now ≤ k.noted := by
  apply h.apart (R := fun check l => check + s.snapshotInterval ≤ l.now ∧ l.now ≤ l.noted)
    Marks.check look? Look.noted Step.check Step.looks
  intro check l k first next
  omega

/-- The policy last looked when the last look was noted. -/
theorem check_eq (h : Spaced s b milestones b') :
    b'.check = ((milestones.filterMap look?).map Look.noted).getLastD b.check := by
  rw [List.map_filterMap]
  exact h.getLastD Marks.check (fun x => x.look?.map Look.noted) fun step => step.check

theorem last_eq (h : Spaced s b milestones b') : b'.last = latest b.last milestones :=
  h.getLastD Marks.last index? fun step => step.last

/-- Each snapshot lies above the one before it. -/
theorem increasing (h : Spaced s b milestones b') :
    (b.last :: milestones.filterMap index?).Pairwise (· < ·) := by
  apply List.pairwise_cons.mpr
  exact h.apart Marks.last index? id (fun step => by rw [step.last, Option.map_id, id]) Step.above
    Nat.lt_trans

/-- A snapshot that the policy takes lies above the one before it by the threshold. -/
theorem threshold {before after : List Milestone} {l : Look} {i : Nat}
    (h : Spaced s b (before ++ .look l :: after) b') (taken : l.attempt = .taken i) :
    latest b.last before + s.snapshotThreshold ≤ i := by
  obtain ⟨c, first, _, step, -⟩ := leads_append.mp h
  rw [← last_eq first]
  exact step.enough l rfl i taken

end Spaced

end Milestone

/-! ## What statements do -/

/-- A statement by which a snapshot may be taken or restored. -/
def Act.snaps : Act → Bool
  | .policy _ _ | .handle (.snapshot _) | .restore _ => true
  | _ => false

namespace Driver

variable {κ μ : Type} [Machine μ]

/-- A snapshot is refused, which changes the machine at most, and no lawful one; or it is taken at
what is applied. Once it is stored nothing fails. -/
theorem takeSnapshot_refused_or_taken (d : Driver κ μ) :
    (∃ f machine, d.takeSnapshot = (.error f, { d with machine.machine := machine }) ∧
      (LawfulMachine μ → machine = d.machine.machine)) ∨
    (d.lastSnapshot < d.applied ∧ ∃ machine shelf,
      d.takeSnapshot = (.ok d.applied, { d with machine, shelf, lastSnapshot := d.applied })) := by
  by_cases old : d.applied = 0 ∨ d.applied ≤ d.lastSnapshot
  · refine Or.inl ⟨.nothingNewToSnapshot, d.machine.machine, ?_, fun _ => rfl⟩
    simp only [takeSnapshot, if_pos old]
  · simp only [takeSnapshot, if_neg old]
    cases known : d.shelf.log.term d.applied with
    | error refusal => exact Or.inl ⟨_, d.machine.machine, rfl, fun _ => rfl⟩
    | ok term =>
      cases asked : d.machine.snapshot with
      | error setback =>
        obtain ⟨machine, refused, left⟩ := Watched.snapshot_error asked
        simp only [left]
        exact Or.inl ⟨_, machine, rfl, fun _ => LawfulMachine.snapshot_error refused⟩
      | ok given =>
        -- The term is known, so the log is not refused its cut behind it.
        obtain ⟨log, cut⟩ := Log.compact_ok_of_term known (Nat.sub_le _ d.settings.trailing)
        simp only [cut]
        exact Or.inr ⟨by omega, _, _, rfl⟩

/-- An attempt that fails changes the machine at most, and no lawful one. -/
theorem attempt_failed {d : Driver κ μ} {f : Failure} (failed : d.attempt = .failed f) :
    ¬d.applied - d.lastSnapshot < d.settings.snapshotThreshold ∧ ∃ machine,
      d.takeSnapshot.2 = { d with machine.machine := machine } ∧
      (LawfulMachine μ → machine = d.machine.machine) := by
  by_cases early : d.applied - d.lastSnapshot < d.settings.snapshotThreshold
  · rw [attempt, if_pos early] at failed
    cases failed
  · rw [attempt, if_neg early] at failed
    rcases d.takeSnapshot_refused_or_taken with ⟨_, machine, refused, lawful⟩ | ⟨-, _, _, taken⟩
    · exact ⟨early, machine, by rw [refused], lawful⟩
    · rw [taken] at failed
      cases failed

/-- What can neither take nor restore a snapshot leaves the last one what it was. -/
theorem lastSnapshot_perform {ω : Type} [Core κ] [Carrier ω] {d d' : Driver κ μ} {w w' : ω}
    {a : Act} (other : a.snaps = false) (done : d.perform w a = .done (d', w')) :
    d'.lastSnapshot = d.lastSnapshot := by
  cases a with
  | handle c =>
    cases c with
    | snapshot ticket => cases other
    | propose | membership | stop => exact (alike_of_quiet (by trivial) done).lastSnapshot
  | policy | restore => cases other
  | apply e =>
    obtain ⟨_, applied, same⟩ := Effect.map_ofApplied_done done
    cases same
    rcases apply_cases applied with ⟨-, rfl⟩ | ⟨-, machine, rfl, -⟩
    · rfl
    · exact (alike_noteApplied { d with machine } e).lastSnapshot
  | append batch =>
    obtain ⟨_, appended, same⟩ := Effect.map_ofSetback_done done
    cases same
    rcases append_cases d batch with ⟨log, -, taken⟩ | ⟨_, -, refused⟩
    · rw [taken] at appended
      cases appended
      rfl
    · rw [refused] at appended
      cases appended
  | setHardState | setCommit =>
    cases done
    rfl
  | receive | tick | send | settle | observe | publish =>
    exact (alike_of_quiet (by trivial) done).lastSnapshot

end Driver

namespace Milestone

variable {κ μ : Type} [Machine μ] {d d' : Driver κ μ} {n : Nat}

/-- A look at the policy keeps its distance, whatever comes of it. -/
theorem spaced_checkPolicy {now noted : Nat} (runs : 0 < d.settings.snapshotInterval)
    (forward : now ≤ noted) (within : d.lastSnapshot ≤ d.applied) :
    Spaced d.settings d.marks (note n d (.policy now noted)).toList
      (d.checkPolicy now noted).marks := by
  by_cases soon : now - d.lastCheck < d.settings.snapshotInterval
  · simp only [note, Driver.checkPolicy, if_pos soon]
    rfl
  · have apart : d.lastCheck + d.settings.snapshotInterval ≤ now := by omega
    simp only [note, Driver.checkPolicy, Driver.attempt, if_neg soon]
    apply leads_singleton.mpr
    by_cases early : d.applied - d.lastSnapshot < d.settings.snapshotThreshold
    · simp only [if_pos early]
      exact step_look apart forward (by simp)
    · simp only [if_neg early]
      rcases ({ d with lastCheck := noted } : Driver κ μ).takeSnapshot_refused_or_taken with
        ⟨f, machine, refused, -⟩ | ⟨above, machine, shelf, taken⟩
      · simp only [refused]
        exact step_look apart forward (by simp)
      · simp only [taken]
        refine step_look apart forward ?_
        rintro i ⟨⟩
        exact ⟨by simp only [Driver.marks]; omega, above⟩

/-- So does a snapshot that a handle asks for. -/
theorem spaced_takeSnapshot (ticket : Nat) : Spaced d.settings d.marks
    (note n d (.handle (.snapshot ticket))).toList d.takeSnapshot.2.marks := by
  rcases d.takeSnapshot_refused_or_taken with ⟨f, machine, refused, -⟩ |
    ⟨above, machine, shelf, taken⟩
  · simp only [note, refused]
    rfl
  · simp only [note, taken]
    exact leads_singleton.mpr (step_of_index (b := d.marks) rfl rfl above)

/-- And one that is restored, as it is newer than what was applied. -/
theorem spaced_restore {s : Snapshot} (newer : d.applied < s.index)
    (within : d.lastSnapshot ≤ d.applied) (restored : d.restore s = .ok d') :
    Spaced d.settings d.marks (note n d (.restore s)).toList d'.marks := by
  simp only [note, restored]
  obtain ⟨machine, -, rfl⟩ := Driver.restore_ok restored
  exact leads_singleton.mpr (step_of_index (b := d.marks) rfl rfl (Nat.lt_of_le_of_lt within newer))

/-- What a statement is noted as keeps its distance, even where it ends the driver. -/
theorem exists_spaced {a : Act} (runs : 0 < d.settings.snapshotInterval) (newer : a.Newer d)
    (forward : ∀ now noted, a = .policy now noted → now ≤ noted)
    (within : d.lastSnapshot ≤ d.applied) :
    ∃ b, Spaced d.settings d.marks (note n d a).toList b := by
  cases noted : note n d a with
  | none => exact ⟨d.marks, rfl⟩
  | some x =>
    cases a with
    | policy now later =>
      exact ⟨_, noted ▸ spaced_checkPolicy runs (forward now later rfl) within⟩
    | handle c =>
      cases c with
      | snapshot ticket => exact ⟨_, noted ▸ spaced_takeSnapshot ticket⟩
      | propose | membership | stop => cases noted
    | restore s =>
      cases restored : d.restore s with
      | error f =>
        simp only [note, restored] at noted
        cases noted
      | ok d' => exact ⟨_, noted ▸ spaced_restore newer within restored⟩
    | _ => cases noted

variable {ω : Type} [Core κ] [Carrier ω] {w w' : ω} {a : Act}

/-- Whatever a statement does, its milestone keeps the distance from the marks before. -/
theorem spaced_perform (runs : 0 < d.settings.snapshotInterval) (newer : a.Newer d)
    (forward : ∀ now noted, a = .policy now noted → now ≤ noted)
    (within : d.lastSnapshot ≤ d.applied) (done : d.perform w a = .done (d', w')) :
    Spaced d.settings d.marks (note n d a).toList d'.marks := by
  have other (silent : a.reads = false) (other : a.snaps = false) : d'.marks = d.marks := by
    have same := Driver.punctual_perform silent done
    rw [Driver.marks, Driver.marks, same.lastCheck, Driver.lastSnapshot_perform other done]
  cases a with
  | policy now noted =>
    cases done
    exact spaced_checkPolicy runs (forward now noted rfl) within
  | handle c =>
    cases c with
    | snapshot ticket =>
      rw [Driver.perform, Driver.handle_snapshot] at done
      cases done
      exact spaced_takeSnapshot ticket
    | propose | membership | stop => exact other rfl rfl
  | restore s =>
    obtain ⟨_, restored, same⟩ := Effect.map_ofSetback_done done
    cases same
    exact spaced_restore newer within restored
  | tick now later =>
    obtain ⟨_, ticked, same⟩ := Effect.map_ofFault_done done
    cases same
    obtain ⟨core, nextTick, rfl⟩ := Driver.tickIfDue_eq ticked
    rfl
  | receive | send | apply | append | setHardState | setCommit | settle | observe | publish =>
    exact other rfl rfl

end Milestone

namespace Driver

variable {κ μ ω : Type} [Core κ] [Machine μ] [Carrier ω] {d d' : Driver κ μ} {w w' : ω} {a : Act}

omit [Core κ] in
theorem within_takeSnapshot (within : d.lastSnapshot ≤ d.applied) :
    d.takeSnapshot.2.lastSnapshot ≤ d.takeSnapshot.2.applied := by
  rcases d.takeSnapshot_refused_or_taken with ⟨_, machine, refused, -⟩ | ⟨-, _, _, taken⟩
  · rw [refused]
    exact within
  · simp only [taken, Nat.le_refl]

/-- No snapshot is of more than what is applied. -/
theorem within_perform (newer : a.Newer d) (within : d.lastSnapshot ≤ d.applied)
    (done : d.perform w a = .done (d', w')) : d'.lastSnapshot ≤ d'.applied := by
  have further := applied_le_perform (fun s restores => by subst restores; exact newer) done
  have other (other : a.snaps = false) : d'.lastSnapshot ≤ d'.applied :=
    lastSnapshot_perform other done ▸ Nat.le_trans within further
  cases a with
  | policy now noted =>
    cases done
    rcases d.checkPolicy_cases now noted with same | same | same <;> rw [same]
    · exact within
    · exact within
    · exact within_takeSnapshot (d := { d with lastCheck := noted }) within
  | handle c =>
    cases c with
    | snapshot ticket =>
      rw [perform, handle_snapshot] at done
      cases done
      exact within_takeSnapshot within
    | propose | membership | stop => exact other rfl
  | restore s =>
    obtain ⟨_, restored, same⟩ := Effect.map_ofSetback_done done
    cases same
    obtain ⟨machine, -, rfl⟩ := restore_ok restored
    exact Nat.le_refl _
  | receive | tick | send | apply | append | setHardState | setCommit | settle | observe
  | publish => exact other rfl

end Driver

/-! ## The snapshots of a run -/

namespace Milestone

/-- What is so of the milestones that were noted while an engine runs that began at the marks
`b`. -/
structure Apart {κ μ : Type} (s : Settings) (b : Marks) (c : Chronicle Milestone)
    (d : Driver κ μ) (left : List Act) : Prop where
  settings : d.settings = s
  spaced : Spaced s b c.notes d.marks
  within : d.lastSnapshot ≤ d.applied
  forward : ∀ now noted, .policy now noted ∈ left → now ≤ noted

theorem Apart.next {κ μ : Type} {s : Settings} {b : Marks} {c : Chronicle Milestone}
    {d : Driver κ μ} {a : Act} {left : List Act} (h : Apart s b c d ([a].filter Act.reads ++ left))
    (now noted : Nat) (looks : a = .policy now noted) : now ≤ noted := by
  subst looks
  exact h.forward now noted (List.mem_append_left _ (List.mem_singleton.mpr rfl))

theorem minutes {κ μ ω : Type} [Core κ] [Machine μ] [Carrier ω] {s : Settings} (b : Marks)
    (runs : 0 < s.snapshotInterval) : Minutes ω Act.Newer (note (κ := κ) (μ := μ))
      (fun milestones _ => ∃ b', Spaced s b milestones b') (Apart s b) where
  held := rfl
  sound h := ⟨_, h.spaced⟩
  exchange machine h := ⟨h.settings, h.spaced, h.within, h.forward⟩
  wake h follow := by
    refine ⟨h.settings, h.spaced, h.within, ?_⟩
    intro now noted looks
    obtain ⟨rfl, rfl⟩ : now = _ ∧ noted = _ := by simpa using looks
    exact follow.noted
  turn h _ _ := ⟨h.settings, h.spaced, h.within, h.forward⟩
  noted {c d a left} h newer := by
    obtain ⟨b', apart⟩ := exists_spaced (n := c.begun) (h.settings ▸ runs) newer h.next h.within
    exact ⟨b', leads_append.mpr ⟨d.marks, h.spaced, h.settings ▸ apart⟩⟩
  did {c d a left d' w w'} h newer done := by
    have apart := spaced_perform (n := c.begun) (h.settings ▸ runs) newer h.next h.within done
    exact {
      settings := (Driver.settings_perform done).trans h.settings
      spaced := leads_append.mpr ⟨d.marks, h.spaced, h.settings ▸ apart⟩
      within := Driver.within_perform newer h.within done
      forward := fun now noted looks => h.forward now noted (List.mem_append_right _ looks) }

end Milestone

namespace Engine

variable {κ μ ω : Type} [Core κ] [Machine μ] [Carrier ω] {id : Nat} {settings : Settings}
variable {core : κ} {machine : μ} {shelf : Shelf} {peers : Directory} {start : Nat}

/-- Where the policy looks in vain, the driver notes the time and is what it was otherwise, but for
what the machine has made of itself. -/
theorem after_policy_failed {e : Engine κ μ} {now noted n : Nat} {f : Failure} (w : ω)
    (next : e.next? = some (.policy now noted))
    (failed : Milestone.note n e.driver (.policy now noted) =
      some (.look { now, noted, attempt := .failed f })) :
    ∃ machine, (e.after w .statement).1.driver =
        { e.driver with machine.machine := machine, lastCheck := noted } ∧
      (LawfulMachine μ → machine = e.driver.machine.machine) := by
  obtain ⟨live, rest, todo⟩ := next?_eq_some_iff.mp next
  have done : e.driver.perform w (.policy now noted) = .done (e.driver.checkPolicy now noted, w) :=
    rfl
  have after : e.after w .statement = _ := advance_done live todo done
  rw [after]
  change ∃ machine, e.driver.checkPolicy now noted = _ ∧ _
  by_cases soon : now - e.driver.lastCheck < e.driver.settings.snapshotInterval
  · simp [Milestone.note, soon] at failed
  · simp only [Milestone.note, if_neg soon, Option.some.injEq, Milestone.look.injEq,
      Look.mk.injEq, true_and] at failed
    obtain ⟨late, machine, same, lawful⟩ := Driver.attempt_failed failed
    refine ⟨machine, ?_, lawful⟩
    simp only [Driver.checkPolicy, if_neg soon]
    rw [if_neg late, same]

/-- Between two looks at the policy, and before the first, a whole interval passes. A snapshot
that the policy takes lies above the one before it by the threshold, and any other snapshot above
the one before it; the first above the one at the start. While the engine runs, its driver holds
the time of the last look and the index of the last snapshot, which is not above what is applied.
An attempt that fails changes nothing but the time of the look, and a machine only if that changes
when it refuses to be asked; so the next one comes after a further interval. -/
theorem snapshots_keep_distance (valid : settings.validate = .ok ()) {w₀ : ω}
    {m : Moment κ μ ω (Chronicle Milestone)}
    (run : Reachable (timed ω Act.Newer Milestone.note)
      ⟨boot id settings core machine shelf peers start, w₀, { clock := start }⟩ m) :
    let milestones := m.record.notes
    let looks := milestones.filterMap Milestone.look?
    let first := shelf.snapshots.index
    (∀ l ∈ looks, start + settings.snapshotInterval ≤ l.now ∧ l.now ≤ l.noted) ∧
    looks.Pairwise (fun l k => l.noted + settings.snapshotInterval ≤ k.now) ∧
    (∀ before after l i, milestones = before ++ .look l :: after → l.attempt = .taken i →
      Milestone.latest first before + settings.snapshotThreshold ≤ i) ∧
    (first :: milestones.filterMap Milestone.index?).Pairwise (· < ·) ∧
    (m.engine.ending = none →
      m.engine.driver.lastCheck = (looks.map Look.noted).getLastD start ∧
      m.engine.driver.lastSnapshot = Milestone.latest first milestones ∧
      m.engine.driver.lastSnapshot ≤ m.engine.driver.applied) ∧
    ∀ now noted f, m.engine.next? = some (.policy now noted) →
      Milestone.note m.record.begun m.engine.driver (.policy now noted) =
        some (.look { now, noted, attempt := .failed f }) →
      ∃ machine, (m.engine.after m.network .statement).1.driver =
          { m.engine.driver with machine.machine := machine, lastCheck := noted } ∧
        (LawfulMachine μ → machine = m.engine.driver.machine.machine) := by
  intro milestones looks first
  have runs := (Settings.validate_eq_ok_iff.mp valid).snapshotInterval_pos
  let b : Marks := { check := start, last := first }
  have begun : Milestone.Apart settings b { clock := start }
      (driverOf settings core machine shelf peers start) [] :=
    ⟨rfl, rfl, Nat.le_refl _, by simp⟩
  obtain ⟨⟨b', spaced⟩, apart⟩ := (Milestone.minutes b runs).reachable begun run
  refine ⟨spaced.looks.1, spaced.looks.2.imp And.left, ?_, spaced.increasing, ?_, ?_⟩
  · intro before after l i split taken
    have spaced : Milestone.Spaced settings b (before ++ .look l :: after) b' := split ▸ spaced
    exact spaced.threshold taken
  · intro live
    have apart := apart live
    exact ⟨apart.spaced.check_eq, apart.spaced.last_eq, apart.within⟩
  · exact fun now noted f next failed => after_policy_failed m.network next failed

/-- A follower whose disk is full when its policy wants a snapshot of two commands. There is room
soon, but the policy looks again only after a further interval. Then a handle asks for a snapshot
of three commands, and one of five is restored. -/
theorem snapshots_keep_distance_of_full_disk :
    let ms := Span.ofMillis
    let settings : Settings := { snapshotInterval := ms 50, snapshotThreshold := 2, trailing := 0 }
    let start (inbox : List Message) (now : Nat) : Event Station :=
      .wake inbox ⟨ms now, ms now, ms now, ms (now + 1)⟩
    let iteration (v : Event Station) : List (Occurrence Rig Station) :=
      .event v :: List.replicate 16 (.event .statement)
    let ship : Message :=
      { Sample.ship 1 with snapshot := { (Sample.ship 1).snapshot with index := 5 } }
    let m₀ : Moment Replica Rig Station (Chronicle Milestone) :=
      ⟨boot 1 settings (Sample.follower 1 Sample.shelf) { temper := .failSnapshot } Sample.shelf
        [] 0, default, { clock := 0 }⟩
    let m := (timed Station Act.Newer Milestone.note).play m₀
      (iteration (start [Sample.append 1 1, Sample.append 1 2] 10) ++ iteration (start [] 60) ++
        [.machine { recorder := ⟨2, [[1], [2]]⟩ }] ++ iteration (start [] 100) ++
        iteration (start [] 120) ++ iteration (start [Sample.append 1 3] 130) ++
        [.event .snapshot] ++ iteration (.command [] ⟨ms 140, ms 140, ms 140, ms 140⟩) ++
        iteration (start [ship] 150))
    settings.validate = .ok () ∧ m.engine.ending = none ∧ m.record.notes = [
      .look ⟨ms 60, ms 61, .failed (.machine "disk full")⟩, .look ⟨ms 120, ms 121, .taken 2⟩,
      .request 3, .restore 5] ∧
    (m.record.notes.filterMap Milestone.look?).Pairwise (fun l k => l.noted + ms 50 ≤ k.now) ∧
    m.engine.driver.lastSnapshot = 5 := by
  intro ms settings start iteration ship m₀ m
  have valid : settings.validate = .ok () :=
    Settings.validate_eq_ok_iff.mpr (by constructor <;> decide +kernel)
  have run : Reachable (timed Station Act.Newer Milestone.note) m₀ m :=
    System.reachable_play .start (by decide +kernel)
  obtain ⟨-, apart, -, -, running, -⟩ := snapshots_keep_distance valid run
  have live : m.engine.ending = none := by decide +kernel
  have notes : m.record.notes = [.look ⟨ms 60, ms 61, .failed (.machine "disk full")⟩,
      .look ⟨ms 120, ms 121, .taken 2⟩, .request 3, .restore 5] := by decide +kernel
  refine ⟨valid, live, notes, apart, ?_⟩
  rw [(running live).2.1, notes]
  rfl

end Engine

end QuorumLab
