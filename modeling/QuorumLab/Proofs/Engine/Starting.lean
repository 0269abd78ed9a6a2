import QuorumLab.Proofs.Engine.Events

/-!
# What a start leaves in the stores

A start writes at most the membership, and it does so before the settings are looked at. One
that fails later has fixed the membership of every start that follows over the same stores,
whatever peers that one is given.
-/

namespace QuorumLab.Engine

/-- The membership that a node gives itself: its own id and those of its peers, ascending. -/
def founders (id : Nat) (peers : Directory) : Membership :=
  { voters := (peers.ids ++ [id]).mergeSort fun a b => decide (a ≤ b) }

section Record

variable {id : Nat} {peers : Directory} {s : Shelf}

theorem recordMembers_of_initialized (known : s.stable.initialized = true) :
    recordMembers id peers s = s := if_pos known

theorem recordMembers_of_new (new : s.stable.initialized = false) :
    recordMembers id peers s = { s with stable := s.stable.setMembership (founders id peers) } :=
  if_neg (by simp [new])

theorem initialized_recordMembers : (recordMembers id peers s).stable.initialized = true := by
  cases known : s.stable.initialized with
  | true => rw [recordMembers_of_initialized known, known]
  | false =>
    rw [recordMembers_of_new known]
    simp [founders, Stable.initialized, Stable.setMembership, ← List.length_eq_zero_iff]

/-- The first members that are recorded stay. -/
theorem recordMembers_recordMembers {id' : Nat} {peers' : Directory} :
    recordMembers id' peers' (recordMembers id peers s) = recordMembers id peers s :=
  recordMembers_of_initialized initialized_recordMembers

/-- Nothing but the membership is recorded. -/
theorem recordMembers_rest : (recordMembers id peers s).log = s.log ∧
    (recordMembers id peers s).snapshots = s.snapshots ∧
    (recordMembers id peers s).stable.hard = s.stable.hard := by
  unfold recordMembers
  split <;> exact ⟨rfl, rfl, rfl⟩

theorem recordMembers_eq_iff : recordMembers id peers s = s ↔ s.stable.initialized = true :=
  ⟨fun same => same ▸ initialized_recordMembers, recordMembers_of_initialized⟩

theorem membership_recordMembers : (recordMembers id peers s).stable.membership =
    if s.stable.initialized then s.stable.membership else founders id peers := by
  cases known : s.stable.initialized with
  | true => rw [recordMembers_of_initialized known, if_pos rfl]
  | false =>
    rw [recordMembers_of_new known]
    rfl

end Record

variable {μ : Type} {id : Nat} {settings : Settings} {machine : μ}
variable {shelf s : Shelf} {peers : Directory} {now : Nat}

/-- The settings cannot be used, or the protocol does not start over these stores. -/
inductive Unstartable (id : Nat) (settings : Settings) (s : Shelf) (f : Failure) : Prop
  | settings (refused : settings.toReplica id s.snapshots.index = .ok (.error f))
  | protocol {r : ReplicaSettings} (fit : settings.toReplica id s.snapshots.index = .ok (.ok r))
      (refused : Replica.start r s = .ok (.error f))

/-- An engine does not start because of its id and directory, and then nothing is recorded, or
because of its settings or stores, and then its members are. -/
theorem start_error {f : Failure}
    (h : start id settings machine shelf peers now = (.ok (.error f), s)) :
    (misfit? id peers = some f ∧ s = shelf) ∨
      (misfit? id peers = none ∧ s = recordMembers id peers shelf ∧
        Unstartable id settings s f) := by
  unfold start startBy at h
  split at h
  · rename_i failure misfit
    cases h
    exact Or.inl ⟨misfit, rfl⟩
  · rename_i fits
    obtain ⟨started, rfl⟩ := Prod.mk.inj h
    refine Or.inr ⟨fits, rfl, ?_⟩
    obtain ⟨r, checked, started⟩ := bind_ok started
    cases r with
    | error failure =>
      cases started
      exact .settings checked
    | ok replica =>
      obtain ⟨c, begun, started⟩ := bind_ok started
      cases c with
      | error failure =>
        cases started
        exact .protocol checked begun
      | ok core =>
        by_cases late : horizon ≤ now + settings.tick
        · simp only [late, if_true] at started
          cases started
        · simp only [late, if_false] at started
          cases started

/-- A start that fails leaves the log, the snapshots and the hard state alone, but the membership
only if the id or the directory is refused or members were recorded before. Otherwise it is that
of the failed start, and remains so: a later start over these stores has it, not its own. -/
theorem failed_start_unchanged_iff [Machine μ] {f : Failure}
    (failed : start id settings machine shelf peers now = (.ok (.error f), s)) :
    (misfit? id peers = some f ∨ misfit? id peers = none ∧ Unstartable id settings s f) ∧
    (s.log = shelf.log ∧ s.snapshots = shelf.snapshots ∧ s.stable.hard = shelf.stable.hard) ∧
    (s = shelf ↔ misfit? id peers = some f ∨ shelf.stable.initialized = true) ∧
    ∀ (id' : Nat) (settings' : Settings) (machine' : μ) (peers' : Directory) (now' : Nat)
      (e : Engine Replica μ) (s' : Shelf),
      start id' settings' machine' s peers' now' = (.ok (.ok e), s') →
        e.driver.shelf.stable.membership =
          if shelf.stable.initialized then shelf.stable.membership
          else if misfit? id peers = some f then founders id' peers' else founders id peers := by
  have later : ∀ {id' settings' machine' peers' now'} {e : Engine Replica μ} {s' : Shelf},
      start id' settings' machine' s peers' now' = (.ok (.ok e), s') →
        e.driver.shelf.stable.membership =
          if s.stable.initialized then s.stable.membership else founders id' peers' := by
    intro id' settings' machine' peers' now' e s' started
    obtain ⟨rfl, core, -, rfl⟩ := start_ok started
    exact membership_recordMembers
  rcases start_error failed with ⟨misfit, rfl⟩ | ⟨fits, rfl, refused⟩
  · refine ⟨Or.inl misfit, ⟨rfl, rfl, rfl⟩, ⟨fun _ => Or.inl misfit, fun _ => rfl⟩, ?_⟩
    intro id' settings' machine' peers' now' e s' started
    rw [later started, if_pos misfit]
  · have other : misfit? id peers ≠ some f := by
      rw [fits]
      exact (Option.some_ne_none f).symm
    refine ⟨Or.inr ⟨fits, refused⟩, recordMembers_rest, ?_, ?_⟩
    · rw [recordMembers_eq_iff]
      exact ⟨Or.inr, fun h => h.resolve_left other⟩
    · intro id' settings' machine' peers' now' e s' started
      rw [later started, if_pos initialized_recordMembers, membership_recordMembers, if_neg other]

/-- The settings of the first start are refused. The next one is given a third node instead of
the second, and has the second all the same. -/
theorem failed_start_unchanged_iff_of_threshold :
    let settings : Settings := { snapshotThreshold := 0 }
    let peers (i : Nat) : Directory := [{ id := i, address := "1" }]
    let s := (start 1 settings ({} : Recorder) {} (peers 2) 0).2
    let second := start 1 {} ({} : Recorder) s (peers 3) 0
    s ≠ {} ∧ ∃ e, second.1 = .ok (.ok e) ∧
      e.driver.shelf.stable.membership = { voters := [1, 2] } := by
  intro settings peers s second
  have pair : founders 1 (peers 2) = { voters := [1, 2] } := by
    simp [peers, founders, Directory.ids, List.mergeSort]
  have failed : start 1 settings ({} : Recorder) {} (peers 2) 0 =
      (.ok (.error (.config "snapshot_threshold must be positive")), s) := rfl
  have fits : misfit? 1 (peers 2) = none := rfl
  obtain ⟨-, -, unchanged, retry⟩ := failed_start_unchanged_iff failed
  have left : s = { stable := { membership := { voters := [1, 2] } } } := by
    rw [← pair]
    rfl
  have succeeds : ((start 1 {} ({} : Recorder) s (peers 3) 0).1.toOption.bind
      Except.toOption).isSome = true := by
    rw [left]
    decide +kernel
  have started : ∃ e, second.1 = .ok (.ok e) := by
    change (second.1.toOption.bind Except.toOption).isSome = true at succeeds
    cases result : second.1 with
    | error fault =>
      rw [result] at succeeds
      cases succeeds
    | ok r =>
      cases r with
      | error failure =>
        rw [result] at succeeds
        cases succeeds
      | ok e => exact ⟨e, rfl⟩
  obtain ⟨e, started⟩ := started
  refine ⟨?_, e, started, ?_⟩
  · rw [Ne, unchanged, fits]
    rintro (misfit | known)
    · cases misfit
    · cases known
  · rw [retry 1 {} {} (peers 3) 0 e second.2 (Prod.ext started rfl), fits, if_neg (by decide),
      if_neg (Option.some_ne_none _).symm, pair]

end QuorumLab.Engine
