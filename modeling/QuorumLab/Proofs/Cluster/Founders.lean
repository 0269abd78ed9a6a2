import QuorumLab.Proofs.Cluster.Membership
import QuorumLab.Proofs.Engine.Timing

/-!
# How the start of a founder turns out

The nodes of a new cluster start over empty stores, with themselves and each other as members.
How a protocol begins there is its own affair, and is told by a law: settings that are valid will
do, unless they ask for a window that cannot be set aside for each voter. Then nothing but its own
settings and the clock decides whether a node starts.
-/

namespace QuorumLab

/-- The shelf of a node that founds a cluster. -/
def Shelf.founded (ids : List Nat) : Shelf := { stable := { membership := { voters := ids } } }

/-- A founder with valid settings begins to follow the protocol if its window is no wider than
`widest`. A wider one is a fault and no refusal. -/
structure Genesis.Founds {κ : Type} (genesis : Genesis κ) (widest : Nat) : Prop where
  begins {settings : ReplicaSettings} {ids : List Nat}
    (valid : settings.validate = .ok (.ok ())) (nothing : settings.applied = 0)
    (distinct : ids.Nodup) (named : 0 ∉ ids) (room : settings.maxInflight ≤ widest) :
    ∃ core, genesis settings (.founded ids) = .ok (.ok core)
  wide {settings : ReplicaSettings} {id : Nat} {ids : List Nat}
    (valid : settings.validate = .ok (.ok ())) (real : id ≠ 0)
    (wide : widest < settings.maxInflight) :
    genesis settings (.founded (id :: ids)) = .error .capacityOverflow

/-! ## Voters that nobody knows yet -/

namespace Electorate

variable {e : Electorate} {id window next : Nat} {ids : List Nat}

/-- They are introduced one after the other. -/
theorem addEach_enfranchise (next : Nat) (distinct : ids.Nodup) (named : 0 ∉ ids)
    (new : ∀ id ∈ ids, e.contains id = false ∧ id ∉ e.voters) (room : e.window ≤ widest) :
    ∃ e', addEach enfranchise next ids e = .ok (.ok e') ∧ e'.voters = e.voters ++ ids ∧
      (e.learners = [] → e'.learners = []) := by
  induction ids generalizing e with
  | nil => exact ⟨e, rfl, (List.append_nil _).symm, fun none => none⟩
  | cons id ids ih =>
    obtain ⟨other, distinct⟩ := List.nodup_cons.mp distinct
    obtain ⟨unknown, outside⟩ := new id List.mem_cons_self
    have real : id ≠ 0 := fun zero => named (zero ▸ List.mem_cons_self)
    let e₁ : Electorate := { e.enfranchise id with
      progress := e.progress ++ [(id, { next, recentlyActive := true, window := e.window })] }
    have voters : e₁.voters = e.voters ++ [id] := by
      have all : e.voters.filter (· ≠ id) = e.voters :=
        List.filter_eq_self.mpr fun j hj => decide_eq_true fun same => outside (same ▸ hj)
      exact congrArg (· ++ [id]) all
    have some_vote : (e.enfranchise id).voters.isEmpty = false := by simp [enfranchise]
    have introduced : (e.enfranchise id).introduce id next = .ok e₁ := by
      have unknown : (e.enfranchise id).contains id = false := unknown
      rw [introduce, if_neg (by simp [unknown])]
      exact if_neg (Nat.not_lt.mpr room)
    have new₁ : ∀ j ∈ ids, e₁.contains j = false ∧ j ∉ e₁.voters := by
      intro j hj
      obtain ⟨unknown, outside⟩ := new j (List.mem_cons_of_mem id hj)
      have differ : j ≠ id := fun same => other (same ▸ hj)
      have unlisted : e.progress.lookup j = none := by
        simpa [contains, get?] using unknown
      constructor
      · have differ : (j == id) = false := by simpa using differ
        simp [contains, get?, e₁, List.lookup_append, unlisted, List.lookup_cons, differ]
      · rw [voters, List.mem_append, List.mem_singleton, not_or]
        exact ⟨outside, differ⟩
    obtain ⟨e', added, voters', learners⟩ :=
      ih (e := e₁) distinct (fun zero => named (List.mem_cons_of_mem id zero)) new₁ room
    refine ⟨e', ?_, ?_, fun none => learners ?_⟩
    · simp only [addEach, if_neg real, some_vote, introduced]
      exact added
    · rw [voters', voters, List.append_assoc]
      rfl
    · change e.learners.filter _ = []
      rw [none]
      rfl

/-- The electorate of founders is theirs. -/
theorem ofMembership_founders (next : Nat) (distinct : ids.Nodup) (named : 0 ∉ ids) (room : window ≤ widest) :
    ∃ e, ofMembership window next { voters := ids } = .ok (.ok e) ∧
      e.agreesWith { voters := ids } = true := by
  obtain ⟨e, added, voters, learners⟩ := addEach_enfranchise (e := { window }) next
    distinct named (fun _ _ => ⟨rfl, List.not_mem_nil⟩) room
  refine ⟨e, ?_, ?_⟩
  · rw [ofMembership, added]
    rfl
  · have voters : e.voters = ids := voters
    have learners : e.learners = [] := learners rfl
    simp [agreesWith, sameMembers, voters, learners]

/-- A window that cannot be set aside is noticed with the first voter. -/
theorem addEach_wide (real : id ≠ 0) (unknown : e.contains id = false) (wide : widest < e.window) :
    addEach enfranchise next (id :: ids) e = .error .capacityOverflow := by
  have some_vote : (e.enfranchise id).voters.isEmpty = false := by simp [enfranchise]
  have full : (e.enfranchise id).introduce id next = .error .capacityOverflow := by
    have unknown : (e.enfranchise id).contains id = false := unknown
    rw [introduce, if_neg (by simp [unknown])]
    exact if_pos wide
  simp only [addEach, if_neg real, some_vote, full]
  rfl

theorem ofMembership_wide (real : id ≠ 0) (wide : widest < window) :
    ofMembership window next { voters := id :: ids } = .error .capacityOverflow := by
  rw [ofMembership, addEach_wide (e := { window }) real rfl wide]
  rfl

end Electorate

/-! ## A replica over new stores -/

namespace Replica

variable {α β : Type} {s : Shelf} {r r' : Replica}

/-- What a step of a replica leads to, if it succeeds. -/
theorem bind_of_ok {x : ReplicaM α} {g : α → ReplicaM β} {a : α} (first : x s r = .ok (a, r')) :
    (x >>= g) s r = g a s r' := by
  change (x s r >>= fun y => g y.1 s y.2) = _
  rw [first]
  rfl

theorem adopt_of_agreesWith {m : Membership} {e : Electorate} (agrees : e.agreesWith m = true) :
    adopt m e s r =
      .ok ((), { r with electorate := e, promotable := e.voters.contains r.id }) := by
  simp only [adopt, agrees]
  rfl

/-- Nothing stands in the way of a replica that has neither voted nor applied anything. -/
theorem wake_of_new {m : Membership} {e : Electorate} (agrees : e.agreesWith m = true)
    (new : s.stable.hard = {}) (nothing : r.settings.applied = 0) :
    ∃ r', wake m e s r = .ok ((), r') := by
  let r₁ : Replica := { r with electorate := e, promotable := e.voters.contains r.id }
  have read : (read : ReplicaM Shelf) s r₁ = .ok (s, r₁) := rfl
  have got : (get : ReplicaM Replica) s r₁ = .ok (r₁, r₁) := rfl
  have noted : noteApplied r.settings.applied s r₁ = .ok ((), r₁) := by
    rw [nothing]
    rfl
  rw [wake, bind_of_ok (adopt_of_agreesWith agrees), bind_of_ok read]
  simp only [new, ne_eq, not_true_eq_false, if_false]
  rw [bind_of_ok got, bind_of_ok noted]
  exact ⟨_, rfl⟩

/-- A replica founds clusters as the law says: its electorate sets a window aside per voter. -/
theorem founds : Genesis.Founds start Electorate.widest where
  begins {settings ids} valid nothing distinct named room := by
    let s : Shelf := .founded ids
    obtain ⟨e, founded, agrees⟩ : ∃ e, Electorate.ofMembership settings.maxInflight s.log.last
        s.stable.membership = .ok (.ok e) ∧ e.agreesWith s.stable.membership = true :=
      Electorate.ofMembership_founders s.log.last distinct named room
    let ledger : Ledger := { tail := { offset := 1 } }
    have counted : Ledger.ofShelf s = .ok ledger := rfl
    obtain ⟨r, woken⟩ := wake_of_new (s := s) (r := { settings, ledger, electorate := e }) agrees
      rfl nothing
    refine ⟨r, ?_⟩
    change start settings s = _
    simp only [start, valid, bind, Except.bind, counted, founded, woken]
    rfl
  wide {settings id ids} valid real wide := by
    let s : Shelf := .founded (id :: ids)
    let ledger : Ledger := { tail := { offset := 1 } }
    have counted : Ledger.ofShelf s = .ok ledger := rfl
    have full : Electorate.ofMembership settings.maxInflight s.log.last s.stable.membership =
      .error .capacityOverflow := Electorate.ofMembership_wide real wide
    change start settings s = _
    simp only [start, valid, bind, Except.bind, counted, full]

end Replica

/-! ## What the settings decide -/

namespace Settings

variable {s : Settings} {r : ReplicaSettings} {widest i now : Nat}

/-- What comes of the start of node `i` at `now`, if it starts as a founder and no window can be
wider than `widest`. -/
def trial (s : Settings) (widest i now : Nat) : Except Fault (Except Failure Unit) := do
  match ← s.toReplica (i + 1) 0 with
  | .error failure => return .error failure
  | .ok _ =>
    if widest < s.maxInflight then
      throw .capacityOverflow
    if Engine.horizon ≤ now + s.tick then
      throw .instantOverflow
    return .ok ()

/-- The settings of a replica are valid for it, and those that they were made from. -/
theorem replica_of_toReplica {id applied : Nat}
    (made : s.toReplica id applied = .ok (.ok r)) :
    r = s.replica id applied ∧ r.validate = .ok (.ok ()) := by
  rw [toReplica] at made
  split at made
  · cases made
  · change (s.replica id applied).validate.map _ = _ at made
    rcases checked : (s.replica id applied).validate with f | f | _
    all_goals rw [checked] at made; cases made
    exact ⟨rfl, checked⟩

/-- Why node `i` does not start at `now`. -/
def hindrance? (s : Settings) (widest i now : Nat) : Option Fault :=
  match s.trial widest i now with
  | .error fault => some fault
  | .ok (.error failure) => some (.startFailed i failure)
  | .ok (.ok ()) => none

theorem trial_of_refused {failure : Failure}
    (refused : s.toReplica (i + 1) 0 = .ok (.error failure)) (widest now : Nat) :
    s.trial widest i now = .ok (.error failure) := by
  rw [trial, refused]
  rfl

theorem trial_of_made (made : s.toReplica (i + 1) 0 = .ok (.ok r)) (widest now : Nat) :
    s.trial widest i now =
      if widest < s.maxInflight then .error .capacityOverflow
      else if Engine.horizon ≤ now + s.tick then .error .instantOverflow
      else .ok (.ok ()) := by
  rw [trial, made]
  change (if _ then _ else _) = _
  split_ifs <;> rfl

/-- What comes of a start that neither fails by a fault nor well is that the settings are refused. -/
theorem trial_refused_iff {failure : Failure} :
    s.trial widest i now = .ok (.error failure) ↔ s.toReplica (i + 1) 0 = .ok (.error failure) := by
  constructor
  · intro tried
    cases made : s.toReplica (i + 1) 0 with
    | error f =>
      rw [trial, made] at tried
      cases tried
    | ok result =>
      cases result with
      | error f =>
        rw [trial_of_refused made] at tried
        cases tried
        rfl
      | ok r =>
        rw [trial_of_made made] at tried
        split_ifs at tried
        cases tried
  · exact fun refused => trial_of_refused refused widest now

theorem exists_of_trial (tried : s.trial widest i now = .ok (.ok ())) :
    ∃ r, s.toReplica (i + 1) 0 = .ok (.ok r) := by
  rcases made : s.toReplica (i + 1) 0 with f | f | r
  · rw [trial, made] at tried
    cases tried
  · rw [trial_of_refused made] at tried
    cases tried
  · exact ⟨r, rfl⟩

theorem overflow_of_toReplica {id applied : Nat} {fault : Fault} (known : id ≠ 0)
    (failed : s.toReplica id applied = .error fault) : fault = .overflow .multiply := by
  cases checked : s.validate with
  | error f =>
    rw [toReplica_of_error checked] at failed
    cases failed
  | ok _ =>
    rw [(validate_eq_ok_iff.mp checked).toReplica_eq known] at failed
    split_ifs at failed
    cases failed
    rfl

/-- A start fails by a fault if twice the election timeout is no word of ticks, if the window
cannot be set aside, or if the first tick is due when no clock can tell. -/
theorem trial_error_iff {fault : Fault} : s.trial widest i now = .error fault ↔
    s.toReplica (i + 1) 0 = .error fault ∧ fault = .overflow .multiply ∨
    (∃ r, s.toReplica (i + 1) 0 = .ok (.ok r)) ∧
      (widest < s.maxInflight ∧ fault = .capacityOverflow ∨
        s.maxInflight ≤ widest ∧ Engine.horizon ≤ now + s.tick ∧
          fault = .instantOverflow) := by
  rcases made : s.toReplica (i + 1) 0 with f | f | r
  · have tried : s.trial widest i now = .error f := by
      rw [trial, made]
      rfl
    have overflow := overflow_of_toReplica (Nat.succ_ne_zero i) made
    rw [tried]
    simp only [Except.error.injEq, reduceCtorEq, exists_false, false_and, or_false]
    exact ⟨fun same => ⟨same, same ▸ overflow⟩, And.left⟩
  · rw [trial_of_refused made]
    simp
  · rw [trial_of_made made]
    split_ifs with wide late
    · simp [wide, Nat.not_le.mpr wide, eq_comm]
    · simp [wide, Nat.not_lt.mp wide, late, eq_comm]
    · simp [wide, late]

end Settings

namespace Engine

variable {κ μ : Type} [Core κ] {kept : List Nat} {i : Nat}

theorem misfit?_among (kept : List Nat) (i : Nat) :
    misfit? (i + 1) (Directory.among kept i) = none := by
  simp [misfit?, Directory.ids, Directory.among]

/-- Whether a founder starts is decided by its settings and the clock. -/
theorem startBy_among {genesis : Genesis κ} {widest : Nat} (founds : genesis.Founds widest)
    (ascending : kept.Pairwise (· < ·)) (left : i ∈ kept) (settings : Settings) (machine : μ)
    (now : Nat) : (startBy genesis (i + 1) settings machine {} (Directory.among kept i) now).1.map
      (Except.map fun _ => ()) = settings.trial widest i now := by
  have recorded : recordMembers (i + 1) (Directory.among kept i) {} =
      .founded (kept.map (· + 1)) := recordMembers_among ascending left
  have empty : (Shelf.founded (kept.map (· + 1))).snapshots.index = 0 := rfl
  simp only [startBy, misfit?_among, recorded, empty]
  rcases made : settings.toReplica (i + 1) 0 with fault | failure | r
  · rw [Settings.trial, made]
    rfl
  · rw [Settings.trial_of_refused made]
    rfl
  · obtain ⟨same, valid⟩ := Settings.replica_of_toReplica made
    rw [Settings.trial_of_made made]
    by_cases wide : widest < settings.maxInflight
    · have full : genesis r (.founded (kept.map (· + 1))) = .error .capacityOverflow := by
        obtain ⟨j, js, rfl⟩ := List.exists_cons_of_ne_nil (List.ne_nil_of_mem left)
        exact founds.wide valid (Nat.succ_ne_zero j) (by rwa [same])
      rw [if_pos wide]
      simp only [bind, Except.bind, full]
      rfl
    · obtain ⟨core, begun⟩ : ∃ core, genesis r (.founded (kept.map (· + 1))) =
          .ok (.ok core) := by
        apply founds.begins valid
        · rw [same]
          rfl
        · exact (ascending.imp Nat.ne_of_lt).map _ fun _ _ => Nat.succ_ne_succ_iff.mpr
        · simp
        · rw [same]
          exact Nat.not_lt.mp wide
      rw [if_neg wide]
      simp only [bind, Except.bind, begun]
      split_ifs <;> rfl

end Engine

namespace Live

variable {μ : Type} [Machine μ] {settings : Nat → Settings} {kept rest : List Nat}
variable {genesis : Genesis Replica} {widest : Nat}

/-- The first node that does not start decides what comes of the start of all. -/
theorem startNodes_fst (founds : genesis.Founds widest) (ascending : kept.Pairwise (· < ·))
    (subset : rest ⊆ kept) {left : List (Node × μ)}
    (nodes : left.map Prod.fst = rest.map (Node.among settings kept)) (l : Live μ) :
    (startNodes genesis left l).1 =
      (rest.findSome? fun i => (settings i).hindrance? widest i l.clock).elim (.ok ()) .error := by
  induction left generalizing rest l with
  | nil =>
    obtain rfl : rest = [] := by simpa using nodes.symm
    rfl
  | cons x left ih =>
    obtain ⟨n, machine⟩ := x
    obtain ⟨i, rest, rfl, rfl, same⟩ := List.map_eq_cons_iff.mp nodes.symm
    obtain ⟨listed, subset⟩ := List.cons_subset.mp subset
    rcases begins : Engine.startBy genesis (i + 1) (settings i) machine {}
      (Directory.among kept i) l.clock with ⟨fault | f | e, s⟩
    all_goals
      have tried := Engine.startBy_among founds ascending listed (settings i) machine l.clock
      rw [begins] at tried
      rw [List.findSome?_cons, Settings.hindrance?, ← tried, startNodes]
      simp only [Node.among, Node.id, begins]
    · rfl
    · rfl
    · exact ih subset same.symm _

theorem launchBy_fst (founds : genesis.Founds widest) {machines : List μ} {knobs : List Knob}
    {c : Cluster} (serial : Nat) (brought : machines ≠ []) (builtIn : ∀ k ∈ knobs, k.BuiltIn)
    (initialized : Knob.initAll knobs (Cluster.new machines.length) = (.ok (), c)) :
    (launchBy genesis serial machines knobs).1 =
      ((Knob.kept machines.length knobs).findSome? fun i =>
        (Knob.settingsOf knobs i).hindrance? widest i clockStart).elim (.ok ()) .error := by
  rw [launchBy_eq serial brought initialized]
  exact startNodes_fst founds (Knob.kept_ascending _ _) (List.Subset.refl _)
    (map_fst_manned (Cluster.shaped_of_initAll builtIn initialized)) _

end Live

end QuorumLab
