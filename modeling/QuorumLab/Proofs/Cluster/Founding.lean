import QuorumLab.Proofs.Cluster.Dismissal
import QuorumLab.Proofs.Cluster.Founders

/-!
# Clusters that do not start

The engines of a new cluster are started one after the other. When one is refused, those that
run are dismissed before anybody is told. A fault tells nobody but who started them: the engines
that run by then are left alone.
-/

namespace QuorumLab

/-! ## New engines -/

namespace Engine

variable {μ : Type} {e : Engine Replica μ}

/-- Nothing has happened to the engine yet. -/
structure Fresh (e : Engine Replica μ) : Prop where
  resting : e.resting = true
  queue : e.queue = []
  claimed : e.claimed = false

theorem Fresh.live (fresh : e.Fresh) : e.ending = none := (e.resting_iff.mp fresh.resting).1

theorem fresh_of_startBy {genesis : Genesis Replica} {id : Nat} {settings : Settings}
    {machine : μ} {shelf : Shelf} {peers : Directory} {now : Nat}
    (started : (startBy genesis id settings machine shelf peers now).1 = .ok (.ok e)) :
    e.Fresh := by
  obtain ⟨-, -, core, -, rfl⟩ := startBy_ok (Prod.ext started rfl)
  exact ⟨rfl, rfl, rfl⟩

/-- A new engine that is asked to end does so with its first command. -/
theorem Fresh.queue_requestStop (fresh : e.Fresh) : e.requestStop.2.queue = [.stop] := by
  simp [requestStop, fresh.claimed, ended, fresh.live, fresh.queue]

end Engine

namespace Live

variable {μ : Type} {l : Live μ} {i : Nat} {left : List Nat}

theorem map_fst_requestStops (l : Live μ) (left : List Nat) :
    (l.requestStops left).1.map Prod.fst = left := by
  induction left generalizing l with
  | nil => rfl
  | cons j left ih => exact congrArg (j :: ·) (ih (l.requestStop j).2)

theorem engine?_requestStops_of_not_mem (outside : i ∉ left) :
    (l.requestStops left).2.engine? i = l.engine? i := by
  induction left generalizing l with
  | nil => rfl
  | cons j left ih =>
    obtain ⟨other, outside⟩ := not_or.mp (mt List.mem_cons.mpr outside)
    refine (ih (l := (l.requestStop j).2) outside).trans ?_
    rw [engine?_requestStop, if_neg other]

/-- New engines that are asked to end once have nothing else to do. -/
theorem stopping_of_fresh (distinct : left.Nodup) (fresh : ∀ j ∈ left, ∀ e ∈ l.engine? j, e.Fresh)
    (listed : i ∈ left) : (l.requestStops left).2.Stopping 1 i := by
  induction left generalizing l with
  | nil => cases listed
  | cons j left ih =>
    obtain ⟨new, distinct⟩ := List.nodup_cons.mp distinct
    change (requestStops left (l.requestStop j).2).2.Stopping 1 i
    rcases List.mem_cons.mp listed with rfl | later
    · intro e' there
      rw [engine?_requestStops_of_not_mem new, engine?_requestStop, if_pos rfl] at there
      obtain ⟨e, here, rfl⟩ := Option.map_eq_some_iff.mp there
      have own := fresh i List.mem_cons_self e here
      obtain ⟨-, -, ending, loop⟩ := e.requestStop_spec
      refine Or.inr ⟨?_, ?_, ?_⟩
      · rw [Engine.resting, Engine.ended, ending, loop]
        exact own.resting
      · simp [own.queue_requestStop]
      · simp [own.queue_requestStop]
    · apply ih distinct _ later
      intro k hk e there
      have other : k ≠ j := fun same => new (same ▸ hk)
      rw [engine?_requestStop, if_neg other] at there
      exact fresh k (List.mem_cons_of_mem j hk) e there

end Live

/-! ## The start, step by step -/

/-- How far somebody is who starts the engines of a new cluster. -/
inductive Founding (μ : Type) where
  /-- These are still to be started. -/
  | starting (left : List (Node × μ))
  /-- Node `i` was refused, and those that were started before are being dismissed. -/
  | undoing (i : Nat) (f : Failure) (d : Dismissal)
  | done (result : Except Fault Unit)

namespace Founding

variable {μ ω : Type} [Machine μ]

def step (genesis : Genesis Replica) (l : Live μ) : Founding μ → Live μ × Founding μ
  | starting [] => (l, done (.ok ()))
  | starting ((n, machine) :: left) =>
    match (Engine.startBy genesis n.id n.settings machine n.shelf n.peers l.clock).1 with
    | .ok (.ok e) => ({ l with engines := l.engines ++ [(n.index, e)] }, starting left)
    | .ok (.error f) => (l, undoing n.index f { left := l.engines.map Prod.fst })
    | .error fault => (l, done (.error fault))
  | undoing i f d =>
    if d.Over then (l, done (.error (.startFailed i f)))
    else ((Dismissal.step l d).1, undoing i f (Dismissal.step l d).2)
  | done result => (l, done result)

def thread (μ : Type) [Machine μ] (genesis : Genesis Replica) : Thread μ (Founding μ) where
  ready
    | l, undoing _ _ d => (Dismissal.thread μ).ready l d
    | _, _ => True
  step := step genesis

/-- Before the first engine is started. -/
def opening (serial : Nat) (machines : List μ) (knobs : List Knob) (c : Cluster) :
    Live μ × Founding μ :=
  ({ cluster := c, knobs, machines, serial }, starting (Live.manned c machines))

/-! ## What is kept -/

variable {genesis : Genesis Replica} {widest : Nat}
variable {settings : Nat → Settings} {kept begun : List Nat} {l : Live μ} {p : Founding μ}

/-- Engines were started at the nodes `begun`, whose settings were accepted, and nobody has asked
for their end. -/
structure Begun (settings : Nat → Settings) (begun : List Nat) (l : Live μ) : Prop where
  indexes : l.engines.map Prod.fst = begun
  accepted : ∀ j ∈ begun, ∃ r, (settings j).toReplica (j + 1) 0 = .ok (.ok r)
  lived : ∀ j, ∀ e ∈ l.engine? j, e.Lived
  unclaimed : ∀ j ∈ begun, l.Unclaimed j

namespace Begun

variable [Carrier ω]

theorem moved (h : Begun settings begun l) {m : Live.Move ω} (spares : ∀ j, m.Spares j) :
    Begun settings begun (l.moved m) where
  indexes := (l.indexes_moved m).trans h.indexes
  accepted := h.accepted
  lived j := Live.engine?_moves_keeps (fun w v lived => lived.after w v) (h.lived j) [m]
  unclaimed j hj := (h.unclaimed j hj).moved (spares j)

/-- One more engine. -/
theorem start (h : Begun settings begun l) {i : Nat} {e : Engine Replica μ} (new : i ∉ begun)
    (accepted : ∃ r, (settings i).toReplica (i + 1) 0 = .ok (.ok r)) (fresh : e.Fresh) :
    Begun settings (begun ++ [i]) { l with engines := l.engines ++ [(i, e)] } := by
  let l' : Live μ := { l with engines := l.engines ++ [(i, e)] }
  have found (j : Nat) : l'.engine? j = if j = i then some e else l.engine? j :=
    Live.engine?_add (h.indexes ▸ new) e j
  constructor
  case indexes => rw [List.map_append, h.indexes, List.map_singleton]
  case accepted =>
    intro j hj
    rcases List.mem_append.mp hj with before | now
    · exact h.accepted j before
    · rw [List.mem_singleton.mp now]
      exact accepted
  case lived =>
    intro j e' there
    rw [Option.mem_def, found] at there
    split at there
    · cases there
      exact .running fresh.live
    · exact h.lived j e' there
  case unclaimed =>
    intro j hj
    by_cases same : j = i
    · exact ⟨e, by rw [found, if_pos same], fresh.claimed⟩
    · have before := (List.mem_append.mp hj).resolve_right fun now =>
        same (List.mem_singleton.mp now)
      obtain ⟨e', here, unclaimed⟩ := h.unclaimed j before
      exact ⟨e', by rw [found, if_neg same, here], unclaimed⟩

end Begun

/-- How far the start of the nodes `kept` is, and what is known by then. -/
inductive Sound (settings : Nat → Settings) (widest : Nat) (kept : List Nat) :
    Live μ → Founding μ → Prop
  | starting {l : Live μ} {begun rest : List Nat} {left : List (Node × μ)}
      (split : kept = begun ++ rest)
      (nodes : left.map Prod.fst = rest.map (Node.among settings kept))
      (started : Begun settings begun l) : Sound settings widest kept l (starting left)
  | undoing {l l₀ : Live μ} {begun rest : List Nat} {i : Nat} {f : Failure} {d : Dismissal}
      (split : kept = begun ++ i :: rest)
      (refused : (settings i).toReplica (i + 1) 0 = .ok (.error f))
      (started : Begun settings begun l₀) (indexes : l.engines.map Prod.fst = begun)
      (sound : Dismissal.Sound l₀ begun l d) (alone : ∀ j, Dismissal.Alone l₀ j l d) :
      Sound settings widest kept l (undoing i f d)
  | refused {l : Live μ} {begun rest : List Nat} {i : Nat} {f : Failure}
      (split : kept = begun ++ i :: rest)
      (refused : (settings i).toReplica (i + 1) 0 = .ok (.error f))
      (accepted : ∀ j ∈ begun, ∃ r, (settings j).toReplica (j + 1) 0 = .ok (.ok r))
      (indexes : l.engines.map Prod.fst = begun)
      (ended : ∀ j ∈ begun, ∃ e, l.engine? j = some e ∧ e.ended = true ∧ e.Lived) :
      Sound settings widest kept l (done (.error (.startFailed i f)))
  | faulted {l : Live μ} {begun rest : List Nat} {i now : Nat} {fault : Fault}
      (split : kept = begun ++ i :: rest) (tried : (settings i).trial widest i now = .error fault)
      (started : Begun settings begun l) : Sound settings widest kept l (done (.error fault))
  | complete {l : Live μ} (started : Begun settings kept l) :
      Sound settings widest kept l (done (.ok ()))

theorem Sound.moved [Carrier ω] (h : Sound settings widest kept l p) {m : Live.Move ω}
    (spares : ∀ j, m.Spares j) : Sound settings widest kept (l.moved m) p := by
  cases h with
  | starting split nodes started => exact .starting split nodes (started.moved spares)
  | undoing split refused started indexes sound alone =>
    refine .undoing split refused started ((l.indexes_moved m).trans indexes) (sound.moved m) ?_
    exact fun j => (alone j).after (v := some m) fun m' same => Option.some.inj same ▸ spares j
  | refused split refused accepted indexes ended =>
    refine .refused split refused accepted ((l.indexes_moved m).trans indexes) ?_
    intro j hj
    obtain ⟨e, here, past, lived⟩ := ended j hj
    refine ⟨m.act j e, by rw [Live.engine?_moved, here]; rfl, ?_⟩
    exact m.act_keeps (P := fun e => e.ended = true ∧ e.Lived) ⟨past, lived⟩
      (fun w v ⟨past, lived⟩ => ⟨Engine.ended_after past w v, lived.after w v⟩) j
  | faulted split tried started => exact .faulted split tried (started.moved spares)
  | complete started => exact .complete (started.moved spares)

theorem Sound.step (founds : genesis.Founds widest) (ascending : kept.Pairwise (· < ·))
    (h : Sound settings widest kept l p) (ready : (thread μ genesis).ready l p) :
    Sound settings widest kept (step genesis l p).1 (step genesis l p).2 := by
  cases h with
  | @starting begun rest left split nodes started =>
    cases left with
    | nil =>
      obtain rfl : rest = [] := by simpa using nodes.symm
      rw [List.append_nil] at split
      exact .complete (split ▸ started)
    | cons x left =>
      obtain ⟨n, machine⟩ := x
      obtain ⟨i, rest, rfl, rfl, same⟩ := List.map_eq_cons_iff.mp nodes.symm
      have listed : i ∈ kept := by simp [split]
      have tried := Engine.startBy_among founds ascending listed (settings i) machine l.clock
      change (Engine.startBy genesis (Node.among settings kept i).id
        (Node.among settings kept i).settings machine (Node.among settings kept i).shelf
        (Node.among settings kept i).peers l.clock).1.map _ = _ at tried
      rw [Founding.step]
      split
      · rename_i e begins
        rw [begins] at tried
        have new : i ∉ begun := fun before => Nat.lt_irrefl i (Knob.lt_of_split ascending split i before)
        exact .starting (by rw [split, List.append_assoc]; rfl) same.symm
          (started.start new (Settings.exists_of_trial tried.symm) (Engine.fresh_of_startBy begins))
      · rename_i f refused
        rw [refused] at tried
        have awaited := Settings.trial_refused_iff.mp tried.symm
        rw [started.indexes]
        exact .undoing split awaited started started.indexes (.start started.lived)
          fun j => .start
      · rename_i fault failed
        rw [failed] at tried
        exact .faulted split tried.symm started
  | undoing split refused started indexes sound alone =>
    rw [Founding.step]
    split_ifs with finished
    · refine .refused split refused started.accepted indexes ?_
      intro j hj
      obtain ⟨e, here, past, -⟩ := sound.ended finished
        ((alone j).given sound finished.1 hj (started.unclaimed j hj))
      exact ⟨e, here, past, sound.lived j e here⟩
    · exact .undoing split refused started ((Dismissal.indexes_step _ _).trans indexes) (sound.step ready)
        fun j => (alone j).after (ω := Station) (v := none) (by simp)
  | refused split refused accepted indexes ended => exact .refused split refused accepted indexes ended
  | faulted split tried started => exact .faulted split tried started
  | complete started => exact .complete started

theorem Sound.after [Carrier ω] (founds : genesis.Founds widest)
    (ascending : kept.Pairwise (· < ·)) (h : Sound settings widest kept l p)
    {v : Option (Live.Move ω)} (admitted : ((thread μ genesis).amid ω).admits (l, p) v)
    (spares : ∀ m ∈ v, ∀ j, m.Spares j) :
    Sound settings widest kept (((thread μ genesis).amid ω).after (l, p) v).1
      (((thread μ genesis).amid ω).after (l, p) v).2 := by
  cases v with
  | none => exact h.step founds ascending admitted
  | some m => exact h.moved (spares m rfl)

/-! ## Starts at one go -/

/-- A dismissal is a part of the start. -/
theorem reaches_undoing {l' : Live μ} {d d' : Dismissal}
    (run : (Dismissal.thread μ).Reaches (l, d) (l', d')) (i : Nat) (f : Failure) :
    (thread μ genesis).Reaches (l, undoing i f d) (l', undoing i f d') := by
  obtain ⟨vs, spares, admitted, played⟩ := run
  induction vs generalizing l d with
  | nil =>
    cases played
    exact .refl
  | cons v vs ih =>
    obtain ⟨first, others⟩ := List.forall_mem_cons.mp spares
    cases v with
    | some m =>
      have rest := ih (l := l.moved m) (d := d) others admitted.2 played
      exact Thread.Reaches.trans (.moves [m] (by simpa using first)) rest
    | none =>
      have rest := ih (l := (Dismissal.step l d).1) (d := (Dismissal.step l d).2) others
        admitted.2 played
      by_cases finished : d.Over
      · -- a dismissal that is over stays where it is
        rw [finished.step_eq] at rest
        exact rest
      · have next : step genesis l (undoing i f d) =
            ((Dismissal.step l d).1, undoing i f (Dismissal.step l d).2) := by
          rw [step, if_neg finished]
        exact Thread.Reaches.trans (.own admitted.1 next) rest

/-- When a node is refused, new engines are dismissed at one go. -/
theorem reaches_refused (distinct : (l.engines.map Prod.fst).Nodup)
    (fresh : ∀ x ∈ l.engines, x.2.Fresh) (i : Nat) (f : Failure) :
    (thread μ genesis).Reaches (l, undoing i f { left := l.engines.map Prod.fst })
      ((l.shutdownAll (l.engines.map Prod.fst)).2, done (.error (.startFailed i f))) := by
  obtain ⟨d, dismissed, finished, -⟩ :=
    Dismissal.reaches_shutdownAll l (l.engines.map Prod.fst) fun j first => by
      refine ⟨1, Or.inr (Nat.le_refl 1), Live.stopping_of_fresh distinct ?_ ?_⟩
      · exact fun k _ e here => fresh (k, e) (Live.mem_of_engine? here)
      · have listed := List.mem_map_of_mem (f := Prod.fst) first
        rwa [l.map_fst_requestStops] at listed
  refine (reaches_undoing dismissed i f).trans (.own ?_ (if_pos finished))
  intro j awaited
  rw [finished.awaited?_eq] at awaited
  cases awaited

/-- Starting one engine after the other is a run. -/
theorem reaches_startNodes {left : List (Node × μ)}
    (distinct : (l.engines.map Prod.fst ++ left.map (·.1.index)).Nodup)
    (fresh : ∀ x ∈ l.engines, x.2.Fresh) :
    (thread μ genesis).Reaches (l, starting left)
      ((Live.startNodes genesis left l).2, done (Live.startNodes genesis left l).1) := by
  induction left generalizing l with
  | nil => exact .own trivial rfl
  | cons x left ih =>
    obtain ⟨n, machine⟩ := x
    have next : (thread μ genesis).step l (starting ((n, machine) :: left)) =
      step genesis l (starting ((n, machine) :: left)) := rfl
    rcases begins : Engine.startBy genesis n.id n.settings machine n.shelf n.peers l.clock with
      ⟨fault | f | e, s⟩
    all_goals
      rw [step, begins] at next
      rw [Live.startNodes, begins]
    · exact .own trivial next
    · exact Thread.Reaches.trans (.own trivial next)
        (reaches_refused (List.nodup_append.mp distinct).1 fresh n.index f)
    · refine Thread.Reaches.trans (.own trivial next) (ih (by simpa using distinct) ?_)
      refine List.forall_mem_append.mpr ⟨fresh, ?_⟩
      simpa using Engine.fresh_of_startBy (congrArg Prod.fst begins)

theorem fresh_startNodes {left : List (Node × μ)} (fresh : ∀ x ∈ l.engines, x.2.Fresh)
    (whole : ∀ i f, (Live.startNodes genesis left l).1 ≠ .error (.startFailed i f)) :
    ∀ x ∈ (Live.startNodes genesis left l).2.engines, x.2.Fresh := by
  induction left generalizing l with
  | nil => exact fresh
  | cons x left ih =>
    obtain ⟨n, machine⟩ := x
    rw [Live.startNodes] at whole ⊢
    split
    · rename_i e s begins
      rw [begins] at whole
      refine ih (l := { l with engines := l.engines ++ [(n.index, e)] }) ?_ whole
      refine List.forall_mem_append.mpr ⟨fresh, ?_⟩
      simpa using Engine.fresh_of_startBy (congrArg Prod.fst begins)
    · rename_i f s begins
      rw [begins] at whole
      exact absurd rfl (whole n.index f)
    · exact fresh

/-! ## Every start -/

/-- Whatever goes on meanwhile, the start of a cluster that is told a node names the first that
is refused; exactly those before it were started, and all of them have ended. A start that
succeeds has started every node that the knobs let start. But a start can also end by a fault:
accepted settings ask for a window that the protocol cannot set aside, or for a tick beyond what
the clock can tell. That names no node, and nobody asks those that were started before it to end.
Which it is hangs on the first node that does not start, and a start at one go is one of these
runs. -/
theorem refused_start_undone [Carrier ω] {genesis : Genesis Replica} {widest : Nat}
    (founds : genesis.Founds widest) {serial : Nat} {machines : List μ} {knobs : List Knob}
    {c : Cluster} (brought : machines ≠ []) (builtIn : ∀ k ∈ knobs, k.BuiltIn)
    (initialized : Knob.initAll knobs (Cluster.new machines.length) = (.ok (), c))
    {vs : List (Option (Live.Move ω))} (spares : ∀ v ∈ vs, ∀ m ∈ v, ∀ j, m.Spares j)
    (admitted : ((thread μ genesis).amid ω).AdmitsAll (opening serial machines knobs c) vs) :
    let kept := Knob.kept machines.length knobs
    let settings := Knob.settingsOf knobs
    let accepted (j : Nat) := ∃ r, (settings j).toReplica (j + 1) 0 = .ok (.ok r)
    let l := (((thread μ genesis).amid ω).play (opening serial machines knobs c) vs).1
    let p := (((thread μ genesis).amid ω).play (opening serial machines knobs c) vs).2
    let launched := Live.launchBy genesis serial machines knobs
    (∀ i f, p = done (.error (.startFailed i f)) →
      i ∈ kept ∧ (settings i).toReplica (i + 1) 0 = .ok (.error f) ∧
      l.engines.map Prod.fst = kept.filter (· < i) ∧
      ∀ j ∈ kept, j < i → accepted j ∧
        ∃ e, l.engine? j = some e ∧ e.ended = true ∧ e.published.state = .shutdown) ∧
    (p = done (.ok ()) → l.engines.map Prod.fst = kept ∧ ∀ j ∈ kept, accepted j ∧ l.Unclaimed j) ∧
    (∀ fault, p = done (.error fault) → (∀ i f, fault ≠ .startFailed i f) →
      ∃ i ∈ kept, (∃ now, (settings i).trial widest i now = .error fault) ∧
      l.engines.map Prod.fst = kept.filter (· < i) ∧
      ∀ j ∈ kept, j < i → accepted j ∧ l.Unclaimed j) ∧
    launched.1 = (kept.findSome? fun i => (settings i).hindrance? widest i clockStart).elim
      (.ok ()) .error ∧
    ((∀ i f, launched.1 ≠ .error (.startFailed i f)) → ∀ x ∈ launched.2.engines, x.2.Fresh) ∧
    ∃ us : List (Option (Live.Move Station)), (∀ v ∈ us, ∀ m ∈ v, ∀ j, m.Spares j) ∧
      ((thread μ genesis).amid Station).AdmitsAll (opening serial machines knobs c) us ∧
      ((thread μ genesis).amid Station).play (opening serial machines knobs c) us =
        (launched.2, done launched.1) := by
  intro kept settings accepted l p launched
  have ascending : kept.Pairwise (· < ·) := Knob.kept_ascending _ _
  have nodes : (Live.manned c machines).map Prod.fst = kept.map (Node.among settings kept) :=
    Live.map_fst_manned (Cluster.shaped_of_initAll builtIn initialized)
  have run : launched =
      Live.startNodes genesis (Live.manned c machines) (opening serial machines knobs c).1 :=
    Live.launchBy_eq serial brought initialized
  have nobody : (opening serial machines knobs c).1.engines = [] := rfl
  have fresh : ∀ x ∈ (opening serial machines knobs c).1.engines, x.2.Fresh := by
    rw [nobody]
    exact List.forall_mem_nil _
  have sound : Sound settings widest kept l p := by
    apply System.play_invariant (P := fun s => Sound settings widest kept s.1 s.2) _ admitted spares
    · exact fun sound admitted spares => sound.after founds ascending admitted spares
    · exact .starting (List.nil_append kept).symm nodes
        ⟨rfl, List.forall_mem_nil _, fun _ _ none => (by cases none), List.forall_mem_nil _⟩
  clear_value l p
  refine ⟨?_, ?_, ?_, ?_, ?_, ?_⟩
  · rintro i f rfl
    cases sound with
    | @refused begun rest _ _ split refused accepted indexes ended =>
      have before := Knob.filter_lt_of_split ascending split
      refine ⟨by simp [split], refused, indexes.trans before.symm, fun j hj below => ?_⟩
      have listed : j ∈ begun := before ▸ List.mem_filter.mpr ⟨hj, decide_eq_true below⟩
      obtain ⟨e, here, past, lived⟩ := ended j listed
      exact ⟨accepted j listed, e, here, past, lived.state_of_ended past⟩
    | faulted split tried =>
      rcases Settings.trial_error_iff.mp tried with ⟨-, other⟩ | ⟨-, ⟨-, other⟩ | ⟨-, -, other⟩⟩
      all_goals cases other
  · rintro rfl
    cases sound with
    | complete started =>
      exact ⟨started.indexes, fun j hj => ⟨started.accepted j hj, started.unclaimed j hj⟩⟩
  · rintro fault rfl other
    cases sound with
    | refused => exact absurd rfl (other _ _)
    | @faulted begun rest i now _ split tried started =>
      have before := Knob.filter_lt_of_split ascending split
      refine ⟨i, by simp [split], ⟨now, tried⟩, started.indexes.trans before.symm, ?_⟩
      intro j hj below
      have listed : j ∈ begun := before ▸ List.mem_filter.mpr ⟨hj, decide_eq_true below⟩
      exact ⟨started.accepted j listed, started.unclaimed j listed⟩
  · exact Live.launchBy_fst founds serial brought builtIn initialized
  · rw [run]
    exact fresh_startNodes fresh
  · rw [run]
    refine reaches_startNodes (l := (opening serial machines knobs c).1) ?_ fresh
    have distinct : kept.Nodup := ascending.imp Nat.ne_of_lt
    have indexes : (Live.manned c machines).map (·.1.index) = kept := by
      have named := congrArg (List.map Node.index) nodes
      rw [List.map_map, List.map_map] at named
      exact named.trans (List.map_id kept)
    rw [nobody, indexes]
    exact distinct

/-- Of four nodes three are to start. The settings of the last are refused in one cluster, and
ask for too wide a window in the other. -/
theorem refused_start_undone_of_four :
    let machines : List Recorder := List.replicate 4 {}
    let knobs (change : Settings → Settings) : List Knob :=
      [.servers [1, 2, 3], .settings fun i s => (.ok (), if i = 3 then change s else s)]
    let refused := Live.launch 0 machines (knobs fun s => { s with snapshotThreshold := 0 })
    let faulted := Live.launch 0 machines (knobs fun s => { s with maxInflight := 2 ^ 60 })
    (∀ change, ∀ k ∈ knobs change, k.BuiltIn) ∧
    refused.1 = .error (.startFailed 3 (.config "snapshot_threshold must be positive")) ∧
    refused.2.engines.map Prod.fst = [1, 2] ∧
    (∀ j ∈ [1, 2], ∃ e, refused.2.engine? j = some e ∧ e.ended = true) ∧
    faulted.1 = .error .capacityOverflow ∧
    faulted.2.engines.map Prod.fst = [1, 2] ∧
    ∀ j ∈ [1, 2], faulted.2.Unclaimed j := by
  intro machines knobs refused faulted
  have builtIn : ∀ change, ∀ k ∈ knobs change, k.BuiltIn := by simp [knobs, Knob.BuiltIn]
  have brought : machines ≠ [] := List.cons_ne_nil _ _
  have initialized : ∀ change, ∃ c, Knob.initAll (knobs change) (Cluster.new 4) = (.ok (), c) :=
    fun change => (Cluster.Shaped.new 4).initAll_done (by simp [knobs, Knob.Fits])
  have idle (change : Settings → Settings) (c : Cluster) :
      ((thread Recorder Replica.start).amid Station).AdmitsAll
        (opening 0 machines (knobs change) c) [] := trivial
  refine ⟨builtIn, ?_⟩
  obtain ⟨c, done⟩ := initialized fun s => { s with snapshotThreshold := 0 }
  obtain ⟨-, -, -, result, -, us, spares, admitted, played⟩ :=
    refused_start_undone Replica.founds brought (builtIn _) done (List.forall_mem_nil _) (idle _ c)
  have told : refused.1 =
      .error (.startFailed 3 (.config "snapshot_threshold must be positive")) :=
    result.trans (by decide +kernel)
  have played : _ = (refused.2, Founding.done refused.1) := played
  clear_value refused
  obtain ⟨undone, -⟩ := refused_start_undone Replica.founds brought (builtIn _) done spares admitted
  rw [played] at undone
  obtain ⟨-, -, indexes, ended⟩ := undone _ _ (congrArg Founding.done told)
  obtain ⟨c', done'⟩ := initialized fun s => { s with maxInflight := 2 ^ 60 }
  obtain ⟨-, -, -, result', -, us', spares', admitted', played'⟩ :=
    refused_start_undone Replica.founds brought (builtIn _) done' (List.forall_mem_nil _) (idle _ c')
  have told' : faulted.1 = .error .capacityOverflow := result'.trans (by decide +kernel)
  have played' : _ = (faulted.2, Founding.done faulted.1) := played'
  clear_value faulted
  obtain ⟨-, -, left, -⟩ := refused_start_undone Replica.founds brought (builtIn _) done' spares' admitted'
  rw [played'] at left
  obtain ⟨i, hi, ⟨now, tried⟩, indexes', unclaimed⟩ :=
    left _ (congrArg Founding.done told') fun _ _ same => by cases same
  have wide : Electorate.widest <
      (Knob.settingsOf (knobs fun s => { s with maxInflight := 2 ^ 60 }) i).maxInflight := by
    rcases Settings.trial_error_iff.mp tried with ⟨-, other⟩ | ⟨-, ⟨wide, -⟩ | ⟨-, -, other⟩⟩
    · cases other
    · exact wide
    · cases other
  have last : ∀ j ∈ Knob.kept 4 (knobs fun s => { s with maxInflight := 2 ^ 60 }),
      Electorate.widest <
        (Knob.settingsOf (knobs fun s => { s with maxInflight := 2 ^ 60 }) j).maxInflight →
      j = 3 := by decide +kernel
  obtain rfl := last i hi wide
  have first : ∀ j ∈ [1, 2], j ∈ Knob.kept 4 (knobs fun s => { s with snapshotThreshold := 0 }) ∧
      j ∈ Knob.kept 4 (knobs fun s => { s with maxInflight := 2 ^ 60 }) ∧ j < 3 := by
    decide +kernel
  refine ⟨told, indexes.trans (by decide +kernel), fun j hj => ?_, told',
    indexes'.trans (by decide +kernel), fun j hj => ?_⟩
  · obtain ⟨e, here, past, -⟩ := (ended j (first j hj).1 (first j hj).2.2).2
    exact ⟨e, here, past⟩
  · exact (unclaimed j (first j hj).2.1 (first j hj).2.2).2

end Founding

end QuorumLab
