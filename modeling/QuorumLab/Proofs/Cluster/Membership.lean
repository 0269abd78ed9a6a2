import QuorumLab.Cluster.Live
import QuorumLab.Proofs.Cluster.Composition
import QuorumLab.Proofs.Engine.Cycles
import QuorumLab.Proofs.Engine.Starting

/-!
# One membership for all engines

Every engine works out its membership by itself, from what is left of the directory its node was
built with. All come to the same, and each finds every other member under the address it has
for it: a message arrives at the member it is for, or nowhere.
-/

namespace QuorumLab

/-! ## Addresses stay -/

namespace Engine

variable {κ μ ω : Type} [Core κ] [Machine μ] [Carrier ω]

omit [Core κ] [Machine μ] in
theorem addresses_finish (e : Engine κ μ) (ending : Ending) :
    (e.finish ending).driver.addresses = e.driver.addresses := by
  cases ending with
  | returned r =>
    simp only [finish, driver, foldl_reject]
    rfl
  | crashed f => rfl

theorem addresses_after (e : Engine κ μ) (w : ω) (v : Event ω) :
    (e.after w v).1.driver.addresses = e.driver.addresses := by
  rcases e.after_cases w v with ⟨-, asks | rouses⟩ | ⟨rfl, advances⟩
  · generalize (e.after w v).1 = e' at asks
    cases asks <;> rfl
  · generalize (e.after w v).1 = e' at rouses
    cases rouses with
    | same => rfl
    | ends rest left => exact addresses_finish _ _
    | wakes cause rest taken => rfl
  · generalize (e.after w .statement).1 = e' at advances
    cases advances with
    | still => rfl
    | did live todo done => exact Driver.addresses_perform done
    | turned live todo busy turn =>
      obtain ⟨core, same, -⟩ := turn_cases live todo busy turn
      rw [driver, same]
    | stopped live todo stop =>
      obtain ⟨machine, rfl⟩ := Driver.left_of_stopped stop
      exact addresses_finish _ _
    | crashed => exact addresses_finish _ _

theorem addresses_plays (s : Engine κ μ × ω) (vs : List (Event ω)) :
    (plays s vs).1.driver.addresses = s.1.driver.addresses := by
  induction vs generalizing s with
  | nil => rfl
  | cons v vs ih => exact (ih _).trans (s.1.addresses_after s.2 v)

end Engine

/-! ## What is sent to a peer -/

namespace Driver

variable {κ μ ω : Type} [Core κ] [Carrier ω] {d d' : Driver κ μ} {m : Message} {w w' : ω}
  {a : String}

/-- What could be sent is not reported, unless it is a snapshot. -/
theorem send_ok (known : d.addresses.lookup m.target = some a)
    (sent : Carrier.send a m w = (.ok (), w')) :
    d.send m w = (if m.kind == .snapshot then Core.reportSnapshot d.shelf m.target true d.core
      else .ok d.core).map fun core => ({ d with core }, w') := by
  simp only [send, known, sent]
  by_cases snapshot : (m.kind == .snapshot) = true
  · simp only [if_pos snapshot]
    cases Core.reportSnapshot d.shelf m.target true d.core <;> rfl
  · simp only [if_neg snapshot]
    rfl

/-- A peer with an address is sent to. -/
theorem send_carried (known : d.addresses.lookup m.target = some a)
    (done : d.send m w = .ok (d', w')) : w' = (Carrier.send a m w).2 := by
  simp only [send, known] at done
  split at done
  · rename_i w₁ sent
    rw [sent]
    split at done
    all_goals
      obtain ⟨core, -, same⟩ := bind_ok done
      cases same
      rfl
  · rename_i f w₁ sent
    rw [sent]
    obtain ⟨told, -, done⟩ := bind_ok done
    split at done
    all_goals
      obtain ⟨core, -, same⟩ := bind_ok done
      cases same
      rfl

end Driver

/-! ## What an engine is started with -/

theorem Directory.lookup_among {indexes : List Nat} {i j : Nat} (hj : j ∈ indexes)
    (other : j ≠ i) :
    ((among indexes i).map fun p => (p.id, p.address)).reverse.lookup (j + 1) =
      some (toString j) := by
  have mem : j ∈ (indexes.filter (· ≠ i)).reverse :=
    List.mem_reverse.mpr (List.mem_filter.mpr ⟨hj, decide_eq_true other⟩)
  simp only [among, List.map_map, ← List.map_reverse]
  generalize (indexes.filter (· ≠ i)).reverse = js at mem
  induction js with
  | nil => cases mem
  | cons k js ih =>
    rw [List.map_cons, List.lookup_cons]
    by_cases same : j = k
    · subst same
      simp
    · have differ : (j + 1 == k + 1) = false := by simpa using same
      simp only [Function.comp_apply, differ]
      exact ih (List.mem_of_ne_of_mem same mem)

/-- The own id and those of the others are sorted into the ids of all. -/
theorem Engine.recordMembers_among {kept : List Nat} (ascending : kept.Pairwise (· < ·)) {i : Nat}
    (left : i ∈ kept) :
    recordMembers (i + 1) (Directory.among kept i) {} =
      { stable := { membership := { voters := kept.map (· + 1) } } } := by
  have distinct : kept.Nodup := ascending.imp Nat.ne_of_lt
  have others : kept.filter (· ≠ i) = kept.erase i := by
    rw [distinct.erase_eq_filter]
    congr 1
    funext j
    exact decide_not ..
  have all : ((Directory.among kept i).ids ++ [i + 1]).Perm (kept.map (· + 1)) := by
    rw [Directory.ids, Directory.among, others, List.map_map]
    exact (List.perm_append_singleton _ _).trans ((List.perm_cons_erase left).map (· + 1)).symm
  let voters := ((Directory.among kept i).ids ++ [i + 1]).mergeSort fun a b => decide (a ≤ b)
  have sorted : voters.Pairwise (· ≤ ·) := by
    have merged : voters.Pairwise fun a b => decide (a ≤ b) = true :=
      List.pairwise_mergeSort (by simpa using fun a b c => Nat.le_trans)
        (by simpa using Nat.le_total) _
    exact merged.imp of_decide_eq_true
  have ascending' : (kept.map (· + 1)).Pairwise (· ≤ ·) :=
    List.pairwise_map.mpr (ascending.imp fun less => Nat.succ_le_succ (Nat.le_of_lt less))
  have same : voters = kept.map (· + 1) :=
    List.Perm.eq_of_pairwise (fun a b _ _ => Nat.le_antisymm) sorted ascending'
      ((List.mergeSort_perm _ _).trans all)
  rw [← same]
  rfl

/-- Where the members are recorded already, starting changes nothing about them. -/
theorem Engine.start_recorded {μ : Type} [Machine μ] {id : Nat} {peers : Directory}
    (fits : misfit? id peers = none) (settings : Settings) (machine : μ) (shelf : Shelf)
    (now : Nat) : start id settings machine (recordMembers id peers shelf) peers now =
      start id settings machine shelf peers now := by
  simp only [start, startBy, fits, recordMembers_recordMembers]

namespace Fabric

variable {f g : Fabric} {i j : Nat} {a : String} {m : Message}

/-- `m` was given to the fabric at `i`: it is counted there, and arrives at `j` or nowhere. -/
def Given (f g : Fabric) (i j : Nat) (m : Message) : Prop :=
  g = f.update i Endpoint.countDropped ∨
    g = (f.update j (·.deliver m)).update i Endpoint.countSent

/-- However a fabric is wired, an address leads to the endpoint that has it. -/
theorem Wired.given (w : f.Wired) (there : f.address? j = some a) (i : Nat) (m : Message)
    (draw : Float) : f.Given (f.send (.inside i) a m draw).2 i j m := by
  have asked : (f.endpoint? (.inside i)).bind (·.route? a) = f.route? i a := rfl
  rw [send, asked]
  cases route : f.route? i a with
  | none => exact Or.inl rfl
  | some site =>
    obtain ⟨k, rfl, address⟩ := w.routes route
    obtain rfl := w.distinct there address
    dsimp only
    split
    · exact Or.inl rfl
    · split
      · exact Or.inr rfl
      · exact Or.inl rfl

end Fabric

namespace Cluster.Pruned

variable {c : Cluster} {t : Topology} {settings : Nat → Settings} {kept : List Nat} {j : Nat}

theorem endpoint (h : c.Pruned settings kept t) (hj : j < c.size) :
    ∃ e, c.fabric.endpoints[j]? = some e ∧ e.address = toString j ∧ e.live = true := by
  have numbered : (c.fabric.endpoints.map Endpoint.bare)[j]? =
      some { id := j + 1, address := toString j } := by
    rw [h.bare, Fabric.numbered, List.getElem?_map, List.getElem?_range hj]
    rfl
  rw [List.getElem?_map] at numbered
  obtain ⟨e, here, bare⟩ := Option.map_eq_some_iff.mp numbered
  exact ⟨e, here, congrArg Endpoint.address bare, congrArg Endpoint.live bare⟩

theorem route (h : c.Pruned settings kept t) (complete : t.Complete) {i : Nat} (hi : i ∈ kept)
    (hj : j ∈ kept) (distinct : i ≠ j) :
    c.fabric.address? j = some (toString j) ∧
      c.fabric.route? i (toString j) = some (.inside j) := by
  obtain ⟨e, here, address, -⟩ := h.endpoint (h.inside j hj)
  have there : c.fabric.address? j = some (toString j) := by
    rw [Fabric.address?, here, ← address]
    rfl
  obtain ⟨a, there', route⟩ := (h.represents.linked distinct).mpr
    (complete i (h.mem_present hi) j (h.mem_present hj) distinct)
  obtain rfl := Option.some.inj (there'.symm.trans there)
  exact ⟨there, route⟩

end Cluster.Pruned

namespace Live

variable {μ : Type} [Machine μ] {l l' : Live μ} {genesis : Genesis Replica}

/-- Every node that is left of a cluster, with the machine that was brought for it. -/
def manned (c : Cluster) (machines : List μ) : List (Node × μ) :=
  c.nodes.filterMap fun n => (machines[n.index]?).map (n, ·)

omit [Machine μ] in
theorem mem_manned {c : Cluster} {machines : List μ} {n : Node} {machine : μ} :
    (n, machine) ∈ manned c machines ↔ n ∈ c.nodes ∧ machines[n.index]? = some machine := by
  simp only [manned, List.mem_filterMap, Option.map_eq_some_iff, Prod.mk.injEq]
  constructor
  · rintro ⟨n, left, machine, here, rfl, rfl⟩
    exact ⟨left, here⟩
  · rintro ⟨left, here⟩
    exact ⟨n, left, machine, here, rfl, rfl⟩

omit [Machine μ] in
/-- Every node that the knobs let start is brought a machine. -/
theorem map_fst_manned {c : Cluster} {machines : List μ} {settings : Nat → Settings}
    {kept : List Nat} {rate : Float} (shaped : c.Shaped machines.length settings kept rate) :
    (manned c machines).map Prod.fst = kept.map (Node.among settings kept) := by
  obtain ⟨t, pruned, -⟩ := shaped.pruned
  have inside : ∀ i ∈ kept, i < machines.length := fun i hi => shaped.size ▸ pruned.inside i hi
  rw [manned, pruned.nodes, List.filterMap_map, List.map_filterMap, ← List.filterMap_eq_map]
  apply List.filterMap_congr
  intro i hi
  have here := List.getElem?_eq_getElem (inside i hi)
  simp [Node.among, here]

theorem launchBy_eq {c : Cluster} {machines : List μ} {knobs : List Knob} (serial : Nat)
    (brought : machines ≠ [])
    (initialized : Knob.initAll knobs (Cluster.new machines.length) = (.ok (), c)) :
    launchBy genesis serial machines knobs =
      startNodes genesis (manned c machines) { cluster := c, knobs, machines, serial } := by
  rw [launchBy, if_neg (by simpa using brought), initialized]
  rfl

/-- Engines are started one after the other, each at its node, and nothing else is changed. -/
theorem startNodes_ok {xs : List (Node × μ)} (h : startNodes genesis xs l = (.ok (), l')) :
    ∃ es, l' = { l with engines := l.engines ++ es } ∧
      es.map Prod.fst = (xs.map Prod.fst).map Node.index ∧
      ∀ y ∈ es, ∃ x ∈ xs, y.1 = x.1.index ∧ ∃ s,
        Engine.startBy genesis x.1.id x.1.settings x.2 x.1.shelf x.1.peers l.clock =
          (.ok (.ok y.2), s) := by
  induction xs generalizing l with
  | nil =>
    cases h
    exact ⟨[], by simp⟩
  | cons x xs ih =>
    obtain ⟨n, machine⟩ := x
    rw [startNodes] at h
    split at h
    · rename_i e s started
      obtain ⟨es, rfl, indexes, starts⟩ := ih h
      refine ⟨(n.index, e) :: es, by simp, by simp [indexes], ?_⟩
      intro y hy
      rcases List.mem_cons.mp hy with rfl | later
      · exact ⟨_, List.mem_cons_self, rfl, s, started⟩
      · obtain ⟨x, hx, start⟩ := starts y later
        exact ⟨x, List.mem_cons_of_mem _ hx, start⟩
    · cases h
    · cases h

/-- Engines that can all be started are. -/
theorem startNodes_done {xs : List (Node × μ)} (starts : ∀ x ∈ xs,
    ((Engine.startBy genesis x.1.id x.1.settings x.2 x.1.shelf x.1.peers l.clock).1.toOption.bind
      Except.toOption).isSome) : (startNodes genesis xs l).1 = .ok () := by
  induction xs generalizing l with
  | nil => rfl
  | cons x xs ih =>
    obtain ⟨n, machine⟩ := x
    have first := starts (n, machine) List.mem_cons_self
    rw [startNodes]
    split
    · rename_i e s _
      exact ih (l := { l with engines := l.engines ++ [(n.index, e)] })
        fun x hx => starts x (List.mem_cons_of_mem _ hx)
    · rename_i refused
      rw [refused] at first
      cases first
    · rename_i refused
      rw [refused] at first
      cases first

/-- What holds of the engine `e` of node `i` when the nodes `kept` were started. -/
structure Acquainted (l : Live μ) (kept : List Nat) (i : Nat) (e : Engine Replica μ) : Prop where
  id : e.id = i + 1
  member : e.id ∈ kept.map (· + 1)
  membership : e.driver.shelf.stable.membership = { voters := kept.map (· + 1) }
  addressed : ∀ j ∈ kept, j ≠ i → ∃ a, e.driver.addresses.lookup (j + 1) = some a ∧
    l.fabric.address? j = some a ∧ l.fabric.route? i a = some (.inside j)
  /-- What is sent to another member arrives there, unless what is drawn loses it. -/
  sent : ∀ j ∈ kept, j ≠ i → ∀ m : Message, m.target = j + 1 → ∀ draws,
    let w : Station := { l.station i with draws }
    e.driver.send m w =
      (if m.kind == .snapshot then Core.reportSnapshot e.driver.shelf m.target true e.driver.core
        else .ok e.driver.core).map fun core => ({ e.driver with core }, { w with
          fabric := if l.fabric.loses (.inside i) w.draw
            then l.fabric.update i Endpoint.countDropped
            else (l.fabric.update j (·.deliver m)).update i Endpoint.countSent
          draws := draws.tail })
  /-- Nor is anything sent elsewhere later, whatever happens to the engine and the links. -/
  given : ∀ j ∈ kept, j ≠ i → ∀ (w : Station) (vs : List (Event Station)) (f : Fabric),
    f.Wired → f.address? j = l.fabric.address? j → ∀ m : Message, m.target = j + 1 →
    ∀ (draws : List Float) (d : Driver Replica μ) (w' : Station),
      (Engine.plays (e, w) vs).1.driver.send m { fabric := f, site := .inside i, draws } =
        .ok (d, w') → f.Given w'.fabric i j m

variable {t : Topology} {settings : Nat → Settings} {kept : List Nat}

/-- An engine that was started at a node of a restricted cluster. -/
theorem acquainted_of_start (h : l.cluster.Pruned settings kept t) (complete : t.Complete)
    (ascending : kept.Pairwise (· < ·)) {i : Nat} (left : i ∈ kept) {machine : μ} {now : Nat}
    {e : Engine Replica μ} {s : Shelf}
    (started : Engine.start (i + 1) (settings i) machine {} (Directory.among kept i) now =
      (.ok (.ok e), s)) : l.Acquainted kept i e := by
  obtain ⟨rfl, core, -, rfl⟩ := Engine.start_ok started
  rw [Engine.recordMembers_among ascending left]
  constructor
  case id => rfl
  case member => exact List.mem_map_of_mem left
  case membership => rfl
  case addressed =>
    intro j hj other
    exact ⟨toString j, Directory.lookup_among hj other, h.route complete left hj (Ne.symm other)⟩
  case sent =>
    intro j hj other m target draws w
    obtain ⟨there, route⟩ := h.route complete left hj (Ne.symm other)
    obtain ⟨e, here, -, live⟩ := h.endpoint (h.inside j hj)
    apply Driver.send_ok (a := toString j)
    · rw [target]
      exact Directory.lookup_among hj other
    · have send : l.fabric.send (.inside i) (toString j) m w.draw = _ :=
        Fabric.send_of_route route here live m w.draw
      have same : w.fabric = l.fabric ∧ w.site = .inside i := ⟨rfl, rfl⟩
      simp only [Carrier.send, same.1, same.2, send]
      rfl
  case given =>
    intro j hj other w vs f wired there m target draws d w' done
    have known := Directory.lookup_among hj other
    change f.address? j = l.cluster.fabric.address? j at there
    rw [(h.route complete left hj (Ne.symm other)).1] at there
    rw [Driver.send_carried (a := toString j) ?_ done]
    · exact wired.given there i m _
    · rw [target, Engine.addresses_plays]
      exact known

/-- A cluster that was launched has an engine at every node that the knobs let start, around the
machine that was brought for it, and is otherwise what the knobs made of it. -/
theorem launch_ok {serial : Nat} {machines : List μ} {knobs : List Knob}
    (builtIn : ∀ k ∈ knobs, k.BuiltIn)
    (launched : launch serial machines knobs = (.ok (), l)) :
    let kept := Knob.kept machines.length knobs
    let settings := Knob.settingsOf knobs
    ∃ c es, Knob.initAll knobs (Cluster.new machines.length) = (.ok (), c) ∧
      c.Shaped machines.length settings kept (Knob.rateOf knobs) ∧
      l = { cluster := c, knobs, machines, serial, engines := es } ∧ es.map Prod.fst = kept ∧
      ∀ x ∈ es, x.1 ∈ kept ∧ ∃ machine s, machines[x.1]? = some machine ∧
        Engine.start (x.1 + 1) (settings x.1) machine {} (Directory.among kept x.1) clockStart =
          (.ok (.ok x.2), s) := by
  intro kept settings
  have brought : machines ≠ [] := by
    rintro rfl
    cases launched
  rcases initialized : Knob.initAll knobs (Cluster.new machines.length) with ⟨_ | _, c⟩
  · rw [launch, launchBy, if_neg (by simpa using brought), initialized] at launched
    cases launched
  · have shaped := Cluster.shaped_of_initAll builtIn initialized
    rw [launch, launchBy_eq serial brought initialized] at launched
    obtain ⟨es, rfl, indexes, starts⟩ := startNodes_ok launched
    have nodes := map_fst_manned shaped
    rw [nodes, List.map_map] at indexes
    refine ⟨c, es, rfl, shaped, rfl, indexes.trans (List.map_id kept), ?_⟩
    rintro ⟨i, e⟩ here
    obtain ⟨⟨n, machine⟩, manned, at_n, s, start⟩ := starts (i, e) here
    have named : n ∈ kept.map (Node.among settings kept) :=
      nodes ▸ List.mem_map_of_mem (f := Prod.fst) manned
    obtain ⟨j, hj, rfl⟩ := List.mem_map.mp named
    obtain rfl : i = j := at_n
    exact ⟨hj, machine, s, (mem_manned.mp manned).2, start⟩

/-- All engines of a cluster that was launched have one membership: the nodes that every knob
let start. Each knows where the others are reached, and reaches nobody else there. -/
theorem members_agree {serial : Nat} {machines : List μ} {knobs : List Knob}
    (builtIn : ∀ k ∈ knobs, k.BuiltIn)
    (launched : launch serial machines knobs = (.ok (), l)) :
    let kept := Knob.kept machines.length knobs
    kept.Pairwise (· < ·) ∧ l.cluster.indexes = kept ∧ l.engines.map Prod.fst = kept ∧
      l.fabric.Wired ∧ ∀ x ∈ l.engines, l.Acquainted kept x.1 x.2 := by
  intro kept
  have ascending : kept.Pairwise (· < ·) := Knob.kept_ascending _ _
  obtain ⟨c, es, -, shaped, rfl, indexes, starts⟩ := launch_ok builtIn launched
  obtain ⟨t, pruned, complete⟩ := shaped.pruned
  refine ⟨ascending, pruned.indexes, indexes, pruned.represents.wired, fun x here => ?_⟩
  obtain ⟨left, machine, s, -, start⟩ := starts x here
  exact acquainted_of_start (l := { cluster := c, knobs, machines, serial, engines := es }) pruned
    complete ascending left start

/-- Four nodes of which two were started, over a fabric that loses one message in four. -/
theorem members_agree_of_four :
    let machines : List Recorder := List.replicate 4 {}
    let knobs : List Knob := [.servers [0, 2, 3], .dropRate 0.25,
      .settings fun i s => (.ok (), { s with trailing := i }), .servers [3, 2, 1, 2]]
    (∀ k ∈ knobs, k.BuiltIn) ∧ ∃ l, launch 0 machines knobs = (.ok (), l) ∧
      l.engines.map Prod.fst = [2, 3] ∧
      (∀ x ∈ l.engines, x.2.driver.shelf.stable.membership = { voters := [3, 4] }) ∧
      ∀ e, (2, e) ∈ l.engines → e.driver.addresses.lookup 4 = l.fabric.address? 3 := by
  intro machines knobs
  have builtIn : ∀ k ∈ knobs, k.BuiltIn := by simp [knobs, Knob.BuiltIn]
  let settings (i : Nat) : Settings := { Settings.scaledDown with trailing := i }
  have initialized : (Knob.initAll knobs (Cluster.new machines.length)).1 = .ok () := by
    decide +kernel
  have nodes : (Knob.initAll knobs (Cluster.new machines.length)).2.nodes =
      [2, 3].map (Node.among settings [2, 3]) := by decide +kernel
  have started : ∀ i ∈ [2, 3], ((Engine.start (i + 1) (settings i) ({} : Recorder) {}
      (Directory.among [2, 3] i) clockStart).1.toOption.bind Except.toOption).isSome := by
    intro i hi
    have fits : Engine.misfit? (i + 1) (Directory.among [2, 3] i) = none := by
      revert i
      decide +kernel
    rw [← Engine.start_recorded fits, Engine.recordMembers_among (by decide) hi]
    revert i
    decide +kernel
  have done : (launch 0 machines knobs).1 = .ok () := by
    rcases run : Knob.initAll knobs (Cluster.new machines.length) with ⟨result, c⟩
    rw [run] at initialized nodes
    cases initialized
    rw [launch, launchBy, if_neg (by decide), run]
    apply startNodes_done
    intro x hx
    obtain ⟨n, hn, brought⟩ := List.mem_filterMap.mp hx
    rw [nodes] at hn
    obtain ⟨i, hi, rfl⟩ := List.mem_map.mp hn
    obtain ⟨machine, here, rfl⟩ := Option.map_eq_some_iff.mp brought
    obtain rfl : machine = {} := List.eq_of_mem_replicate (List.mem_of_getElem? here)
    exact started i hi
  rcases launched : launch 0 machines knobs with ⟨result, l⟩
  rw [launched] at done
  cases done
  have kept : Knob.kept machines.length knobs = [2, 3] := by decide +kernel
  obtain ⟨-, -, engines, -, acquainted⟩ := members_agree builtIn launched
  rw [kept] at engines acquainted
  refine ⟨builtIn, l, rfl, engines, fun x hx => (acquainted x hx).membership, ?_⟩
  intro e here
  obtain ⟨a, known, there, -⟩ :=
    (acquainted (2, e) here).addressed 3 (by decide) (show 3 ≠ 2 by decide)
  rw [known, there]

end Live

end QuorumLab
