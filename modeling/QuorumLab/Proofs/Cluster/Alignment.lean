import QuorumLab.Cluster.Control
import QuorumLab.Proofs.Cluster.Founders
import QuorumLab.Proofs.Cluster.Moves

/-!
# Lookups agree

While the nodes of a cluster are started, a slot is written down for every node, a handle for each
that was started, and with its index the watcher of its machine. Nodes that were discarded have a
slot only, so the same engine stands at different places of these lists. It is looked up by the
index of its node, by position and by identity, and all of them find the same.
-/

namespace QuorumLab

/-! ## Lists -/

/-- What is written down while nodes are started one after the other. -/
structure Roll where
  /-- One for every node, empty for those that were discarded. -/
  slots : List (Option Handle) := []
  started : List Handle := []
  /-- For each of `started`, the index of its node and the place of the machine it drives. -/
  watched : List (Nat × Nat) := []

/-- What the control of a cluster looks engines up in. -/
structure Register where
  rafts : List (Nat × Handle)
  /-- For each of `rafts`, the place of the machine it drives. -/
  watched : List Nat

namespace Roll

def skip (r : Roll) : Roll := { r with slots := r.slots ++ [none] }

def enter (r : Roll) (i : Nat) (h : Handle) : Roll where
  slots := r.slots ++ [some h]
  started := r.started ++ [h]
  watched := r.watched ++ [(i, i)]

/-- The engines in their slots, in order. -/
def iter (r : Roll) : List Handle := r.slots.filterMap id

/-- Start the nodes from the `i`-th on, each with the next machine. -/
def build {μ : Type} [Machine μ] (c : Cluster) :
    (i : Nat) → List μ → Live μ → Roll → Except Fault (Live μ × Roll)
  | _, [], l, r => .ok (l, r)
  | i, machine :: rest, l, r =>
    match c.node i with
    | .error _ => build c (i + 1) rest l r.skip
    | .ok n =>
      match (Engine.start n.id n.settings machine n.shelf n.peers l.clock).1 with
      | .ok (.ok e) =>
        build c (i + 1) rest { l with engines := l.engines ++ [(i, e)] }
          (r.enter i { serial := l.serial, id := e.id })
      | .ok (.error failure) => .error (.startFailed i failure)
      | .error fault => .error fault

/-- The control gets the indexes from the watchers, and the handles in the order of the start. -/
def register (r : Roll) : Register where
  rafts := (r.watched.map Prod.fst).zip r.started
  watched := r.watched.map Prod.snd

end Roll

namespace Register

variable (k : Register)

def raft (i : Nat) : Except Fault Handle :=
  ((k.rafts.find? (·.1 = i)).map Prod.snd).elim (.error (.notRunning i)) .ok

/-- The index of an engine, and its position among those that were started. -/
def position (h : Handle) : Except Fault (Nat × Nat) :=
  ((k.rafts.zipIdx.find? (·.1.2 = h)).map fun x => (x.1.1, x.2)).elim
    (.error (.foreignEngine h.id)) .ok

def indexOf (h : Handle) : Except Fault Nat := (k.position h).map Prod.fst

/-- The place of the machine that an engine drives. -/
def machineOf (h : Handle) : Except Fault Nat := do
  let (_, p) ← k.position h
  (k.watched[p]?).elim (.error (.outOfBounds k.watched.length p)) .ok

def other (exclude : List Handle) : Except Fault Handle :=
  ((k.rafts.find? (!exclude.contains ·.2)).map Prod.snd).elim (.error (.noOther k.rafts.length)) .ok

end Register

/-! ## One node after the other -/

section Build

variable {μ : Type} [Machine μ] {c : Cluster} {machines : List μ} {l l' : Live μ} {r r' : Roll}
variable {i : Nat}

/-- The nodes from the `i`-th on that are left, with their machines. -/
def Live.mannedFrom (c : Cluster) (i : Nat) (machines : List μ) : List (Node × μ) :=
  (machines.zipIdx i).filterMap fun x => (c.node x.2).toOption.map (·, x.1)

/-- Writing down changes nothing about the start. -/
theorem Roll.build_eq (numbered : ∀ i n, c.node i = .ok n → n.index = i) :
    (Roll.build c i machines l r).map Prod.fst =
      let started := Live.startNodes Replica.start (Live.mannedFrom c i machines) l
      started.1.map fun _ => started.2 := by
  induction machines generalizing i l r with
  | nil => rfl
  | cons machine rest ih =>
    rw [Roll.build]
    cases found : c.node i with
    | error fault =>
      have same : Live.mannedFrom c i (machine :: rest) = Live.mannedFrom c (i + 1) rest := by
        simp [Live.mannedFrom, found, Except.toOption]
      rw [same]
      exact ih
    | ok n =>
      have same : Live.mannedFrom c i (machine :: rest) =
          (n, machine) :: Live.mannedFrom c (i + 1) rest := by
        simp [Live.mannedFrom, found, Except.toOption]
      rw [same, Live.startNodes, numbered i n found]
      simp only [Engine.start]
      rcases Engine.startBy Replica.start n.id n.settings machine n.shelf n.peers l.clock
        with ⟨f | f | e, s⟩
      · rfl
      · rfl
      · exact ih

/-- What was written down when the nodes below `k` were gone through. -/
structure Roll.Aligned (k : Nat) (l : Live μ) (r : Roll) : Prop where
  slots : r.slots = (List.range k).map fun i => (l.engine? i).map fun _ => l.handle i
  started : r.started = l.running
  watched : r.watched = l.engines.map fun x => (x.1, x.1)
  below : ∀ i ∈ l.engines.map Prod.fst, i < k

namespace Roll.Aligned

variable {k : Nat}

omit [Machine μ] in
theorem skip (h : Aligned k l r) : Aligned (k + 1) l r.skip where
  slots := by
    have none_there : l.engine? k = none := by
      cases here : l.engine? k with
      | none => rfl
      | some e => exact absurd (h.below k (Live.index_mem_of_engine? here)) (Nat.lt_irrefl k)
    simp [Roll.skip, h.slots, List.range_succ, none_there]
  started := h.started
  watched := h.watched
  below i hi := Nat.lt_succ_of_lt (h.below i hi)

omit [Machine μ] in
theorem enter (h : Aligned k l r) {e : Engine Replica μ} (id : e.id = k + 1) :
    Aligned (k + 1) { l with engines := l.engines ++ [(k, e)] }
      (r.enter k { serial := l.serial, id := e.id }) where
  slots := by
    have new : k ∉ l.engines.map Prod.fst := fun old => Nat.lt_irrefl k (h.below k old)
    have found := Live.engine?_add new e
    have before : (List.range k).map (fun i => (l.engine? i).map fun _ => l.handle i) =
        (List.range k).map fun i =>
          (({ l with engines := l.engines ++ [(k, e)] } : Live μ).engine? i).map fun _ =>
            l.handle i := by
      apply List.map_congr_left
      intro i hi
      rw [found, if_neg (Nat.ne_of_lt (List.mem_range.mp hi))]
    rw [List.range_succ, List.map_append, List.map_singleton, found, if_pos rfl, id]
    exact congrArg (· ++ [some (l.handle k)]) (h.slots.trans before)
  started := by
    simp only [Roll.enter, h.started, Live.running, List.map_append, List.map_singleton, id]
    rfl
  watched := by simp [Roll.enter, h.watched]
  below i hi := by
    rw [List.map_append, List.mem_append, List.map_singleton, List.mem_singleton] at hi
    rcases hi with old | rfl
    · exact Nat.lt_succ_of_lt (h.below i old)
    · exact Nat.lt_succ_self i

theorem build (numbered : ∀ i n, c.node i = .ok n → n.index = i) (h : Aligned k l r)
    (built : Roll.build c k machines l r = .ok (l', r')) :
    Aligned (k + machines.length) l' r' := by
  induction machines generalizing k l r with
  | nil =>
    cases built
    exact h
  | cons machine rest ih =>
    rw [List.length_cons, Nat.add_comm rest.length, ← Nat.add_assoc]
    rw [Roll.build] at built
    cases found : c.node k with
    | error fault =>
      rw [found] at built
      exact ih h.skip built
    | ok n =>
      rw [found] at built
      rcases begins : Engine.start n.id n.settings machine n.shelf n.peers l.clock with
        ⟨f | f | e, s⟩
      all_goals simp only [begins] at built
      · cases built
      · cases built
      · obtain ⟨-, core, -, rfl⟩ := Engine.start_ok begins
        exact ih (h.enter (congrArg (· + 1) (numbered k n found))) built

end Roll.Aligned

variable {knobs : List Knob} {rate : Float}

/-- A node that the knobs keep is found, and no other. -/
theorem Cluster.Shaped.node_eq {settings : Nat → Settings} {kept : List Nat} {n : Nat}
    (shaped : c.Shaped n settings kept rate) (i : Nat) : c.node i =
      if i ∈ kept then .ok (Node.among settings kept i) else .error (.notInCluster i) := by
  obtain ⟨t, pruned, -⟩ := shaped.pruned
  split_ifs with left
  · exact pruned.node left
  · have unknown : c.nodes.find? (·.index = i) = none := by
      rw [List.find?_eq_none, pruned.nodes]
      simp only [List.forall_mem_map, Node.among, decide_eq_true_eq]
      exact fun j hj same => left (same ▸ hj)
    rw [Cluster.node, unknown]

omit [Machine μ] in
/-- Going through all places and skipping some is going through the others. -/
theorem mannedFrom_zero
    (shaped : c.Shaped machines.length (Knob.settingsOf knobs) (Knob.kept machines.length knobs) rate) :
    Live.mannedFrom c 0 machines = Live.manned c machines := by
  obtain ⟨t, pruned, -⟩ := shaped.pruned
  let kept := Knob.kept machines.length knobs
  let keeps (i : Nat) : Bool := decide (∀ k ∈ knobs, k.Keeps i)
  let node := Node.among (Knob.settingsOf knobs) kept
  have whole : (machines.zipIdx.map Prod.snd).filter keeps = kept := by
    rw [List.zipIdx_map_snd, ← List.range_eq_range']
    rfl
  have brought : ∀ x ∈ machines.zipIdx, machines[x.2]? = some x.1 := fun x hx =>
    List.mk_mem_zipIdx_iff_getElem?.mp hx
  calc Live.mannedFrom c 0 machines
      = machines.zipIdx.filterMap fun x => if keeps x.2 then some (node x.2, x.1) else none := by
        apply List.filterMap_congr
        intro x hx
        have inside : x.2 < machines.length := (List.getElem?_eq_some_iff.mp (brought x hx)).1
        have listed : x.2 ∈ kept ↔ keeps x.2 = true := by
          simp [kept, keeps, Knob.kept, inside]
        rw [shaped.node_eq, ← if_congr listed rfl rfl]
        split_ifs <;> rfl
    _ = ((machines.zipIdx.map Prod.snd).filter keeps).filterMap fun i =>
          (machines[i]?).map (node i, ·) := by
        rw [List.filter_map, List.filterMap_map, List.filterMap_filter]
        apply List.filterMap_congr
        intro x hx
        simp only [Function.comp_apply, brought x hx, Option.map_some]
    _ = Live.manned c machines := by
        rw [whole, Live.manned, pruned.nodes, List.filterMap_map]
        rfl

end Build

/-! ## Lookups -/

/-- The first of a list that has what only one of them has. -/
theorem find?_of_unique {α : Type} {xs : List α} {p : α → Bool} {x : α} (listed : x ∈ xs)
    (has : p x = true) (only : ∀ y ∈ xs, p y = true → y = x) : xs.find? p = some x := by
  cases found : xs.find? p with
  | none => exact absurd has (List.find?_eq_none.mp found x listed)
  | some y => rw [only y (List.mem_of_find?_eq_some found) (List.find?_some found)]

/-- Handles of one cluster. -/
def Handle.of (serial i : Nat) : Handle := { serial, id := i + 1 }

theorem Handle.of_inj {serial i j : Nat} : Handle.of serial i = Handle.of serial j ↔ i = j := by
  simp [Handle.of]

/-- The lists of a cluster in which the nodes `kept` were started. -/
def Register.of (serial : Nat) (kept : List Nat) : Register where
  rafts := kept.map fun i => (i, .of serial i)
  watched := kept

namespace Register

variable {serial : Nat} {kept : List Nat} {i : Nat}

theorem raft_of (serial : Nat) (kept : List Nat) (i : Nat) : (of serial kept).raft i =
    if i ∈ kept then .ok (.of serial i) else .error (.notRunning i) := by
  rw [raft, of, List.find?_map]
  split_ifs with listed
  · rw [find?_of_unique listed (by simp) (by simp)]
    rfl
  · have none_there : kept.find? ((fun x : Nat × Handle => decide (x.1 = i)) ∘
        fun i => (i, Handle.of serial i)) = none := by
      rw [List.find?_eq_none]
      intro j hj same
      exact listed (of_decide_eq_true same ▸ hj)
    rw [none_there]
    rfl

/-- By identity a position is found, at which the index and the machine are those of the node. -/
theorem position_of (serial : Nat) (listed : i ∈ kept) : ∃ p, kept[p]? = some i ∧
    (of serial kept).position (.of serial i) = .ok (i, p) := by
  obtain ⟨q, there⟩ := List.mem_iff_getElem?.mp listed
  let rafts := (of serial kept).rafts
  have stands (p j : Nat) (h : Handle) : ((j, h), p) ∈ rafts.zipIdx ↔
      kept[p]? = some j ∧ h = .of serial j := by
    rw [List.mk_mem_zipIdx_iff_getElem?]
    simp only [rafts, of, List.getElem?_map, Option.map_eq_some_iff, Prod.mk.injEq]
    constructor
    · rintro ⟨j, here, rfl, rfl⟩
      exact ⟨here, rfl⟩
    · rintro ⟨here, rfl⟩
      exact ⟨j, here, rfl, rfl⟩
  cases found : rafts.zipIdx.find? (·.1.2 = .of serial i) with
  | none =>
    have missing := List.find?_eq_none.mp found _ ((stands q i _).mpr ⟨there, rfl⟩)
    simp at missing
  | some x =>
    obtain ⟨⟨j, h⟩, p⟩ := x
    obtain ⟨here, rfl⟩ := (stands p j h).mp (List.mem_of_find?_eq_some found)
    have same := List.find?_some found
    obtain rfl : j = i := Handle.of_inj.mp (of_decide_eq_true same)
    refine ⟨p, here, ?_⟩
    rw [position, found]
    rfl

theorem indexOf_of (listed : i ∈ kept) :
    (of serial kept).indexOf (.of serial i) = .ok i := by
  obtain ⟨p, -, found⟩ := position_of serial listed
  rw [indexOf, found]
  rfl

theorem machineOf_of (listed : i ∈ kept) :
    (of serial kept).machineOf (.of serial i) = .ok i := by
  obtain ⟨p, there, found⟩ := position_of serial listed
  rw [machineOf, found]
  have watched : (of serial kept).watched[p]? = some i := there
  simp only [bind, Except.bind, watched, Option.elim]

theorem position_foreign {h : Handle} (foreign : h ∉ kept.map (Handle.of serial)) :
    (of serial kept).position h = .error (.foreignEngine h.id) := by
  have nobody : (of serial kept).rafts.zipIdx.find? (·.1.2 = h) = none := by
    rw [List.find?_eq_none]
    rintro ⟨⟨j, h'⟩, p⟩ hx same
    have there := List.mem_of_getElem? (List.mk_mem_zipIdx_iff_getElem?.mp hx)
    obtain ⟨i, hi, own⟩ := List.mem_map.mp there
    cases own
    exact foreign (of_decide_eq_true same ▸ List.mem_map_of_mem hi)
  rw [position, nobody]
  rfl

theorem other_of (serial : Nat) (kept : List Nat) (exclude : List Handle) :
    (of serial kept).other exclude =
      ((kept.find? fun i => !exclude.contains (.of serial i)).map (Handle.of serial)).elim
        (.error (.noOther kept.length)) .ok := by
  have all : (of serial kept).rafts.length = kept.length := List.length_map _
  rw [other, all, of, List.find?_map, Option.map_map]
  rfl

end Register

namespace Live

variable {μ : Type} {l : Live μ} {kept : List Nat} {i : Nat}

theorem running_eq (indexes : l.engines.map Prod.fst = kept) :
    l.running = kept.map (Handle.of l.serial) := by
  rw [← indexes, running, List.map_map]
  rfl

theorem slots_eq (indexes : l.engines.map Prod.fst = kept) :
    l.slots = (List.range l.machines.length).map fun i =>
      if i ∈ kept then some (Handle.of l.serial i) else none := by
  apply List.map_congr_left
  intro i _
  split_ifs with listed
  · obtain ⟨e, here⟩ := exists_engine_iff.mpr (indexes ▸ listed)
    rw [here]
    rfl
  · cases here : l.engine? i with
    | none => rfl
    | some e => exact absurd (indexes ▸ index_mem_of_engine? here) listed

theorem slot_eq (indexes : l.engines.map Prod.fst = kept)
    (inside : ∀ i ∈ kept, i < l.machines.length) (i : Nat) :
    l.slot i = if i ∈ kept then .ok (Handle.of l.serial i) else .error (.notRunning i) := by
  have there : l.slot? i = if i ∈ kept then some (Handle.of l.serial i) else none := by
    rw [slot?, slots_eq indexes, List.getElem?_map]
    by_cases small : i < l.machines.length
    · rw [List.getElem?_range small]
      rfl
    · rw [List.getElem?_eq_none (by simpa using small), if_neg fun listed => small (inside i listed)]
      rfl
  rw [slot, there]
  split_ifs <;> rfl

theorem engine_eq (indexes : l.engines.map Prod.fst = kept) (outside : i ∉ kept) :
    l.engine i = .error (.notRunning i) := by
  cases here : l.engine? i with
  | none => rw [engine, here]
  | some e => exact absurd (indexes ▸ index_mem_of_engine? here) outside

theorem indexOf_eq (indexes : l.engines.map Prod.fst = kept) (h : Handle) :
    l.indexOf h = (kept.find? fun i => Handle.of l.serial i = h).elim
      (.error (.foreignEngine h.id)) .ok := by
  rw [← indexes, List.find?_map, indexOf]
  have same : ((fun i => decide (Handle.of l.serial i = h)) ∘ Prod.fst) =
    fun x : Nat × Engine Replica μ => decide (l.handle x.1 = h) := rfl
  rw [same]
  cases l.engines.find? fun x => decide (l.handle x.1 = h) <;> rfl

theorem other_eq (indexes : l.engines.map Prod.fst = kept) (exclude : List Handle) :
    l.other exclude = (kept.find? fun i => !exclude.contains (.of l.serial i)).elim
      (.error (.noOther kept.length)) .ok := by
  rw [← indexes, List.find?_map, other, List.length_map]
  have same : ((fun i => !exclude.contains (Handle.of l.serial i)) ∘ Prod.fst) =
    fun x : Nat × Engine Replica μ => !exclude.contains (l.handle x.1) := rfl
  rw [same]
  cases l.engines.find? fun x => !exclude.contains (l.handle x.1) <;> rfl

/-- The lowest node that is not excluded is found, if there is one. -/
theorem other_spec (indexes : l.engines.map Prod.fst = kept) (ascending : kept.Pairwise (· < ·))
    (exclude : List Handle) :
    (∀ i, l.other exclude = .ok i ↔ i ∈ kept ∧ Handle.of l.serial i ∉ exclude ∧
      ∀ j ∈ kept, j < i → Handle.of l.serial j ∈ exclude) ∧
    (l.other exclude = .error (.noOther kept.length) ↔
      ∀ i ∈ kept, Handle.of l.serial i ∈ exclude) := by
  rw [other_eq indexes]
  cases found : kept.find? fun i => !exclude.contains (Handle.of l.serial i) with
  | none =>
    have excluded : ∀ i ∈ kept, Handle.of l.serial i ∈ exclude := by
      simpa using List.find?_eq_none.mp found
    simp only [Option.elim, reduceCtorEq, false_iff, true_iff]
    exact ⟨fun i ⟨hi, new, _⟩ => new (excluded i hi), excluded⟩
  | some k =>
    obtain ⟨new, before, behind, split, excluded⟩ := List.find?_eq_some_iff_append.mp found
    have lower := Knob.filter_lt_of_split ascending split
    have listed : k ∈ kept := by simp [split]
    have new : Handle.of l.serial k ∉ exclude := by simpa using new
    have excluded : ∀ j ∈ kept, j < k → Handle.of l.serial j ∈ exclude := by
      intro j hj less
      have first : j ∈ before := lower ▸ List.mem_filter.mpr ⟨hj, decide_eq_true less⟩
      simpa using excluded j first
    simp only [Option.elim, Except.ok.injEq, reduceCtorEq, false_iff]
    refine ⟨fun i => ⟨?_, ?_⟩, fun all => new (all k listed)⟩
    · rintro rfl
      exact ⟨listed, new, excluded⟩
    · rintro ⟨hi, other, least⟩
      rcases Nat.lt_trichotomy k i with less | same | more
      · exact absurd (least k listed less) new
      · exact same
      · exact absurd (excluded i hi more) other

end Live

namespace Roll

variable {μ ω : Type} [Machine μ] {serial : Nat} {machines : List μ} {knobs : List Knob} {l : Live μ}

/-- What is written down while a cluster is started: its slots, and in the register the nodes that
the knobs let start. -/
theorem build_ok (builtIn : ∀ k ∈ knobs, k.BuiltIn)
    (launched : Live.launch serial machines knobs = (.ok (), l)) :
    ∃ c r, Knob.initAll knobs (Cluster.new machines.length) = (.ok (), c) ∧
      build c 0 machines { cluster := c, knobs, machines, serial } {} = .ok (l, r) ∧
      r.slots = l.slots ∧ r.register = .of serial (Knob.kept machines.length knobs) := by
  obtain ⟨c, es, initialized, shaped, rfl, indexes, -⟩ := Live.launch_ok builtIn launched
  let l₀ : Live μ := { cluster := c, knobs, machines, serial }
  let l : Live μ := { l₀ with engines := es }
  have brought : machines ≠ [] := by
    rintro rfl
    cases launched
  have numbered : ∀ i n, c.node i = .ok n → n.index = i := by
    intro i n found
    rw [shaped.node_eq] at found
    split_ifs at found
    cases found
    rfl
  obtain ⟨r, built⟩ : ∃ r, build c 0 machines l₀ {} = .ok (l, r) := by
    have same : (build c 0 machines l₀ {}).map Prod.fst = _ := build_eq numbered
    rw [mannedFrom_zero shaped, ← Live.launchBy_eq serial brought initialized, ← Live.launch,
      launched] at same
    cases built : build c 0 machines l₀ {} with
    | error fault =>
      rw [built] at same
      cases same
    | ok x =>
      obtain ⟨l₁, r⟩ := x
      rw [built] at same
      cases same
      exact ⟨r, rfl⟩
  have aligned : Aligned (0 + machines.length) l r :=
    Aligned.build numbered ⟨rfl, rfl, rfl, List.forall_mem_nil _⟩ built
  rw [Nat.zero_add] at aligned
  refine ⟨c, r, initialized, built, aligned.slots, ?_⟩
  have indexes : l.engines.map Prod.fst = Knob.kept machines.length knobs := indexes
  rw [register, aligned.started, aligned.watched, Live.running, List.map_map, List.map_map,
    List.zip_map', Register.of, ← indexes, List.map_map]
  rfl

/-- The engine of a node that was started drives the machine that was brought for it. -/
theorem engine_of_launch (builtIn : ∀ k ∈ knobs, k.BuiltIn)
    (launched : Live.launch serial machines knobs = (.ok (), l)) {i : Nat}
    (left : i ∈ Knob.kept machines.length knobs) :
    ∃ e, l.engine? i = some e ∧ e.id = i + 1 ∧ machines[i]? = some e.driver.machine.machine := by
  obtain ⟨c, es, -, -, rfl, indexes, starts⟩ := Live.launch_ok builtIn launched
  let l : Live μ := { cluster := c, knobs, machines, serial, engines := es }
  obtain ⟨e, here⟩ := Live.exists_engine_iff (l := l).mpr (indexes ▸ left)
  obtain ⟨-, machine, s, brought, start⟩ := starts (i, e) (Live.mem_of_engine? here)
  obtain ⟨-, core, -, made⟩ := Engine.start_ok start
  have made : e = Engine.boot (i + 1) _ core machine s _ clockStart := made
  refine ⟨e, here, ?_, ?_⟩
  · rw [made]
    rfl
  · rw [made]
    exact brought

/-- Whatever has happened to a cluster since it was started, its slots are those that were written
down: one per machine, filled where the knobs let a node start, and gone through in ascending
order. The engine of such a node is found in its slot, by its index and by its identity; its id is
one more than the index, and the counters found for it are those around the machine that was
brought for the node. For any other node there is none, and a handle of another cluster is told
from all of these. When some are excluded the lowest other one is found, unless all are. -/
theorem lookups_aligned [Carrier ω] (builtIn : ∀ k ∈ knobs, k.BuiltIn)
    (launched : Live.launch serial machines knobs = (.ok (), l)) (ms : List (Live.Move ω)) :
    let kept := Knob.kept machines.length knobs
    let handle := Handle.of serial
    let l' := l.moves ms
    ∃ c r, Knob.initAll knobs (Cluster.new machines.length) = (.ok (), c) ∧
      build c 0 machines { cluster := c, knobs, machines, serial } {} = .ok (l, r) ∧
      kept.Pairwise (· < ·) ∧
      r.slots = ((List.range machines.length).map fun i =>
        if i ∈ kept then some (handle i) else none) ∧
      r.iter = kept.map handle ∧ l'.slots = r.slots ∧ l'.running = r.iter ∧
      (∀ i ∈ kept,
        l'.slot i = .ok (handle i) ∧ r.register.raft i = .ok (handle i) ∧
        l'.indexOf (handle i) = .ok i ∧ r.register.indexOf (handle i) = .ok i ∧
        r.register.machineOf (handle i) = .ok i ∧
        ∃ e e', l.engine i = .ok e ∧ machines[i]? = some e.driver.machine.machine ∧
          l'.engine i = .ok e' ∧ e'.id = i + 1 ∧
          l'.counters (handle i) = .ok e'.driver.machine.counters) ∧
      (∀ i, i ∉ kept → l'.slot i = .error (.notRunning i) ∧
        r.register.raft i = .error (.notRunning i) ∧ l'.engine i = .error (.notRunning i)) ∧
      (∀ h, h ∉ kept.map handle → l'.indexOf h = .error (.foreignEngine h.id) ∧
        r.register.position h = .error (.foreignEngine h.id)) ∧
      ∀ exclude, r.register.other exclude = (l'.other exclude).map handle ∧
        (∀ i, l'.other exclude = .ok i ↔
          i ∈ kept ∧ handle i ∉ exclude ∧ ∀ j ∈ kept, j < i → handle j ∈ exclude) ∧
        (l'.other exclude = .error (.noOther kept.length) ↔ ∀ i ∈ kept, handle i ∈ exclude) := by
  intro kept handle l'
  obtain ⟨c, r, initialized, built, slots, register⟩ := build_ok builtIn launched
  have ascending : kept.Pairwise (· < ·) := Knob.kept_ascending _ _
  have inside : ∀ i ∈ kept, i < machines.length := fun i hi =>
    List.mem_range.mp (List.mem_filter.mp hi).1
  obtain ⟨c', es, -, -, rfl, indexes, starts⟩ := Live.launch_ok builtIn launched
  let l : Live μ := { cluster := c', knobs, machines, serial, engines := es }
  have indexes' : l'.engines.map Prod.fst = kept := (l.indexes_moves ms).trans indexes
  obtain ⟨-, brought, owner⟩ : _ ∧ l'.machines = machines ∧ l'.serial = serial := l.rest_moves ms
  have slots' := Live.slots_eq indexes'
  rw [brought, owner] at slots'
  have slots : r.slots = _ := slots.trans (Live.slots_eq indexes)
  have iter : r.iter = kept.map handle := by
    have whole : (List.range machines.length).filter (· ∈ kept) = kept := by
      apply List.filter_congr
      intro i hi
      simpa [kept, Knob.kept] using fun _ => List.mem_range.mp hi
    calc r.iter
        = (List.range machines.length).filterMap fun i =>
            if i ∈ kept then some (handle i) else none := by
          rw [Roll.iter, slots, List.filterMap_map]
          rfl
      _ = ((List.range machines.length).filter (· ∈ kept)).map handle := by
          rw [← List.filterMap_eq_map, List.filterMap_filter]
          simp
      _ = kept.map handle := by rw [whole]
  refine ⟨c, r, initialized, built, ascending, slots, iter, slots'.trans slots.symm, ?_, ?_, ?_, ?_, ?_⟩
  · rw [iter, Live.running_eq indexes', owner]
  · intro i hi
    have there := Live.slot_eq indexes' (brought ▸ inside) i
    rw [owner, if_pos hi] at there
    have named : l'.indexOf (handle i) = .ok i := by
      rw [Live.indexOf_eq indexes', owner,
        find?_of_unique hi (by simp [handle]) (by simp [handle, Handle.of_inj])]
      rfl
    rw [register]
    refine ⟨there, by rw [Register.raft_of, if_pos hi], named, Register.indexOf_of hi,
      Register.machineOf_of hi, ?_⟩
    obtain ⟨e, here, id, drives⟩ := engine_of_launch builtIn launched hi
    obtain ⟨e', here'⟩ := Live.exists_engine_iff (l := l').mpr (indexes' ▸ hi)
    have id' : e'.id = i + 1 :=
      Live.engine?_moves_keeps (P := fun e => e.id = i + 1)
        (fun w v same => (Engine.id_after _ w v).trans same)
        (fun e₁ there => by cases here.symm.trans there; exact id) ms e' here'
    have found : l'.engine i = .ok e' := by rw [Live.engine, here']
    refine ⟨e, e', by rw [Live.engine, here], drives, found, id', ?_⟩
    rw [Live.counters, named]
    simp only [bind, Except.bind, found]
    rfl
  · intro i outside
    have there := Live.slot_eq indexes' (brought ▸ inside) i
    rw [if_neg outside] at there
    exact ⟨there, by rw [register, Register.raft_of, if_neg outside],
      Live.engine_eq indexes' outside⟩
  · intro h foreign
    refine ⟨?_, by rw [register, Register.position_foreign foreign]⟩
    have nobody : (kept.find? fun i => decide (Handle.of l'.serial i = h)) = none := by
      rw [List.find?_eq_none, owner]
      intro i hi same
      exact foreign (of_decide_eq_true same ▸ List.mem_map_of_mem hi)
    rw [Live.indexOf_eq indexes', nobody]
    rfl
  · intro exclude
    have spec := Live.other_spec indexes' ascending exclude
    rw [owner] at spec
    refine ⟨?_, spec⟩
    rw [register, Register.other_of, Live.other_eq indexes', owner]
    cases kept.find? fun i => !exclude.contains (Handle.of serial i) <;> rfl

/-- Four machines of which the first is not used. -/
theorem lookups_aligned_of_four :
    let machines : List Recorder := List.replicate 4 {}
    let knobs : List Knob := [.servers [3, 1, 2, 2]]
    let own := Handle.of 7
    (∀ k ∈ knobs, k.BuiltIn) ∧ ∃ l, Live.launch 7 machines knobs = (.ok (), l) ∧
      ∀ ms : List (Live.Move Station), let l' := l.moves ms
        l'.slots = [none, some (own 1), some (own 2), some (own 3)] ∧
        l'.slot 0 = .error (.notRunning 0) ∧ l'.indexOf (own 3) = .ok 3 ∧
        l'.indexOf (.of 8 3) = .error (.foreignEngine 4) ∧
        l'.other [own 2, .of 8 3, own 1, own 2] = .ok 3 ∧
        l'.other [own 2, own 1, own 3] = .error (.noOther 3) := by
  intro machines knobs own
  have builtIn : ∀ k ∈ knobs, k.BuiltIn := by simp [knobs, Knob.BuiltIn]
  obtain ⟨c, initialized⟩ : ∃ c, Knob.initAll knobs (Cluster.new 4) = (.ok (), c) :=
    (Cluster.Shaped.new 4).initAll_done (by simp [knobs, Knob.Fits])
  have brought : machines ≠ [] := List.cons_ne_nil _ _
  have done : (Live.launch 7 machines knobs).1 = .ok () := by
    rw [Live.launch, Live.launchBy_fst Replica.founds 7 brought builtIn initialized]
    decide +kernel
  rcases launched : Live.launch 7 machines knobs with ⟨result, l⟩
  rw [launched] at done
  cases done
  have kept : Knob.kept machines.length knobs = [1, 2, 3] := by decide +kernel
  refine ⟨builtIn, l, rfl, fun ms => ?_⟩
  obtain ⟨c, r, -, -, -, slots, -, same, -, started, discarded, foreign, other⟩ :=
    lookups_aligned builtIn launched ms
  rw [kept] at slots started discarded foreign other
  refine ⟨same.trans (slots.trans (by decide +kernel)), (discarded 0 (by decide)).1,
    (started 3 (by decide)).2.2.1, (foreign (.of 8 3) (by decide +kernel)).1, ?_, ?_⟩
  · exact ((other _).2.1 3).mpr (by decide +kernel)
  · exact (other _).2.2.mpr (by decide +kernel)

end Roll

end QuorumLab
