import Mathlib.Data.Finset.Sym
import QuorumLab.Proofs.Runs
import QuorumLab.Proofs.Network.Links

/-!
# Fabrics as graphs

A topology is an undirected graph on the endpoints with a set of those that were removed.
Whatever calls are made of a fabric, its registries are the edges of the topology that the
same calls make.
-/

namespace QuorumLab

namespace Fabric

/-- A call that changes who can reach whom. -/
inductive Call where
  | add (id : Nat) (address : String)
  | connectAll
  | disconnect (i j : Nat)
  | reconnect (i j : Nat)
  | isolate (i : Nat)
  | heal (i : Nat)
  | detach (i : Nat)
  deriving Repr, DecidableEq

namespace Call

/-- The endpoints that a call names. -/
def indexes : Call → List Nat
  | .add _ _ | .connectAll => []
  | .disconnect i j | .reconnect i j => [i, j]
  | .isolate i | .heal i | .detach i => [i]

/-- The endpoints that a call adds. -/
def newcomers : Call → List Endpoint
  | .add id address => [{ id, address }]
  | _ => []

theorem newcomers_blank {c : Call} {e : Endpoint} (new : e ∈ c.newcomers) :
    ∃ id address, e = { id, address } := by
  cases c with
  | add id address => exact ⟨id, address, List.mem_singleton.mp new⟩
  | _ => cases new

/-- Indexes are in range and new addresses are new. -/
def Valid (f : Fabric) (c : Call) : Prop :=
  (∀ i ∈ c.indexes, i < f.size) ∧
    ∀ e ∈ c.newcomers, e.address ∉ f.endpoints.map Endpoint.address

instance (f : Fabric) (c : Call) : Decidable (c.Valid f) :=
  inferInstanceAs (Decidable ((∀ i ∈ c.indexes, i < f.size) ∧
    ∀ e ∈ c.newcomers, e.address ∉ f.endpoints.map Endpoint.address))

end Call

def perform (f : Fabric) : Call → Except Fault Unit × Fabric
  | .add id address => (.ok (), f.add id address)
  | .connectAll => f.connectAll
  | .disconnect i j => f.disconnect i j
  | .reconnect i j => f.reconnect i j
  | .isolate i => f.isolate i
  | .heal i => f.heal i
  | .detach i => f.detach i

end Fabric

/-- Endpoints `0, …, size - 1`, the links between them, and those that were removed. -/
structure Topology where
  size : Nat := 0
  edges : Finset (Sym2 Nat) := ∅
  detached : Finset Nat := ∅
  deriving DecidableEq

namespace Topology

/-- The endpoints that were not removed. -/
def present (t : Topology) : Finset Nat := Finset.range t.size \ t.detached

def isolate (t : Topology) (i : Nat) : Topology := { t with edges := t.edges.filter (i ∉ ·) }

def after (t : Topology) : Fabric.Call → Topology
  | .add _ _ => { t with size := t.size + 1 }
  | .connectAll => { t with edges := t.edges ∪ t.present.sym2.filter (¬·.IsDiag) }
  | .disconnect i j => { t with edges := t.edges.erase s(i, j) }
  | .reconnect i j =>
    if i ∈ t.detached ∨ j ∈ t.detached then t
    else { t with edges := insert s(i, j) t.edges }
  | .isolate i => t.isolate i
  | .heal i =>
    if i ∈ t.detached then t
    else { t with edges := t.edges ∪ (t.present.erase i).image (s(i, ·)) }
  | .detach i => { t.isolate i with detached := insert i t.detached }

/-- Endpoints stay, and so does what was removed. -/
theorem after_grows (t : Topology) (c : Fabric.Call) :
    t.size ≤ (t.after c).size ∧ t.detached ⊆ (t.after c).detached := by
  cases c with
  | add id address => exact ⟨Nat.le_succ _, Finset.Subset.refl _⟩
  | reconnect i j | heal i =>
    rw [after]
    split <;> exact ⟨Nat.le_refl _, Finset.Subset.refl _⟩
  | connectAll | disconnect i j | isolate i => exact ⟨Nat.le_refl _, Finset.Subset.refl _⟩
  | detach i => exact ⟨Nat.le_refl _, Finset.subset_insert _ _⟩

@[simp] theorem mem_present {t : Topology} {i : Nat} :
    i ∈ t.present ↔ i < t.size ∧ i ∉ t.detached := by
  simp [present]

/-- No edge is at a removed endpoint. -/
def Apart (t : Topology) : Prop := ∀ i ∈ t.detached, ∀ e ∈ t.edges, i ∉ e

theorem Apart.after {t : Topology} (apart : t.Apart) (c : Fabric.Call) : (t.after c).Apart := by
  cases c with
  | add id address => exact apart
  | connectAll =>
    intro k out e edge touches
    rcases Finset.mem_union.mp edge with old | new
    · exact apart k out e old touches
    · have present := Finset.mem_sym2_iff.mp (Finset.mem_filter.mp new).1 k touches
      exact (mem_present.mp present).2 out
  | disconnect i j =>
    intro k out e edge
    exact apart k out e (Finset.mem_of_mem_erase edge)
  | reconnect i j =>
    rw [Topology.after]
    split
    · exact apart
    · rename_i kept
      intro k out e edge touches
      rcases Finset.mem_insert.mp edge with rfl | old
      · rcases Sym2.mem_iff.mp touches with rfl | rfl
        · exact kept (Or.inl out)
        · exact kept (Or.inr out)
      · exact apart k out e old touches
  | isolate i =>
    intro k out e edge
    exact apart k out e (Finset.mem_filter.mp edge).1
  | heal i =>
    rw [Topology.after]
    split
    · exact apart
    · rename_i kept
      intro k out e edge touches
      rcases Finset.mem_union.mp edge with old | new
      · exact apart k out e old touches
      · obtain ⟨j, hj, rfl⟩ := Finset.mem_image.mp new
        rcases Sym2.mem_iff.mp touches with rfl | rfl
        · exact kept out
        · exact (mem_present.mp (Finset.mem_of_mem_erase hj)).2 out
  | detach i =>
    intro k out e edge
    obtain ⟨old, missed⟩ := Finset.mem_filter.mp edge
    rcases Finset.mem_insert.mp out with rfl | before
    · exact missed
    · exact apart k before e old

end Topology

namespace Fabric

variable {f g : Fabric} {t : Topology} {i j : Nat} {c : Call}

/-- A fabric beside the topology that the same calls make. -/
def calls : System (Fabric × Topology) Call where
  admits s c := c.Valid s.1
  after s c := ((s.1.perform c).2, s.2.after c)

instance (s : Fabric × Topology) (c : Call) : Decidable (calls.admits s c) :=
  inferInstanceAs (Decidable (c.Valid s.1))

/-! ## What a call does under its locks -/

theorem withTopology_ok {change : Fabric → Except Fault Fabric}
    (sound : f.topologyPoisoned = false) (done : change f = .ok g) :
    f.withTopology change = (.ok (), g) := by
  simp [withTopology, sound, done]

theorem withBoth_ok {change : Fabric → Except Fault Fabric}
    (sound : f.topologyPoisoned = false) (detachedSound : f.detachedPoisoned = false)
    (done : change f = .ok g) : f.withBoth change = (.ok (), g) := by
  simp [withBoth, sound, detachedSound, done]

/-- The two loops of `connectAll` as one over all ordered pairs. -/
theorem rewires_connectAll (w : f.Wired) (sound : f.topologyPoisoned = false)
    (detachedSound : f.detachedPoisoned = false) :
    ∃ g, f.connectAll = (.ok (), g) ∧ Rewires f g fun p q =>
      f.Linked p q ∨ (p < f.size ∧ q < f.size ∧ p ≠ q) ∧ p ∉ f.detached ∧ q ∉ f.detached := by
  let pairs : List (Nat × Nat) := (List.range f.size).flatMap fun i =>
    ((List.range f.size).filter (· ≠ i)).map (i, ·)
  have mem_pairs : ∀ {p q}, (p, q) ∈ pairs ↔ p < f.size ∧ q < f.size ∧ p ≠ q := by
    intro p q
    simp only [pairs, List.mem_flatMap, List.mem_map, List.mem_filter, List.mem_range,
      decide_eq_true_eq, Prod.mk.injEq]
    constructor
    · rintro ⟨i, hi, j, ⟨hj, other⟩, rfl, rfl⟩
      exact ⟨hi, hj, Ne.symm other⟩
    · rintro ⟨hp, hq, other⟩
      exact ⟨p, hp, q, ⟨hq, Ne.symm other⟩, rfl, rfl⟩
  have joined := rewires_foldl_joinOneWay w pairs (by
    rintro ⟨p, q⟩ pair
    exact ⟨(mem_pairs.mp pair).1, (mem_pairs.mp pair).2.1⟩)
  replace joined := joined.congr fun p q => by rw [mem_pairs]
  simp only [pairs, List.foldl_flatMap, List.foldl_map] at joined
  exact ⟨_, withBoth_ok sound detachedSound rfl, joined⟩

theorem rewires_disconnect (w : f.Wired) (sound : f.topologyPoisoned = false) (hi : i < f.size)
    (hj : j < f.size) : ∃ g, f.disconnect i j = (.ok (), g) ∧
      Rewires f g fun p q => f.Linked p q ∧ s(p, q) ≠ s(i, j) := by
  obtain ⟨g, done, cut⟩ := rewires_unlink w hi hj
  refine ⟨g, withTopology_ok sound done, cut.congr fun p q => ?_⟩
  split <;> tauto

theorem rewires_reconnect (w : f.Wired) (sound : f.topologyPoisoned = false)
    (detachedSound : f.detachedPoisoned = false) (hi : i < f.size) (hj : j < f.size) :
    ∃ g, f.reconnect i j = (.ok (), g) ∧ Rewires f g fun p q =>
      f.Linked p q ∨ s(p, q) = s(i, j) ∧ i ∉ f.detached ∧ j ∉ f.detached := by
  by_cases out : i ∈ f.detached ∨ j ∈ f.detached
  · refine ⟨f, withBoth_ok sound detachedSound (by simp [out]), ?_⟩
    exact (Rewires.refl w).congr fun p q => by tauto
  · obtain ⟨g, done, joined⟩ := rewires_link w hi hj
    refine ⟨g, withBoth_ok sound detachedSound (by simp [out, done]), ?_⟩
    apply joined.congr
    intro p q
    split <;> tauto

/-- Every link with another endpoint is cut. -/
theorem rewires_isolate (w : f.Wired) (sound : f.topologyPoisoned = false) (hi : i < f.size) :
    ∃ g, f.isolate i = (.ok (), g) ∧
      Rewires f g fun p q => f.Linked p q ∧ (p ≠ q → p ≠ i ∧ q ≠ i) := by
  obtain ⟨g, done, cut⟩ :=
    rewires_withOthers (unlink i) False (fun _ => false) rewires_unlink w hi
  refine ⟨g, withTopology_ok sound done, cut.congr fun p q => ?_⟩
  split
  · rename_i pair
    obtain ⟨distinct, ends⟩ := pair
    refine iff_of_false id ?_
    rintro ⟨-, apart⟩
    obtain ⟨hp, hq⟩ := apart distinct
    rcases ends with ⟨here, -⟩ | ⟨here, -⟩
    · exact hp here
    · exact hq here
  · rename_i other
    constructor
    · intro link
      refine ⟨link, fun distinct => ⟨?_, ?_⟩⟩
      · exact fun here => other ⟨distinct, Or.inl ⟨here, link.right_lt, rfl⟩⟩
      · exact fun here => other ⟨distinct, Or.inr ⟨here, link.left_lt, rfl⟩⟩
    · exact And.left

/-- And every link is restored, but not to a detached endpoint. -/
theorem rewires_heal (w : f.Wired) (sound : f.topologyPoisoned = false)
    (detachedSound : f.detachedPoisoned = false) (hi : i < f.size) :
    ∃ g, f.heal i = (.ok (), g) ∧ Rewires f g fun p q => f.Linked p q ∨
      (p = i ∨ q = i) ∧ (p < f.size ∧ q < f.size ∧ p ≠ q) ∧ p ∉ f.detached ∧ q ∉ f.detached := by
  by_cases out : i ∈ f.detached
  · refine ⟨f, withBoth_ok sound detachedSound (by simp [out]), ?_⟩
    apply (Rewires.refl w).congr
    rintro p q
    constructor
    · exact Or.inl
    · rintro (old | ⟨rfl | rfl, -, kept, kept'⟩)
      · exact old
      · exact absurd out kept
      · exact absurd out kept'
  · obtain ⟨g, done, joined⟩ :=
      rewires_withOthers (link i) True f.detached.contains rewires_link w hi
    refine ⟨g, withBoth_ok sound detachedSound (by simp [out, done]), ?_⟩
    apply joined.congr
    intro p q
    simp only [List.contains_eq_mem, decide_eq_false_iff_not]
    split
    · rename_i pair
      refine iff_of_true trivial (Or.inr ?_)
      obtain ⟨distinct, ⟨rfl, inside, kept⟩ | ⟨rfl, inside, kept⟩⟩ := pair
      · exact ⟨Or.inl rfl, ⟨hi, inside, distinct⟩, out, kept⟩
      · exact ⟨Or.inr rfl, ⟨inside, hi, distinct⟩, kept, out⟩
    · rename_i other
      constructor
      · exact Or.inl
      · rintro (old | ⟨ends, ⟨hp, hq, distinct⟩, kept, kept'⟩)
        · exact old
        · refine absurd ⟨distinct, ?_⟩ other
          exact ends.imp (fun here => ⟨here, hq, kept'⟩) (fun here => ⟨here, hp, kept⟩)

/-! ## What a fabric and its topology have in common -/

/-- A loop is not asked about: an endpoint can be registered with itself. -/
structure Represents (f : Fabric) (t : Topology) : Prop where
  wired : f.Wired
  topologySound : f.topologyPoisoned = false
  detachedSound : f.detachedPoisoned = false
  size : f.size = t.size
  detached : ∀ i, i ∈ f.detached ↔ i ∈ t.detached
  linked : ∀ {i j}, i ≠ j → (f.Linked i j ↔ s(i, j) ∈ t.edges)

/-- A call changes nothing but registrations and the detached set, and adds its newcomers. -/
structure Follows (f g : Fabric) (c : Call) : Prop where
  bare : g.endpoints.map Endpoint.bare = f.endpoints.map Endpoint.bare ++ c.newcomers
  dropRate : g.dropRate = f.dropRate

theorem Follows.map {β : Type} (h : Follows f g c) (view : Endpoint → β)
    (keeps : ∀ e : Endpoint, view e.bare = view e) :
    g.endpoints.map view = f.endpoints.map view ++ c.newcomers.map view := by
  have bare : ∀ es : List Endpoint, es.map view = (es.map Endpoint.bare).map view := by
    intro es
    rw [List.map_map]
    exact List.map_congr_left fun e _ => (keeps e).symm
  rw [bare g.endpoints, h.bare, List.map_append, ← bare]

theorem Rewires.follows {R : Nat → Nat → Prop} (w : Rewires f g R) (old : c.newcomers = []) :
    Follows f g c where
  bare := by rw [old, List.append_nil, w.bare]
  dropRate := by rw [w.rest]

namespace Represents

theorem empty : Represents {} {} where
  wired := by
    constructor
    · intro i j a here
      cases here
    · intro i a site registered
      cases registered
  topologySound := rfl
  detachedSound := rfl
  size := rfl
  detached _ := by simp
  linked _ := by
    constructor
    · rintro ⟨a, here, -⟩
      cases here
    · intro edge
      simp at edge

theorem rewire {R : Nat → Nat → Prop} {edges : Finset (Sym2 Nat)} (r : f.Represents t)
    (w : Rewires f g R) (same : ∀ {p q}, p ≠ q → (R p q ↔ s(p, q) ∈ edges)) :
    g.Represents { t with edges } where
  wired := w.wired
  topologySound := by rw [w.rest]; exact r.topologySound
  detachedSound := by rw [w.rest]; exact r.detachedSound
  size := w.size.trans r.size
  detached i := by rw [w.detached]; exact r.detached i
  linked distinct := (w.linked _ _).trans (same distinct)

/-- Counters, inboxes and the drop rate are not part of the topology. -/
theorem update (r : f.Represents t) (i : Nat) (change : Endpoint → Endpoint)
    (address : ∀ e, (change e).address = e.address)
    (registry : ∀ e, (change e).registry = e.registry) : (f.update i change).Represents t := by
  have same_address : ∀ k, (f.update i change).address? k = f.address? k := by
    intro k
    simp only [address?, ← List.getElem?_map]
    exact congrArg (·[k]?) (map_modify Endpoint.address change address f.endpoints i)
  have same_route : ∀ k a, (f.update i change).route? k a = f.route? k a := by
    intro k a
    rw [route?, getElem?_update, route?]
    split
    · cases f.endpoints[k]? <;> simp [Endpoint.route?, registry]
    · rfl
  constructor
  case wired =>
    apply r.wired.of_routes same_address
    intro k a site registered
    rw [same_route] at registered
    exact r.wired.routes registered
  case topologySound => exact r.topologySound
  case detachedSound => exact r.detachedSound
  case size => exact (List.length_modify _ _ _).trans r.size
  case detached => exact r.detached
  case linked =>
    intro p q distinct
    simp only [Linked, same_address, same_route]
    exact r.linked distinct

theorem withRate (r : f.Represents t) (rate : Float) :
    Represents { f with dropRate := rate } t :=
  { r with wired := ⟨r.wired.distinct, r.wired.routes⟩ }

theorem not_detached (r : f.Represents t) : i ∉ f.detached ↔ i ∉ t.detached :=
  not_congr (r.detached i)

/-! ## One call -/

theorem add (r : f.Represents t) {id : Nat} {address : String}
    (new : address ∉ f.endpoints.map Endpoint.address) :
    (f.add id address).Represents (t.after (.add id address)) where
  wired := r.wired.add new
  topologySound := r.topologySound
  detachedSound := r.detachedSound
  size := (size_add f id address).trans (congrArg (· + 1) r.size)
  detached := r.detached
  linked distinct := r.wired.linked_add.trans (r.linked distinct)

theorem connectAll (r : f.Represents t) : ∃ g, f.connectAll = (.ok (), g) ∧
    g.Represents (t.after .connectAll) ∧ Follows f g .connectAll := by
  obtain ⟨g, done, w⟩ := rewires_connectAll r.wired r.topologySound r.detachedSound
  refine ⟨g, done, r.rewire w ?_, w.follows rfl⟩
  intro p q distinct
  rw [r.linked distinct, r.size, r.not_detached, r.not_detached]
  simp only [Finset.mem_union, Finset.mem_filter, Finset.mk_mem_sym2_iff,
    Topology.mem_present, Sym2.mk_isDiag_iff]
  tauto

theorem disconnect (r : f.Represents t) (hi : i < f.size) (hj : j < f.size) :
    ∃ g, f.disconnect i j = (.ok (), g) ∧ g.Represents (t.after (.disconnect i j)) ∧
      Follows f g (.disconnect i j) := by
  obtain ⟨g, done, w⟩ := rewires_disconnect r.wired r.topologySound hi hj
  refine ⟨g, done, r.rewire w ?_, w.follows rfl⟩
  intro p q distinct
  rw [Finset.mem_erase, ← r.linked distinct, and_comm]

theorem reconnect (r : f.Represents t) (hi : i < f.size) (hj : j < f.size) :
    ∃ g, f.reconnect i j = (.ok (), g) ∧ g.Represents (t.after (.reconnect i j)) ∧
      Follows f g (.reconnect i j) := by
  obtain ⟨g, done, w⟩ := rewires_reconnect r.wired r.topologySound r.detachedSound hi hj
  refine ⟨g, done, ?_, w.follows rfl⟩
  have same : (i ∈ f.detached ∨ j ∈ f.detached) ↔ i ∈ t.detached ∨ j ∈ t.detached := by
    rw [r.detached, r.detached]
  rw [Topology.after]
  split
  · rename_i out
    apply r.rewire w
    intro p q distinct
    rw [r.linked distinct]
    refine or_iff_left ?_
    rintro ⟨-, kept, kept'⟩
    exact (same.mpr out).elim kept kept'
  · rename_i kept
    apply r.rewire w
    intro p q distinct
    rw [Finset.mem_insert, ← r.linked distinct, or_comm]
    exact or_congr_left (and_iff_left (not_or.mp (mt same.mp kept)))

theorem isolate (r : f.Represents t) (hi : i < f.size) :
    ∃ g, f.isolate i = (.ok (), g) ∧ g.Represents (t.isolate i) ∧
      Follows f g (.isolate i) := by
  obtain ⟨g, done, w⟩ := rewires_isolate r.wired r.topologySound hi
  refine ⟨g, done, r.rewire w ?_, w.follows rfl⟩
  intro p q distinct
  rw [Finset.mem_filter, Sym2.mem_iff, r.linked distinct, not_or]
  refine and_congr_right fun _ => ?_
  constructor
  · intro apart
    exact ⟨Ne.symm (apart distinct).1, Ne.symm (apart distinct).2⟩
  · rintro ⟨hp, hq⟩ _
    exact ⟨Ne.symm hp, Ne.symm hq⟩

theorem heal (r : f.Represents t) (hi : i < f.size) :
    ∃ g, f.heal i = (.ok (), g) ∧ g.Represents (t.after (.heal i)) ∧
      Follows f g (.heal i) := by
  obtain ⟨g, done, w⟩ := rewires_heal r.wired r.topologySound r.detachedSound hi
  refine ⟨g, done, ?_, w.follows rfl⟩
  rw [Topology.after]
  split
  · rename_i out
    apply r.rewire w
    intro p q distinct
    rw [r.linked distinct, r.not_detached, r.not_detached]
    constructor
    · rintro (old | ⟨rfl | rfl, -, kept, kept'⟩)
      · exact old
      · exact absurd out kept
      · exact absurd out kept'
    · exact Or.inl
  · rename_i kept
    apply r.rewire w
    intro p q distinct
    rw [Finset.mem_union, Finset.mem_image, r.linked distinct, r.not_detached, r.not_detached,
      r.size]
    refine or_congr Iff.rfl ?_
    constructor
    · rintro ⟨rfl | rfl, inside, present⟩
      · exact ⟨q, by simp [inside, present, Ne.symm distinct], rfl⟩
      · exact ⟨p, by simp [inside, present], Sym2.eq_swap⟩
    · rintro ⟨j, other, pair⟩
      have here : i < t.size := r.size ▸ hi
      rw [Finset.mem_erase, Topology.mem_present] at other
      rcases Sym2.eq_iff.mp pair with ⟨rfl, rfl⟩ | ⟨rfl, rfl⟩
      · exact ⟨Or.inl rfl, ⟨here, other.2.1, distinct⟩, kept, other.2.2⟩
      · exact ⟨Or.inr rfl, ⟨other.2.1, here, distinct⟩, other.2.2, kept⟩

theorem detach (r : f.Represents t) (hi : i < f.size) :
    ∃ g, f.detach i = (.ok (), g) ∧ g.Represents (t.after (.detach i)) ∧
      Follows f g (.detach i) := by
  obtain ⟨g, done, r', same⟩ := r.isolate hi
  by_cases out : i ∈ g.detached
  · refine ⟨g, by simp [Fabric.detach, done, r'.detachedSound, out], ?_, ⟨same.1, same.2⟩⟩
    have known : insert i t.detached = t.detached :=
      Finset.insert_eq_of_mem ((r'.detached i).mp out)
    rw [Topology.after, known]
    exact r'
  · refine ⟨{ g with detached := g.detached ++ [i] },
      by simp [Fabric.detach, done, r'.detachedSound, out], ?_, ⟨same.1, same.2⟩⟩
    exact { r' with
      wired := ⟨r'.wired.distinct, r'.wired.routes⟩
      detached := fun k => by
        rw [List.mem_append, List.mem_singleton, r'.detached, Or.comm]
        exact Finset.mem_insert.symm }

/-- Every valid call is done, and does to the fabric what it does to the topology. -/
theorem after (r : f.Represents t) (valid : c.Valid f) :
    ∃ g, f.perform c = (.ok (), g) ∧ g.Represents (t.after c) ∧ Follows f g c := by
  obtain ⟨inside, new⟩ := valid
  cases c with
  | add id address =>
    refine ⟨_, rfl, r.add (new _ List.mem_cons_self), ?_⟩
    exact ⟨List.map_append, rfl⟩
  | connectAll => exact r.connectAll
  | disconnect i j =>
    exact r.disconnect (inside i List.mem_cons_self)
      (inside j (List.mem_cons_of_mem i List.mem_cons_self))
  | reconnect i j =>
    exact r.reconnect (inside i List.mem_cons_self)
      (inside j (List.mem_cons_of_mem i List.mem_cons_self))
  | isolate i => exact r.isolate (inside i List.mem_cons_self)
  | heal i => exact r.heal (inside i List.mem_cons_self)
  | detach i => exact r.detach (inside i List.mem_cons_self)

end Represents

/-! ## Every run -/

theorem represents_of_reachable {s : Fabric × Topology} (run : Reachable calls ({}, {}) s) :
    s.1.Represents s.2 := by
  refine run.invariant (P := fun s => s.1.Represents s.2) Represents.empty ?_
  intro s c r valid
  obtain ⟨g, done, r', -⟩ := r.after valid
  change (s.1.perform c).2.Represents (s.2.after c)
  rwa [done]

theorem apart_of_reachable {s : Fabric × Topology} (run : Reachable calls ({}, {}) s) :
    s.2.Apart := by
  refine run.invariant (P := fun s => s.2.Apart) ?_ fun {_ c} apart _ => apart.after c
  intro i out
  simp at out

/-- No call brings back what was removed. -/
theorem stays_detached {s : Fabric × Topology} {cs : List Call} (inside : i < s.2.size)
    (out : i ∈ s.2.detached) :
    i < (calls.play s cs).2.size ∧ i ∈ (calls.play s cs).2.detached := by
  induction cs generalizing s with
  | nil => exact ⟨inside, out⟩
  | cons c cs ih =>
    obtain ⟨size, detached⟩ := s.2.after_grows c
    exact ih (s := calls.after s c) (Nat.lt_of_lt_of_le inside size) (detached out)

/-- What can be asked of the fabric is answered by the topology, and no registration is
without its edge. -/
structure Matches (f : Fabric) (t : Topology) : Prop where
  size : f.size = t.size
  done : ∀ c : Call, c.Valid f → (f.perform c).1 = .ok ()
  linked : ∀ i j, i < f.size → j < f.size → i ≠ j →
    f.isLinked i j = .ok (decide (s(i, j) ∈ t.edges)) ∧
      f.isLinked j i = .ok (decide (s(i, j) ∈ t.edges))
  detached : ∀ i, f.isDetached i = .ok (decide (i ∈ t.detached))
  registered : ∀ i a site, f.route? i a = some site →
    ∃ j, site = .inside j ∧ f.address? j = some a ∧ (i = j ∨ s(i, j) ∈ t.edges)

namespace Represents

theorem isLinked_eq (r : f.Represents t) (hi : i < f.size) (hj : j < f.size)
    (distinct : i ≠ j) : f.isLinked i j = .ok (decide (s(i, j) ∈ t.edges)) := by
  obtain ⟨linked, asked, iff⟩ := Fabric.isLinked_eq r.wired hi hj
  rw [asked, Bool.eq_iff_iff.mpr (iff.trans ((r.linked distinct).trans decide_eq_true_iff.symm))]

theorem isDetached_eq (r : f.Represents t) (i : Nat) :
    f.isDetached i = .ok (decide (i ∈ t.detached)) := by
  rw [isDetached, r.detachedSound, List.contains_eq_mem, decide_eq_decide.mpr (r.detached i)]
  rfl

theorem agrees (r : f.Represents t) : f.Matches t where
  size := r.size
  done c valid := by
    obtain ⟨g, done, -⟩ := r.after valid
    rw [done]
  linked i j hi hj distinct := by
    rw [r.isLinked_eq hi hj distinct, r.isLinked_eq hj hi (Ne.symm distinct), Sym2.eq_swap]
    exact ⟨rfl, rfl⟩
  detached := r.isDetached_eq
  registered i a site registered := by
    obtain ⟨j, rfl, there⟩ := r.wired.routes registered
    refine ⟨j, rfl, there, ?_⟩
    by_cases same : i = j
    · exact Or.inl same
    · exact Or.inr ((r.linked same).mp ⟨a, there, registered⟩)

theorem isLinked_of_detached (r : f.Represents t) (apart : t.Apart) (hi : i < f.size)
    (hj : j < f.size) (out : i ∈ t.detached) (distinct : j ≠ i) :
    f.isLinked i j = .ok false ∧ f.isLinked j i = .ok false := by
  have asked := r.agrees.linked i j hi hj (Ne.symm distinct)
  have no_edge : s(i, j) ∉ t.edges := fun edge => apart i out _ edge (Sym2.mem_mk_left i j)
  rwa [decide_eq_false no_edge] at asked

end Represents

/-- Whatever calls are made, the links of the fabric are the edges of the topology, and a
detached endpoint never has a link again. -/
theorem links_follow_topology {s : Fabric × Topology} (run : Reachable calls ({}, {}) s) :
    s.1.Matches s.2 ∧
    ∀ i cs, calls.AdmitsAll s (.detach i :: cs) →
      (calls.play s (.detach i :: cs)).1.isDetached i = .ok true ∧
      ∀ j < (calls.play s (.detach i :: cs)).1.size, j ≠ i →
        (calls.play s (.detach i :: cs)).1.isLinked i j = .ok false ∧
        (calls.play s (.detach i :: cs)).1.isLinked j i = .ok false := by
  have r := represents_of_reachable run
  refine ⟨r.agrees, ?_⟩
  intro i cs admitted
  have continued := System.reachable_play run admitted
  have later := represents_of_reachable continued
  have inside : i < s.2.size := r.size ▸ admitted.1.1 i List.mem_cons_self
  obtain ⟨size, out⟩ : i < (calls.play s (.detach i :: cs)).2.size ∧
      i ∈ (calls.play s (.detach i :: cs)).2.detached :=
    stays_detached (s := calls.after s (.detach i)) inside (Finset.mem_insert_self i _)
  refine ⟨by rw [later.isDetached_eq, decide_eq_true out], ?_⟩
  intro j hj distinct
  exact later.isLinked_of_detached (apart_of_reachable continued) (later.size.symm ▸ size) hj
    out distinct

/-- Three endpoints, the second of which is detached and not brought back by any call. -/
theorem links_follow_topology_of_triangle :
    let cs : List Call := [.add 1 "a", .add 2 "b", .add 3 "c", .connectAll]
    let later : List Call := [.heal 1, .reconnect 0 1, .disconnect 0 2, .heal 2, .connectAll]
    Reachable calls ({}, {}) (calls.play ({}, {}) cs) ∧
    calls.AdmitsAll (calls.play ({}, {}) cs) (.detach 1 :: later) ∧
    (calls.play ({}, {}) cs).1.isLinked 0 1 = .ok true ∧
    (calls.play ({}, {}) (cs ++ .detach 1 :: later)).2.edges = {s(0, 2)} ∧
    (calls.play ({}, {}) (cs ++ .detach 1 :: later)).1.isLinked 0 1 = .ok false := by
  intro cs later
  have run : Reachable calls ({}, {}) (calls.play ({}, {}) cs) :=
    System.reachable_play .start (by decide +kernel)
  have admitted : calls.AdmitsAll (calls.play ({}, {}) cs) (.detach 1 :: later) := by
    decide +kernel
  have size : (calls.play ({}, {}) cs).1.size = 3 := by decide +kernel
  have edge : s(0, 1) ∈ (calls.play ({}, {}) cs).2.edges := by decide +kernel
  have edges : (calls.play ({}, {}) (cs ++ .detach 1 :: later)).2.edges = {s(0, 2)} := by
    decide +kernel
  have grown : (calls.play (calls.play ({}, {}) cs) (.detach 1 :: later)).1.size = 3 := by
    decide +kernel
  have joined : calls.play ({}, {}) (cs ++ .detach 1 :: later) =
      calls.play (calls.play ({}, {}) cs) (.detach 1 :: later) := List.foldl_append
  obtain ⟨agrees, cut⟩ := links_follow_topology run
  refine ⟨run, admitted, ?_, edges, ?_⟩
  · rw [(agrees.linked 0 1 (by omega) (by omega) (by decide)).1, decide_eq_true edge]
  · rw [joined]
    exact ((cut 1 later admitted).2 0 (by omega) (by decide)).2

end Fabric

end QuorumLab
