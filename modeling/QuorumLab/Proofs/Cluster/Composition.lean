import QuorumLab.Cluster.Knob
import QuorumLab.Proofs.Cluster.Restriction

/-!
# Knobs compose

What a list of knobs makes of a new cluster can be read off the list. Its nodes are those that
every knob keeps; the settings of each went through all that change settings, in order; the last
drop rate counts. Where the restrictions stand, and in which order, is left in nothing but the
record of who was cut off first.
-/

namespace QuorumLab

/-! ## Cutting off -/

namespace Fabric

variable {f : Fabric} {i j : Nat}

open Classical in
/-- A fabric without these registrations: each is named by who holds it and for which address. -/
noncomputable def sever (f : Fabric) (lost : Set (Nat × String)) : Fabric :=
  { f with endpoints := f.endpoints.mapIdx fun k e =>
      { e with registry := e.registry.filter fun x => (k, x.1) ∉ lost } }

theorem sever_sever (f : Fabric) (s t : Set (Nat × String)) :
    (f.sever s).sever t = f.sever (s ∪ t) := by
  simp only [sever, List.mapIdx_mapIdx, Function.comp_def, List.filter_filter]
  congr 2
  funext k e
  congr 2
  funext x
  by_cases first : (k, x.1) ∈ s <;> simp [first]

theorem sever_empty (f : Fabric) : f.sever ∅ = f := by
  have same : f.endpoints.mapIdx (fun _ e => e) = f.endpoints := by
    apply List.ext_getElem? 
    simp
  simp only [sever, Set.mem_empty_iff_false, not_false_eq_true, decide_true, List.filter_true]
  exact congrArg (fun endpoints => { f with endpoints }) same

@[simp] theorem address?_sever (f : Fabric) (lost : Set (Nat × String)) (k : Nat) :
    (f.sever lost).address? k = f.address? k := by
  simp only [address?, sever, List.getElem?_mapIdx, Option.map_map]
  rfl

@[simp] theorem size_sever (f : Fabric) (lost : Set (Nat × String)) :
    (f.sever lost).size = f.size := List.length_mapIdx

theorem update_forget (f : Fabric) (i : Nat) (a : String) :
    f.update i (·.forget a) = f.sever {(i, a)} := by
  simp only [update, sever]
  congr 1
  apply List.ext_getElem?
  intro k
  rw [List.getElem?_modify, List.getElem?_mapIdx]
  congr 1
  funext e
  by_cases here : i = k
  · subst here
    simp [Endpoint.forget]
  · simp [here, Ne.symm here]

/-- What is registered between `i` and `j`. -/
def tie (f : Fabric) (i j : Nat) : Set (Nat × String) :=
  {x | ∃ a b, f.address? i = some a ∧ f.address? j = some b ∧ (x = (i, b) ∨ x = (j, a))}

/-- What is registered between `i` and any other. -/
def ties (f : Fabric) (i : Nat) : Set (Nat × String) :=
  {x | ∃ j < f.size, j ≠ i ∧ x ∈ f.tie i j}

@[simp] theorem tie_sever (f : Fabric) (lost : Set (Nat × String)) (i j : Nat) :
    (f.sever lost).tie i j = f.tie i j := by
  simp only [tie, address?_sever]

@[simp] theorem ties_sever (f : Fabric) (lost : Set (Nat × String)) (i : Nat) :
    (f.sever lost).ties i = f.ties i := by
  simp only [ties, tie_sever, size_sever]

theorem unlink_eq (hi : i < f.size) (hj : j < f.size) :
    unlink i j f = .ok (f.sever (f.tie i j)) := by
  obtain ⟨x, here, at_i⟩ := exists_endpoint hi
  obtain ⟨y, there, at_j⟩ := exists_endpoint hj
  have tie : f.tie i j = {(i, y.address)} ∪ {(j, x.address)} := by
    ext p
    simp [Fabric.tie, at_i, at_j, or_comm]
  rw [tie, ← sever_sever, ← update_forget, ← update_forget, unlink, endpoint_ok here,
    endpoint_ok there]
  rfl

theorem foldlM_unlink {js : List Nat} (hi : i < f.size) (inside : ∀ j ∈ js, j < f.size) :
    js.foldlM (fun f j => unlink i j f) f = .ok (f.sever {x | ∃ j ∈ js, x ∈ f.tie i j}) := by
  induction js generalizing f with
  | nil =>
    have nothing : {x | ∃ j ∈ ([] : List Nat), x ∈ f.tie i j} = ∅ := by simp
    rw [nothing, sever_empty]
    rfl
  | cons j js ih =>
    have all : {x | ∃ k ∈ j :: js, x ∈ f.tie i k} = f.tie i j ∪ {x | ∃ k ∈ js, x ∈ f.tie i k} := by
      ext x
      simp
    rw [List.foldlM_cons, unlink_eq hi (inside j List.mem_cons_self), all, ← sever_sever]
    refine (ih (f := f.sever (f.tie i j)) (by simpa using hi) ?_).trans ?_
    · simpa using fun k hk => inside k (List.mem_cons_of_mem j hk)
    · simp only [tie_sever]

theorem isolate_eq (sound : f.topologyPoisoned = false) (hi : i < f.size) :
    f.isolate i = (.ok (), f.sever (f.ties i)) := by
  have others : {x | ∃ j ∈ (List.range f.size).filter fun j => j ≠ i && !false,
      x ∈ f.tie i j} = f.ties i := by
    ext x
    simp [ties, and_assoc]
  apply withTopology_ok sound
  rw [← others]
  apply foldlM_unlink hi
  intro j hj
  exact List.mem_range.mp (List.mem_filter.mp hj).1

/-- A fabric after these were cut off for good. -/
noncomputable def without (f : Fabric) (js : List Nat) : Fabric :=
  { f.sever {x | ∃ j ∈ js, x ∈ f.ties j} with detached := f.detached ++ js }

theorem detach_eq (sound : f.topologyPoisoned = false) (sound' : f.detachedPoisoned = false)
    (hi : i < f.size) (fresh : i ∉ f.detached) : f.detach i = (.ok (), f.without [i]) := by
  have cut := isolate_eq sound hi
  have own : {x | ∃ j ∈ [i], x ∈ f.ties j} = f.ties i := by simp
  have sound' : (f.sever (f.ties i)).detachedPoisoned = false := sound'
  have fresh : (f.sever (f.ties i)).detached.contains i = false := by
    simpa [sever] using fresh
  simp only [detach, cut, sound', fresh, without, own]
  rfl

theorem without_without (f : Fabric) (is js : List Nat) :
    (f.without is).without js = f.without (is ++ js) := by
  have both : {x | ∃ k ∈ is ++ js, x ∈ f.ties k} =
      {x | ∃ k ∈ is, x ∈ f.ties k} ∪ {x | ∃ k ∈ js, x ∈ f.ties k} := by
    ext x
    simp [or_and_right, exists_or]
  have ties : ∀ k, (f.without is).ties k = f.ties k := f.ties_sever _
  calc (f.without is).without js
      = { (f.sever {x | ∃ k ∈ is, x ∈ f.ties k}).sever
            {x | ∃ k ∈ js, x ∈ (f.without is).ties k} with
          detached := f.detached ++ is ++ js } := rfl
    _ = f.without (is ++ js) := by
      simp only [ties, sever_sever, ← both, List.append_assoc]
      rfl

theorem without_nil (f : Fabric) : f.without [] = f := by
  have nothing : {x | ∃ j ∈ ([] : List Nat), x ∈ f.ties j} = ∅ := by simp
  rw [without, nothing, sever_empty, List.append_nil]

/-- In which order they were cut off is left in the record of it alone. -/
theorem without_congr (f : Fabric) {is js : List Nat} (same : ∀ k, k ∈ is ↔ k ∈ js) :
    f.without js = { f.without is with detached := f.detached ++ js } := by
  simp only [without, same]

end Fabric

namespace Cluster

theorem discard_eq {c : Cluster} {js : List Nat} (sound : c.fabric.topologyPoisoned = false)
    (sound' : c.fabric.detachedPoisoned = false) (inside : ∀ j ∈ js, j < c.fabric.size)
    (distinct : js.Nodup) (fresh : ∀ j ∈ js, j ∉ c.fabric.detached) :
    (discard js c).2.fabric = c.fabric.without js := by
  induction js generalizing c with
  | nil => exact c.fabric.without_nil.symm
  | cons j js ih =>
    obtain ⟨other, distinct⟩ := List.nodup_cons.mp distinct
    have first := Fabric.detach_eq sound sound' (inside j List.mem_cons_self)
      (fresh j List.mem_cons_self)
    rw [discard, first]
    let c₁ : Cluster :=
      { c with fabric := c.fabric.without [j], nodes := c.nodes.filter (·.index ≠ j) }
    refine (ih (c := c₁) sound sound' ?_ distinct ?_).trans (c.fabric.without_without [j] js)
    · intro k hk
      exact (Fabric.size_sever _ _).symm ▸ inside k (List.mem_cons_of_mem j hk)
    · intro k hk detached
      rcases List.mem_append.mp detached with before | now
      · exact fresh k (List.mem_cons_of_mem j hk) before
      · exact other (List.mem_singleton.mp now ▸ hk)

end Cluster

/-! ## What a list of knobs says -/

namespace Knob

/-- A knob that every cluster can be given. -/
def BuiltIn : Knob → Prop
  | servers _ | settings _ | dropRate _ => True
  | isolate _ | record _ => False

/-- Whether a knob lets node `i` start. -/
def Keeps (i : Nat) : Knob → Prop
  | servers indexes => i ∈ indexes
  | _ => True

instance (i : Nat) : DecidablePred (Keeps i) := fun k => by
  cases k <;> unfold Keeps <;> infer_instance

/-- The nodes out of `n` that all knobs let start. -/
def kept (n : Nat) (knobs : List Knob) : List Nat :=
  (List.range n).filter fun i => decide (∀ k ∈ knobs, k.Keeps i)

theorem kept_ascending (n : Nat) (knobs : List Knob) : (kept n knobs).Pairwise (· < ·) :=
  List.pairwise_lt_range.filter _

section Ascending

variable {nodes before rest : List Nat} {i : Nat} (ascending : nodes.Pairwise (· < ·))
  (split : nodes = before ++ i :: rest)
include ascending split

theorem lt_of_split : ∀ j ∈ before, j < i := by
  rw [split, List.pairwise_append] at ascending
  exact fun j hj => ascending.2.2 j hj i List.mem_cons_self

/-- Nodes are gone through in ascending order: those before node `i` are the lower ones. -/
theorem filter_lt_of_split : nodes.filter (· < i) = before := by
  have below := lt_of_split ascending split
  rw [split, List.pairwise_append, List.pairwise_cons] at ascending
  rw [split, List.filter_append, List.filter_eq_self.mpr (by simpa using below)]
  have none_left : (i :: rest).filter (· < i) = [] := by
    simpa [List.filter_eq_nil_iff] using fun j hj => Nat.le_of_lt (ascending.2.1.1 j hj)
  rw [none_left, List.append_nil]

end Ascending

/-- A built-in knob that does its work whatever is left of `n` nodes. -/
def Fits (n : Nat) : Knob → Prop
  | servers indexes => ∀ i ∈ indexes, i < n
  | settings change => ∀ i < n, ∀ s, (change i s).1 = .ok ()
  | dropRate rate => (0.0 ≤ rate && rate ≤ 1.0) = true
  | isolate _ | record _ => False

/-- What a knob makes of the settings of node `i`. -/
def adjust (i : Nat) (s : Settings) : Knob → Settings
  | settings change => (change i s).2
  | _ => s

/-- The settings of node `i` after the knobs that change settings, in order. -/
def settingsOf (knobs : List Knob) (i : Nat) : Settings := knobs.foldl (adjust i) .scaledDown

def rate? : Knob → Option Float
  | dropRate rate => some rate
  | _ => none

/-- The last drop rate. -/
def rateOf (knobs : List Knob) : Float := (knobs.filterMap rate?).getLast?.getD 0.0

def restriction? : Knob → Option (List Nat)
  | servers indexes => some indexes
  | _ => none

/-- The same knobs, with the restrictions in another order and at other places. -/
structure Rearranged (knobs knobs' : List Knob) : Prop where
  restrictions : (knobs'.filterMap restriction?).Perm (knobs.filterMap restriction?)
  rest : (knobs'.filter fun k => k.restriction?.isNone) =
    knobs.filter fun k => k.restriction?.isNone

variable {n : Nat} {knobs knobs' : List Knob} {k : Knob}

theorem Fits.builtIn (fits : k.Fits n) : k.BuiltIn := by
  cases k with
  | servers | settings | dropRate => trivial
  | isolate | record => exact absurd fits not_false

theorem restriction?_eq_some {indexes : List Nat} :
    k.restriction? = some indexes ↔ k = servers indexes := by
  cases k <;> simp [restriction?]

theorem mem_restrictions {indexes : List Nat} :
    indexes ∈ knobs.filterMap restriction? ↔ servers indexes ∈ knobs := by
  simp only [List.mem_filterMap, restriction?_eq_some, exists_eq_right]

theorem keeps_iff {i : Nat} : (∀ k ∈ knobs, k.Keeps i) ↔
    ∀ indexes ∈ knobs.filterMap restriction?, i ∈ indexes := by
  constructor
  · exact fun keeps indexes listed => keeps _ (mem_restrictions.mp listed)
  · intro listed k hk
    cases k with
    | servers indexes => exact listed indexes (mem_restrictions.mpr hk)
    | settings | dropRate | isolate | record => trivial

namespace Rearranged

variable (same : Rearranged knobs knobs')
include same

theorem mem (hk : k ∈ knobs') : k ∈ knobs := by
  cases listed : k.restriction? with
  | none =>
    have other : k ∈ knobs'.filter fun k => k.restriction?.isNone :=
      List.mem_filter.mpr ⟨hk, by rw [listed]; rfl⟩
    rw [same.rest] at other
    exact (List.mem_filter.mp other).1
  | some indexes =>
    obtain rfl := restriction?_eq_some.mp listed
    exact mem_restrictions.mp (same.restrictions.subset (mem_restrictions.mpr hk))

theorem kept_eq : kept n knobs' = kept n knobs := by
  apply List.filter_congr
  intro i _
  rw [decide_eq_decide, keeps_iff, keeps_iff]
  exact forall_congr' fun indexes => imp_congr_left same.restrictions.mem_iff

/-- Restrictions leave settings alone. -/
theorem settingsOf_eq : settingsOf knobs' = settingsOf knobs := by
  have others : ∀ (knobs : List Knob) (i : Nat), settingsOf knobs i =
      (knobs.filter fun k => k.restriction?.isNone).foldl (adjust i) .scaledDown := by
    intro knobs i
    rw [List.foldl_filter, settingsOf]
    congr 1
    funext s k
    cases k <;> rfl
  funext i
  rw [others, same.rest, ← others]

theorem rateOf_eq : rateOf knobs' = rateOf knobs := by
  have others : ∀ knobs : List Knob, knobs.filterMap rate? =
      (knobs.filter fun k => k.restriction?.isNone).filterMap rate? := by
    intro knobs
    rw [List.filterMap_filter]
    congr 1
    funext k
    cases k <;> rfl
  rw [rateOf, others, same.rest, ← others, rateOf]

end Rearranged

end Knob

/-! ## One knob -/

namespace Cluster

variable {c c' : Cluster} {t : Topology} {settings : Nat → Settings} {kept : List Nat}
variable {n : Nat} {rate : Float}

section Configure

variable {σ : Type} {change : Nat → Settings → Except Fault Unit × Settings}
variable {note : Nat → Settings → σ → σ}

theorem configureNodes_ok {nodes nodes' : List Node} {x : σ}
    (h : (configureNodes (fun i s x => (change i s, note i s x)) nodes x).1 = (.ok (), nodes')) :
    nodes' = nodes.map fun n => { n with settings := (change n.index n.settings).2 } := by
  induction nodes generalizing nodes' x with
  | nil =>
    cases h
    rfl
  | cons n rest ih =>
    simp only [configureNodes] at h
    rcases changed : change n.index n.settings with ⟨_ | _, settings⟩
    · rw [changed] at h
      cases h
    · rw [changed] at h
      obtain ⟨done, same⟩ := Prod.mk.inj h
      rw [← same, List.map_cons, changed]
      exact congrArg _ (ih (Prod.ext done rfl))

/-- A function whose results do not hang on its memory is called once for each node, in order. -/
theorem configureNodes_done {nodes : List Node} (fits : ∀ n ∈ nodes, ∀ s,
    (change n.index s).1 = .ok ()) (note : Nat → Settings → σ → σ) (x : σ) :
    configureNodes (fun i s x => (change i s, note i s x)) nodes x =
      ((.ok (), nodes.map fun n => { n with settings := (change n.index n.settings).2 }),
        nodes.foldl (fun x n => note n.index n.settings x) x) := by
  induction nodes generalizing x with
  | nil => rfl
  | cons n rest ih =>
    have first := fits n List.mem_cons_self n.settings
    have later := ih (fun y hy => fits y (List.mem_cons_of_mem n hy)) (note n.index n.settings x)
    rcases changed : change n.index n.settings with ⟨result, settings⟩
    rw [changed] at first
    cases first
    simp only [configureNodes, changed, later, List.map_cons, List.foldl_cons]

end Configure

/-- What is left of a new cluster of `n` nodes when knobs have done their work: nothing has
happened to its fabric but that nodes were cut off and the drop rate was set. -/
structure Shaped (c : Cluster) (n : Nat) (settings : Nat → Settings) (kept : List Nat)
    (rate : Float) : Prop where
  pruned : ∃ t, c.Pruned settings kept t ∧ t.Complete
  size : c.size = n
  record : c.record = []
  ascending : kept.Pairwise (· < ·)
  distinct : c.fabric.detached.Nodup
  fabric : c.fabric =
    { (Cluster.new n).fabric.without c.fabric.detached with dropRate := rate }

namespace Shaped

theorem new (n : Nat) : (Cluster.new n).Shaped n (fun _ => .scaledDown) (List.range n) 0.0 := by
  have pruned := Pruned.new n
  obtain ⟨g, done, represents, follows⟩ := (Fabric.represents_numbered n).connectAll
  have built : (Cluster.new n).fabric = g := by
    rw [Cluster.new, Fabric.foldl_addNumbered, done]
  have whole : g.detached = [] := by
    rw [List.eq_nil_iff_forall_not_mem]
    intro i
    rw [represents.detached]
    exact Finset.notMem_empty i
  have rate : g.dropRate = 0.0 := follows.dropRate
  refine ⟨⟨_, pruned, Topology.complete_connectAll _⟩, rfl, rfl, List.pairwise_lt_range, ?_, ?_⟩
  · rw [built, whole]
    exact List.nodup_nil
  · rw [built, whole, Fabric.without_nil, ← rate]

/-- Restricting a cluster cuts off those that are not listed. -/
theorem keepOnly (h : c.Shaped n settings kept rate) {listed : List Nat}
    (inside : ∀ i ∈ listed, i < n) : ∃ c', c.keepOnly listed = (.ok (), c') ∧
      c'.Shaped n settings (kept.filter listed.contains) rate := by
  obtain ⟨t, pruned, complete⟩ := h.pruned
  obtain ⟨c', done, size, pruned'⟩ := pruned.keepOnly fun i hi => h.size ▸ inside i hi
  refine ⟨c', done, ?_⟩
  let out := kept.filter (!listed.contains ·)
  have present : ∀ j ∈ out, j < c.size ∧ j ∉ c.fabric.detached := by
    intro j hj
    have left := (List.mem_filter.mp hj).1
    refine ⟨pruned.inside j left, fun detached => ?_⟩
    exact ((pruned.detached j).mp ((pruned.represents.detached j).mp detached)).2 left
  have distinct : out.Nodup := (h.ascending.imp Nat.ne_of_lt).filter _
  have built : ∀ j ∈ out, j < c.fabric.size := fun j hj => pruned.fabric_size ▸ (present j hj).1
  obtain ⟨g, discarded, -⟩ := Pruned.discard_ok pruned.represents built
  have cut := discard_eq pruned.represents.topologySound pruned.represents.detachedSound built
    distinct fun j hj => (present j hj).2
  rw [discarded] at cut
  have cut : g = c.fabric.without out := cut
  have known : listed.find? (c.size ≤ ·) = none := by
    rw [List.find?_eq_none]
    intro i hi
    simpa [h.size] using inside i hi
  have same : c'.fabric = c.fabric.without out ∧ c'.record = c.record := by
    rw [Cluster.keepOnly, known, pruned.indexes] at done
    simp only [discarded, out] at done
    cases done
    exact ⟨cut, rfl⟩
  refine ⟨⟨_, pruned', complete.remove _⟩, size.trans h.size, same.2.trans h.record,
    h.ascending.filter _, ?_, ?_⟩
  · rw [same.1]
    apply List.nodup_append.mpr
    refine ⟨h.distinct, distinct, ?_⟩
    rintro i detached _ hj rfl
    exact (present i hj).2 detached
  · rw [same.1]
    have again : c.fabric.without out =
        { ((Cluster.new n).fabric.without c.fabric.detached).without out with dropRate := rate } :=
      congrArg (·.without out) h.fabric
    rw [Fabric.without_without] at again
    exact again

/-- A knob that does its work leaves what it says. -/
theorem init (h : c.Shaped n settings kept rate) {k : Knob} (builtIn : k.BuiltIn)
    (done : k.init c = (.ok (), c')) :
    c'.Shaped n (fun i => k.adjust i (settings i)) (kept.filter fun i => decide (k.Keeps i))
      (k.rate?.getD rate) := by
  obtain ⟨t, pruned, complete⟩ := h.pruned
  have all : (∀ i, k.Keeps i) → (kept.filter fun i => decide (k.Keeps i)) = kept :=
    fun keeps => List.filter_eq_self.mpr fun i _ => decide_eq_true (keeps i)
  cases k with
  | servers indexes =>
    have listed : (fun i => decide ((Knob.servers indexes).Keeps i)) = indexes.contains := by
      funext i
      simp [Knob.Keeps]
    cases strange : indexes.find? (c.size ≤ ·) with
    | some i =>
      rw [Knob.init, Pruned.keepOnly_strange strange] at done
      cases done
    | none =>
      obtain ⟨c₁, restricted, shaped⟩ := h.keepOnly fun i hi => by
        simpa [h.size] using List.find?_eq_none.mp strange i hi
      rw [Knob.init, restricted] at done
      cases done
      rw [listed]
      exact shaped
  | settings change =>
    rw [Knob.init, configure] at done
    obtain ⟨configured, rfl⟩ := Prod.mk.inj done
    rw [all fun _ => trivial]
    refine { h with pruned := ⟨t, { pruned with nodes := ?_ }, complete⟩ }
    refine (configureNodes_ok (Prod.ext configured rfl)).trans ?_
    rw [pruned.nodes, List.map_map]
    rfl
  | dropRate rate' =>
    rw [all fun _ => trivial]
    simp only [Knob.init, Fabric.setDropRate] at done
    split at done <;> rename_i set <;> split at set <;> cases set <;> cases done
    refine { h with
      pruned := ⟨t, { pruned with represents := pruned.represents.withRate rate' }, complete⟩
      fabric := ?_ }
    exact congrArg (fun f : Fabric => { f with dropRate := rate' }) h.fabric
  | isolate i | record name => exact absurd builtIn not_false

/-- A knob that fits does its work. -/
theorem init_done (h : c.Shaped n settings kept rate) {k : Knob} (fits : k.Fits n) :
    ∃ c', k.init c = (.ok (), c') := by
  obtain ⟨t, pruned, -⟩ := h.pruned
  cases k with
  | servers indexes =>
    obtain ⟨c', done, -⟩ := h.keepOnly fits
    exact ⟨c', done⟩
  | settings change =>
    have fits : ∀ x ∈ c.nodes, ∀ s, (change x.index s).1 = .ok () := by
      intro x hx
      rw [pruned.nodes] at hx
      obtain ⟨i, hi, rfl⟩ := List.mem_map.mp hx
      exact fits i (h.size ▸ pruned.inside i hi)
    rw [Knob.init, configure, configureNodes_done fits]
    exact ⟨_, rfl⟩
  | dropRate rate =>
    have within : (0.0 ≤ rate && rate ≤ 1.0) = true := fits
    refine ⟨{ c with fabric := { c.fabric with dropRate := rate } }, ?_⟩
    simp only [Knob.init, Fabric.setDropRate, within, if_true]
  | isolate i | record name => exact absurd fits not_false

/-! ## A list of knobs -/

theorem initAll (h : c.Shaped n settings kept rate) {knobs : List Knob}
    (builtIn : ∀ k ∈ knobs, k.BuiltIn) (done : Knob.initAll knobs c = (.ok (), c')) :
    c'.Shaped n (fun i => knobs.foldl (Knob.adjust i) (settings i))
      (kept.filter fun i => decide (∀ k ∈ knobs, k.Keeps i))
      ((knobs.filterMap Knob.rate?).getLast?.getD rate) := by
  induction knobs generalizing c settings kept rate with
  | nil =>
    cases done
    simpa using h
  | cons k knobs ih =>
    rcases first : k.init c with ⟨result, c₁⟩
    rw [Knob.initAll, first] at done
    cases result with
    | error fault => cases done
    | ok _ =>
      have shaped := ih (h.init (builtIn k List.mem_cons_self) first)
        (fun k hk => builtIn k (List.mem_cons_of_mem _ hk)) done
      have both : (kept.filter fun i => decide (k.Keeps i)).filter
          (fun i => decide (∀ k ∈ knobs, k.Keeps i)) =
          kept.filter fun i => decide (∀ a ∈ k :: knobs, a.Keeps i) := by
        rw [List.filter_filter]
        apply List.filter_congr
        intro i _
        rw [← Bool.decide_and, decide_eq_decide, List.forall_mem_cons]
        exact and_comm
      have last : ((k :: knobs).filterMap Knob.rate?).getLast?.getD rate =
          (knobs.filterMap Knob.rate?).getLast?.getD (k.rate?.getD rate) := by
        cases rate? : k.rate? with
        | none => rw [List.filterMap_cons_none rate?]; rfl
        | some r => rw [List.filterMap_cons_some rate?, List.getLast?_cons]; rfl
      rw [both] at shaped
      rw [last]
      exact shaped

theorem initAll_done (h : c.Shaped n settings kept rate) {knobs : List Knob}
    (fits : ∀ k ∈ knobs, k.Fits n) : ∃ c', Knob.initAll knobs c = (.ok (), c') := by
  induction knobs generalizing c settings kept rate with
  | nil => exact ⟨c, rfl⟩
  | cons k knobs ih =>
    have fit := fits k List.mem_cons_self
    obtain ⟨c₁, first⟩ := h.init_done fit
    obtain ⟨c', done⟩ :=
      ih (h.init fit.builtIn first) fun k hk => fits k (List.mem_cons_of_mem _ hk)
    exact ⟨c', by rw [Knob.initAll, first]; exact done⟩

end Shaped

/-- A list of knobs that does its work on a new cluster leaves what it says. -/
theorem shaped_of_initAll {knobs : List Knob} (builtIn : ∀ k ∈ knobs, k.BuiltIn)
    (done : Knob.initAll knobs (Cluster.new n) = (.ok (), c)) :
    c.Shaped n (Knob.settingsOf knobs) (Knob.kept n knobs) (Knob.rateOf knobs) :=
  (Shaped.new n).initAll builtIn done

namespace Shaped

/-- Which nodes are linked. -/
theorem isLinked_eq (h : c.Shaped n settings kept rate) {i j : Nat} (hi : i < n) (hj : j < n)
    (distinct : i ≠ j) : c.fabric.isLinked i j = .ok (decide (i ∈ kept ∧ j ∈ kept)) := by
  obtain ⟨t, pruned, complete⟩ := h.pruned
  have hi : i < c.size := h.size ▸ hi
  have hj : j < c.size := h.size ▸ hj
  by_cases left : i ∈ kept
  · by_cases right : j ∈ kept
    · rw [(pruned.isLinked_of_mem complete left right distinct).1]
      simp [left, right]
    · rw [(pruned.isLinked_of_not_mem hj hi (Ne.symm distinct) right).2]
      simp [right]
  · rw [(pruned.isLinked_of_not_mem hi hj distinct left).1]
    simp [left]

/-- Nothing else can be told apart than who was cut off first. -/
theorem eq_of_shaped (h : c.Shaped n settings kept rate) (h' : c'.Shaped n settings kept rate) :
    c'.fabric.detached.Perm c.fabric.detached ∧
      c' = { c with fabric := { c.fabric with detached := c'.fabric.detached } } := by
  obtain ⟨t, pruned, -⟩ := h.pruned
  obtain ⟨t', pruned', -⟩ := h'.pruned
  have same : ∀ k, k ∈ c.fabric.detached ↔ k ∈ c'.fabric.detached := by
    intro k
    rw [pruned.represents.detached, pruned'.represents.detached, pruned.detached,
      pruned'.detached, h.size, h'.size]
  have fabric : c'.fabric = { c.fabric with detached := c'.fabric.detached } := by
    have cut := h'.fabric
    rw [Fabric.without_congr _ same] at cut
    let relabel (f : Fabric) : Fabric := { f with detached := c'.fabric.detached }
    exact (congrArg relabel cut).trans (congrArg relabel h.fabric).symm
  refine ⟨(List.perm_ext_iff_of_nodup h'.distinct h.distinct).mpr fun k => (same k).symm, ?_⟩
  calc c' = ⟨c'.size, c'.nodes, c'.fabric, c'.record⟩ := rfl
    _ = ⟨c.size, c.nodes, { c.fabric with detached := c'.fabric.detached }, c.record⟩ := by
      rw [← fabric, h'.size, h.size, pruned'.nodes, pruned.nodes, h'.record, h.record]

end Shaped

end Cluster

namespace Knob

/-- Cleaning up restores the drop rate if a knob has set it, and nothing else. -/
theorem cleanupAll_eq {knobs : List Knob} (builtIn : ∀ k ∈ knobs, k.BuiltIn) (c : Cluster) :
    cleanupAll knobs c = if knobs.filterMap rate? = [] then c
      else { c with fabric := { c.fabric with dropRate := 0.0 } } := by
  induction knobs generalizing c with
  | nil => rfl
  | cons k knobs ih =>
    have rest := ih (fun k hk => builtIn k (List.mem_cons_of_mem _ hk)) (k.cleanup c)
    have first := builtIn k List.mem_cons_self
    refine rest.trans ?_
    cases k with
    | servers | settings => rfl
    | dropRate rate =>
      have some_rate : (dropRate rate :: knobs).filterMap rate? ≠ [] := nofun
      rw [if_neg some_rate, cleanup]
      split <;> rfl
    | isolate | record => exact absurd first not_false

/-- A settings knob calls its function once for each node that is left, ascending. -/
theorem calls_of_settings {n : Nat} {before : List Knob}
    {change : Nat → Settings → Except Fault Unit × Settings} (fits : ∀ k ∈ before, k.Fits n)
    (fit : (settings change).Fits n) : ∃ c, initAll before (Cluster.new n) = (.ok (), c) ∧
      ∀ (σ : Type) (note : Nat → Settings → σ → σ) (x : σ),
        c.configure (fun i s x => (change i s, note i s x)) x =
          ((settings change).init c,
            (Knob.kept n before).foldl (fun x i => note i (settingsOf before i) x) x) := by
  obtain ⟨c, done⟩ := (Cluster.Shaped.new n).initAll_done fits
  have shaped := Cluster.shaped_of_initAll (fun k hk => (fits k hk).builtIn) done
  obtain ⟨t, pruned, -⟩ := shaped.pruned
  refine ⟨c, done, fun σ note x => ?_⟩
  have called : ∀ y ∈ c.nodes, ∀ s, (change y.index s).1 = .ok () := by
    intro y hy
    rw [pruned.nodes] at hy
    obtain ⟨i, hi, rfl⟩ := List.mem_map.mp hy
    exact fit i (List.mem_range.mp (List.mem_filter.mp hi).1)
  rw [init, Cluster.configure, Cluster.configure, Cluster.configureNodes_done called note,
    Cluster.configureNodes_done called fun _ _ _ => ()]
  refine congrArg (Prod.mk _) ?_
  rw [pruned.nodes, List.foldl_map]
  rfl

/-- Only who was cut off first hangs on where the restrictions stand. -/
theorem initAll_rearranged {n : Nat} {knobs knobs' : List Knob} {c : Cluster}
    (fits : ∀ k ∈ knobs, k.Fits n) (done : initAll knobs (Cluster.new n) = (.ok (), c))
    (same : Rearranged knobs knobs') : ∃ detached, detached.Perm c.fabric.detached ∧
      initAll knobs' (Cluster.new n) =
        (.ok (), { c with fabric := { c.fabric with detached } }) := by
  have builtIn : ∀ k ∈ knobs, k.BuiltIn := fun k hk => (fits k hk).builtIn
  have shaped := Cluster.shaped_of_initAll builtIn done
  obtain ⟨c', done'⟩ := (Cluster.Shaped.new n).initAll_done fun k hk => fits k (same.mem hk)
  have shaped' := Cluster.shaped_of_initAll (fun k hk => builtIn k (same.mem hk)) done'
  rw [same.kept_eq, same.settingsOf_eq, same.rateOf_eq] at shaped'
  obtain ⟨order, alike⟩ := shaped.eq_of_shaped shaped'
  exact ⟨c'.fabric.detached, order, done'.trans (congrArg (Except.ok (), ·) alike)⟩

/-- A list of built-in knobs that fit makes of a new cluster what it says: the nodes are those in
all restrictions, each with the settings that all settings knobs make in order, wherever the
restrictions stand; the links are those among them; the last drop rate counts. Each settings knob
calls its function once for each node that is left where it stands, ascending. Rearranging the
restrictions changes nothing but the order in which nodes were cut off, and cleaning up resets
the drop rate alone. -/
theorem knobs_compose {n : Nat} {knobs : List Knob} (fits : ∀ k ∈ knobs, k.Fits n) :
    let kept := Knob.kept n knobs
    ∃ c, initAll knobs (Cluster.new n) = (.ok (), c) ∧
      c.nodes = kept.map (Node.among (settingsOf knobs) kept) ∧
      c.fabric.dropRate = rateOf knobs ∧
      (∀ i j, i < n → j < n → i ≠ j →
        c.fabric.isLinked i j = .ok (decide (i ∈ kept ∧ j ∈ kept))) ∧
      (∀ before change after, knobs = before ++ settings change :: after →
        ∃ c₁, initAll before (Cluster.new n) = (.ok (), c₁) ∧
          ∀ (σ : Type) (note : Nat → Settings → σ → σ) (x : σ),
            c₁.configure (fun i s x => (change i s, note i s x)) x =
              ((settings change).init c₁,
                (Knob.kept n before).foldl (fun x i => note i (settingsOf before i) x) x)) ∧
      (∀ knobs', Rearranged knobs knobs' → ∃ detached, detached.Perm c.fabric.detached ∧
        initAll knobs' (Cluster.new n) =
          (.ok (), { c with fabric := { c.fabric with detached } })) ∧
      ∀ d : Cluster, d.fabric.dropRate = c.fabric.dropRate →
        cleanupAll knobs d = { d with fabric := { d.fabric with dropRate := 0.0 } } := by
  intro kept
  have builtIn : ∀ k ∈ knobs, k.BuiltIn := fun k hk => (fits k hk).builtIn
  obtain ⟨c, done⟩ := (Cluster.Shaped.new n).initAll_done fits
  have shaped := Cluster.shaped_of_initAll builtIn done
  obtain ⟨t, pruned, -⟩ := shaped.pruned
  have rate : c.fabric.dropRate = rateOf knobs := congrArg Fabric.dropRate shaped.fabric
  refine ⟨c, done, pruned.nodes, rate, fun i j => shaped.isLinked_eq, ?_, ?_, ?_⟩
  · rintro before change after rfl
    exact calls_of_settings (fun k hk => fits k (List.mem_append_left _ hk))
      (fits (settings change) (List.mem_append_right _ List.mem_cons_self))
  · exact fun knobs' same => initAll_rearranged fits done same
  · intro d level
    rw [cleanupAll_eq builtIn]
    split
    · rename_i nobody
      have zero : d.fabric.dropRate = 0.0 := by
        rw [level, rate, rateOf, nobody]
        rfl
      rw [← zero]
    · rfl

/-- Four nodes of which two are left, whether they are restricted first or last. -/
theorem knobs_compose_of_four :
    let number : Knob := .settings fun i s => (.ok (), { s with trailing := i })
    let knobs : List Knob := [.servers [0, 2, 3], .dropRate 0.25, number, .servers [3, 2, 1, 2],
      .dropRate 0.5]
    let knobs' : List Knob := [.dropRate 0.25, .servers [3, 2, 1, 2], number, .dropRate 0.5,
      .servers [0, 2, 3]]
    (∀ k ∈ knobs, k.Fits 4) ∧ Rearranged knobs knobs' ∧
    ∃ c detached, initAll knobs (Cluster.new 4) = (.ok (), c) ∧
      c.nodes = [2, 3].map
        (Node.among (fun i => { Settings.scaledDown with trailing := i }) [2, 3]) ∧
      c.fabric.dropRate = 0.5 ∧ detached.Perm c.fabric.detached ∧
      initAll knobs' (Cluster.new 4) = (.ok (), { c with fabric := { c.fabric with detached } }) ∧
      cleanupAll knobs c = { c with fabric := { c.fabric with dropRate := 0.0 } } := by
  intro number knobs knobs'
  have rates : (0.0 ≤ (0.25 : Float) && (0.25 : Float) ≤ 1.0) = true ∧
      (0.0 ≤ (0.5 : Float) && (0.5 : Float) ≤ 1.0) = true := by decide +kernel
  have fits : ∀ k ∈ knobs, k.Fits 4 := by
    simpa [knobs, number, Fits] using rates
  have same : Rearranged knobs knobs' := ⟨List.Perm.swap _ _ _, rfl⟩
  have left : kept 4 knobs = [2, 3] := by decide +kernel
  obtain ⟨c, done, nodes, rate, -, -, rearranged, cleaned⟩ := knobs_compose fits
  rw [left] at nodes
  obtain ⟨detached, order, done'⟩ := rearranged knobs' same
  exact ⟨fits, same, c, detached, done, nodes, rate, order, done', cleaned c rfl⟩

end Knob

end QuorumLab
