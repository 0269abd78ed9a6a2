import QuorumLab.Cluster.Basic
import QuorumLab.Proofs.Network.Topology

/-!
# Restricted clusters

However often a cluster is restricted, what is left of it are the nodes that every
restriction lists. They know each other and nobody else, and all others are out of the
fabric for good, whatever links are cut and restored meanwhile.
-/

namespace QuorumLab

/-! ## Removing endpoints -/

namespace Fabric.Call

/-- A call that changes links and nothing else. -/
def Relinks : Call → Prop
  | .connectAll | .disconnect _ _ | .reconnect _ _ | .isolate _ | .heal _ => True
  | .add _ _ | .detach _ => False

instance : DecidablePred Relinks := fun c => by
  cases c <;> unfold Relinks <;> infer_instance

theorem newcomers_of_relinks {c : Call} (relinks : c.Relinks) : c.newcomers = [] := by
  cases c with
  | add id address => exact absurd relinks not_false
  | _ => rfl

/-- A call that cuts no link. -/
def Joins : Call → Prop
  | .connectAll | .heal _ => True
  | .reconnect i j => i ≠ j
  | .add _ _ | .disconnect _ _ | .isolate _ | .detach _ => False

end Fabric.Call

namespace Topology

variable {t : Topology} {c : Fabric.Call}

theorem after_relinks (relinks : c.Relinks) :
    (t.after c).size = t.size ∧ (t.after c).detached = t.detached := by
  cases c with
  | connectAll | disconnect i j | isolate i => exact ⟨rfl, rfl⟩
  | reconnect i j | heal i =>
    rw [after]
    split <;> exact ⟨rfl, rfl⟩
  | add id address | detach i => exact absurd relinks not_false

/-- Every two endpoints that were not removed are joined. -/
def Complete (t : Topology) : Prop :=
  ∀ i ∈ t.present, ∀ j ∈ t.present, i ≠ j → s(i, j) ∈ t.edges

theorem complete_connectAll (t : Topology) : (t.after .connectAll).Complete := by
  intro i hi j hj distinct
  apply Finset.mem_union_right
  rw [Finset.mem_filter, Finset.mk_mem_sym2_iff, Sym2.mk_isDiag_iff]
  exact ⟨⟨hi, hj⟩, distinct⟩

theorem Complete.joins (h : t.Complete) (joins : c.Joins) : (t.after c).Complete := by
  cases c with
  | connectAll => exact t.complete_connectAll
  | reconnect i j =>
    rw [after]
    split
    · exact h
    · exact fun p hp q hq distinct => Finset.mem_insert_of_mem (h p hp q hq distinct)
  | heal i =>
    rw [after]
    split
    · exact h
    · exact fun p hp q hq distinct => Finset.mem_union_left _ (h p hp q hq distinct)
  | add id address | disconnect i j | isolate i | detach i => exact absurd joins not_false

/-- Remove endpoints, one after the other. -/
def remove (t : Topology) (js : List Nat) : Topology :=
  js.foldl (fun t j => t.after (.detach j)) t

@[simp] theorem size_remove (t : Topology) (js : List Nat) : (t.remove js).size = t.size := by
  induction js generalizing t with
  | nil => rfl
  | cons j js ih => exact ih (t.after (.detach j))

theorem mem_detached_remove {js : List Nat} {i : Nat} :
    i ∈ (t.remove js).detached ↔ i ∈ js ∨ i ∈ t.detached := by
  induction js generalizing t with
  | nil => simp [remove]
  | cons j js ih =>
    have rest : i ∈ (t.remove (j :: js)).detached ↔ i ∈ js ∨ i ∈ (t.after (.detach j)).detached :=
      ih (t := t.after (.detach j))
    rw [rest, List.mem_cons, after, Finset.mem_insert]
    tauto

theorem Apart.remove (apart : t.Apart) (js : List Nat) : (t.remove js).Apart := by
  induction js generalizing t with
  | nil => exact apart
  | cons j js ih => exact ih (apart.after (.detach j))

/-- Those that stay keep their links. -/
theorem Complete.remove (h : t.Complete) (js : List Nat) : (t.remove js).Complete := by
  induction js generalizing t with
  | nil => exact h
  | cons j js ih =>
    apply ih (t := t.after (.detach j))
    intro p hp q hq distinct
    simp only [mem_present, after, isolate, Finset.mem_insert, not_or] at hp hq
    apply Finset.mem_filter.mpr
    refine ⟨h p ?_ q ?_ distinct, ?_⟩
    · exact mem_present.mpr ⟨hp.1, hp.2.2⟩
    · exact mem_present.mpr ⟨hq.1, hq.2.2⟩
    · intro touches
      rcases Sym2.mem_iff.mp touches with rfl | rfl
      · exact hp.2.1 rfl
      · exact hq.2.1 rfl

end Topology

/-! ## The nodes that are left -/

namespace Directory

/-- What node `i` knows of the nodes with these indexes. -/
def among (indexes : List Nat) (i : Nat) : Directory :=
  (indexes.filter (· ≠ i)).map fun j => { id := j + 1, address := toString j }

theorem retain_among (indexes : List Nat) (keep : Nat → Bool) (i : Nat) :
    (among indexes i).retain (((indexes.filter keep).map (· + 1)).contains ·.id) =
      among (indexes.filter keep) i := by
  simp only [retain, among, List.filter_map, List.filter_filter]
  congr 1
  apply List.filter_congr
  intro j hj
  have listed : ((indexes.filter keep).map (· + 1)).contains (j + 1) = keep j := by
    rw [Bool.eq_iff_iff, List.contains_iff_mem, List.mem_map]
    constructor
    · rintro ⟨k, hk, same⟩
      obtain rfl : k = j := Nat.succ.inj same
      exact (List.mem_filter.mp hk).2
    · exact fun kept => ⟨j, List.mem_filter.mpr ⟨hj, kept⟩, rfl⟩
  simp only [Function.comp_apply, listed]
  exact Bool.and_comm _ _

end Directory

/-- Node `i` as one of those with these indexes, with nothing on its shelf. -/
def Node.among (settings : Nat → Settings) (indexes : List Nat) (i : Nat) : Node :=
  { index := i, settings := settings i, peers := Directory.among indexes i }

namespace Fabric

/-- Endpoints that are named for their places. -/
def numbered (n : Nat) : List Endpoint :=
  (List.range n).map fun i => { id := i + 1, address := toString i }

theorem foldl_addNumbered (n : Nat) :
    (List.range n).foldl (fun f _ => f.addNumbered) ({} : Fabric) =
      { endpoints := numbered n } := by
  induction n with
  | zero => rfl
  | succ n ih =>
    rw [List.range_succ, List.foldl_append, ih]
    simp [addNumbered, add, size, numbered, List.range_succ]

/-- Different places have different names. -/
theorem toString_inj {m n : Nat} (same : toString m = toString n) : m = n := by
  rw [Nat.toString_eq_ofList_toDigits, Nat.toString_eq_ofList_toDigits, String.ofList_inj] at same
  rw [← Nat.ofDigitChars_ten_toDigits (n := m), same, Nat.ofDigitChars_ten_toDigits]

theorem represents_numbered (n : Nat) :
    ({ endpoints := numbered n } : Fabric).Represents { size := n } := by
  induction n with
  | zero => exact Represents.empty
  | succ n ih =>
    have new : toString n ∉ (numbered n).map Endpoint.address := by
      intro taken
      simp only [numbered, List.map_map, List.mem_map, List.mem_range, Function.comp_apply] at taken
      obtain ⟨k, below, same⟩ := taken
      exact Nat.ne_of_lt below (toString_inj same)
    have next : numbered (n + 1) = numbered n ++ [{ id := n + 1, address := toString n }] := by
      rw [numbered, List.range_succ, List.map_append, numbered, List.map_singleton]
    rw [next]
    exact ih.add new

end Fabric

namespace Cluster

variable {c : Cluster} {t : Topology} {settings : Nat → Settings} {kept : List Nat}

/-- What is left of a cluster are the nodes `kept`, over a fabric that represents `t`. -/
structure Pruned (c : Cluster) (settings : Nat → Settings) (kept : List Nat) (t : Topology) :
    Prop where
  nodes : c.nodes = kept.map (Node.among settings kept)
  inside : ∀ i ∈ kept, i < c.size
  bare : c.fabric.endpoints.map Endpoint.bare = Fabric.numbered c.size
  represents : c.fabric.Represents t
  size : t.size = c.size
  detached : ∀ i, i ∈ t.detached ↔ i < c.size ∧ i ∉ kept
  apart : t.Apart

namespace Pruned

theorem indexes (h : c.Pruned settings kept t) : c.indexes = kept := by
  rw [Cluster.indexes, h.nodes, List.map_map]
  exact List.map_id kept

theorem fabric_size (h : c.Pruned settings kept t) : c.fabric.size = c.size :=
  h.represents.size.trans h.size

theorem mem_present (h : c.Pruned settings kept t) {i : Nat} (left : i ∈ kept) : i ∈ t.present := by
  rw [Topology.mem_present, h.size, h.detached]
  exact ⟨h.inside i left, fun out => out.2 left⟩

theorem node (h : c.Pruned settings kept t) {i : Nat} (left : i ∈ kept) :
    c.node i = .ok (Node.among settings kept i) := by
  have search : ((fun x : Node => decide (x.index = i)) ∘ Node.among settings kept) =
      fun j => decide (j = i) := rfl
  obtain ⟨j, found⟩ := Option.isSome_iff_exists.mp
    (List.find?_isSome.mpr ⟨i, left, decide_eq_true (rfl : i = i)⟩ :
      (kept.find? fun j => decide (j = i)).isSome)
  obtain rfl : j = i := by simpa using List.find?_some found
  rw [Cluster.node, h.nodes, List.find?_map, search, found]
  rfl

/-- A new cluster is whole. -/
theorem new (n : Nat) :
    (Cluster.new n).Pruned (fun _ => .scaledDown) (List.range n)
      (({ size := n } : Topology).after .connectAll) := by
  obtain ⟨g, done, represents, follows⟩ := (Fabric.represents_numbered n).connectAll
  have size : g.size = n := represents.size
  have bare : g.endpoints.map Endpoint.bare = Fabric.numbered n := by
    rw [follows.bare]
    simp [Fabric.Call.newcomers, Fabric.numbered, Endpoint.bare]
  have around : ∀ i ∈ List.range n, Directory.around ((List.range n).map fun j =>
      { id := j + 1, address := toString j }) i = Directory.among (List.range n) i := by
    intro i hi
    have place : i < (List.range n).length := by simpa using hi
    have erased : (List.range n).erase i = (List.range n).eraseIdx i := by
      apply List.erase_eq_eraseIdx_of_idxOf
      simpa using List.nodup_range.idxOf_getElem i place
    rw [Directory.around, Directory.among, List.eraseIdx_map, ← erased,
      List.nodup_range.erase_eq_filter]
    congr 2
    funext j
    exact (decide_not ..).symm
  have built : Cluster.new n =
      { size := n, nodes := (List.range n).map (Node.among (fun _ => .scaledDown) (List.range n)),
        fabric := g } := by
    rw [Cluster.new, Fabric.foldl_addNumbered, done]
    simp only [Fabric.numbered, List.map_map]
    congr 1
    apply List.map_congr_left
    intro i hi
    rw [Node.among, ← around i hi]
    rfl
  rw [built]
  exact {
    nodes := rfl
    inside := fun i hi => List.mem_range.mp hi
    bare := bare
    represents := represents
    size := rfl
    detached := by simp [Topology.after]
    apart := Topology.Apart.after (fun i out => by simp at out) .connectAll }

/-- Links that are cut and restored leave the nodes alone. -/
theorem relink (h : c.Pruned settings kept t) {call : Fabric.Call} (relinks : call.Relinks)
    (inside : ∀ i ∈ call.indexes, i < c.size) :
    ∃ g, c.fabric.perform call = (.ok (), g) ∧
      Pruned { c with fabric := g } settings kept (t.after call) := by
  have none := Fabric.Call.newcomers_of_relinks relinks
  obtain ⟨g, done, represents, follows⟩ := h.represents.after (c := call)
    ⟨fun i hi => h.fabric_size ▸ inside i hi, fun e he => by rw [none] at he; cases he⟩
  obtain ⟨size, detached⟩ := t.after_relinks relinks
  refine ⟨g, done, { h with
    bare := ?_
    represents := represents
    size := size.trans h.size
    detached := fun i => by rw [detached, h.detached]
    apart := h.apart.after call }⟩
  rw [follows.bare, none, List.append_nil, h.bare]

/-- Discarding is detaching, one after the other, and leaving the nodes out. -/
theorem discard_ok {js : List Nat} (r : c.fabric.Represents t)
    (inside : ∀ j ∈ js, j < c.fabric.size) :
    ∃ g, discard js c =
        (.ok (), { c with fabric := g, nodes := c.nodes.filter (!js.contains ·.index) }) ∧
      g.Represents (t.remove js) ∧
      g.endpoints.map Endpoint.bare = c.fabric.endpoints.map Endpoint.bare := by
  induction js generalizing c t with
  | nil => exact ⟨c.fabric, by simp [discard], r, rfl⟩
  | cons j js ih =>
    obtain ⟨f, out, r', follows⟩ := r.detach (inside j List.mem_cons_self)
    have bare : f.endpoints.map Endpoint.bare = c.fabric.endpoints.map Endpoint.bare :=
      follows.bare.trans (List.append_nil _)
    have size : f.size = c.fabric.size := by
      have length := congrArg List.length bare
      rwa [List.length_map, List.length_map] at length
    obtain ⟨g, done, represents, same⟩ :=
      ih (c := { c with fabric := f, nodes := c.nodes.filter (·.index ≠ j) }) r'
        fun k hk => size ▸ inside k (List.mem_cons_of_mem j hk)
    have nodes : (c.nodes.filter (·.index ≠ j)).filter (!js.contains ·.index) =
        c.nodes.filter (!(j :: js).contains ·.index) := by
      rw [List.filter_filter]
      apply List.filter_congr
      intro x _
      by_cases here : x.index = j <;> simp [here]
    refine ⟨g, ?_, represents, same.trans bare⟩
    simp only [discard, out]
    rw [done]
    simp only [nodes]

/-- Restricting a cluster to a list that names no strange node leaves those that are listed. -/
theorem keepOnly (h : c.Pruned settings kept t) {listed : List Nat}
    (inside : ∀ i ∈ listed, i < c.size) :
    ∃ c', c.keepOnly listed = (.ok (), c') ∧ c'.size = c.size ∧
      c'.Pruned settings (kept.filter listed.contains)
        (t.remove (kept.filter (!listed.contains ·))) := by
  have known : listed.find? (c.size ≤ ·) = none := by
    rw [List.find?_eq_none]
    intro i hi
    simpa using inside i hi
  have built : ∀ j ∈ kept.filter (!listed.contains ·), j < c.fabric.size :=
    fun j hj => h.fabric_size ▸ h.inside j (List.mem_filter.mp hj).1
  obtain ⟨g, done, represents, bare⟩ := discard_ok h.represents built
  have left : c.nodes.filter (!(kept.filter (!listed.contains ·)).contains ·.index) =
      (kept.filter listed.contains).map (Node.among settings kept) := by
    rw [h.nodes, List.filter_map]
    congr 1
    apply List.filter_congr
    intro i hi
    by_cases named : i ∈ listed <;> simp [Node.among, hi, named]
  rw [left] at done
  have restricted : c.keepOnly listed = (.ok (), retainPeers { c with
      fabric := g, nodes := (kept.filter listed.contains).map (Node.among settings kept) }) := by
    simp only [Cluster.keepOnly, known, h.indexes, done]
  refine ⟨_, restricted, rfl, ?_⟩
  constructor
  case nodes =>
    have ids : ((kept.filter listed.contains).map (Node.among settings kept)).map Node.id =
        (kept.filter listed.contains).map (· + 1) := by
      rw [List.map_map]
      rfl
    simp only [retainPeers, List.map_map, ids]
    apply List.map_congr_left
    intro i _
    simp only [Function.comp_apply, Node.among, Directory.retain_among]
  case inside => exact fun i hi => h.inside i (List.mem_filter.mp hi).1
  case bare => exact bare.trans h.bare
  case represents => exact represents
  case size => exact (Topology.size_remove t _).trans h.size
  case apart => exact h.apart.remove _
  case detached =>
    intro i
    have built := h.inside i
    rw [Topology.mem_detached_remove, h.detached]
    change _ ↔ i < c.size ∧ _
    simp only [List.mem_filter, List.contains_eq_mem, Bool.not_eq_true', decide_eq_true_eq,
      decide_eq_false_iff_not]
    tauto

/-- A strange node is found before anything is changed. -/
theorem keepOnly_strange {listed : List Nat} {i : Nat}
    (strange : listed.find? (c.size ≤ ·) = some i) :
    c.keepOnly listed = (.error (.serverOutOfRange i c.size), c) := by
  simp only [Cluster.keepOnly, strange]

theorem isDetached_eq (h : c.Pruned settings kept t) (i : Nat) :
    c.fabric.isDetached i = .ok (decide (i < c.size ∧ i ∉ kept)) := by
  rw [h.represents.isDetached_eq, decide_eq_decide.mpr (h.detached i)]

theorem isLinked_of_not_mem (h : c.Pruned settings kept t) {i j : Nat} (hi : i < c.size)
    (hj : j < c.size) (distinct : i ≠ j) (out : i ∉ kept) :
    c.fabric.isLinked i j = .ok false ∧ c.fabric.isLinked j i = .ok false := by
  have size := h.fabric_size
  exact h.represents.isLinked_of_detached h.apart (by omega) (by omega)
    ((h.detached i).mpr ⟨hi, out⟩) (Ne.symm distinct)

theorem isLinked_of_mem (h : c.Pruned settings kept t) (complete : t.Complete) {i j : Nat}
    (hi : i ∈ kept) (hj : j ∈ kept) (distinct : i ≠ j) :
    c.fabric.isLinked i j = .ok true ∧ c.fabric.isLinked j i = .ok true := by
  have size := h.fabric_size
  have edge := complete i (h.mem_present hi) j (h.mem_present hj) distinct
  have asked :=
    h.represents.agrees.linked i j (size ▸ h.inside i hi) (size ▸ h.inside j hj) distinct
  rwa [decide_eq_true edge] at asked

end Pruned

/-! ## Any order of changes -/

/-- A change of a cluster that has not been started. -/
inductive Edit where
  | keepOnly (listed : List Nat)
  | relink (call : Fabric.Call)
  deriving Repr, DecidableEq

namespace Edit

/-- Links are changed between nodes that were built. -/
def Valid (size : Nat) : Edit → Prop
  | .keepOnly _ => True
  | .relink call => call.Relinks ∧ ∀ i ∈ call.indexes, i < size

instance (size : Nat) : DecidablePred (Valid size)
  | .keepOnly _ => isTrue trivial
  | .relink call => inferInstanceAs (Decidable (call.Relinks ∧ ∀ i ∈ call.indexes, i < size))

def Joins : Edit → Prop
  | .keepOnly _ => True
  | .relink call => call.Joins

/-- The nodes that a restriction lists. -/
def listed? : Edit → Option (Finset Nat)
  | .keepOnly listed => some listed.toFinset
  | .relink _ => none

end Edit

def edit (c : Cluster) : Edit → Except Fault Unit × Cluster
  | .keepOnly listed => c.keepOnly listed
  | .relink call => ((c.fabric.perform call).1, { c with fabric := (c.fabric.perform call).2 })

/-- Restrictions with any lists, and changes of links between them. -/
def edits : System Cluster Edit where
  admits c v := v.Valid c.size
  after c v := (c.edit v).2

instance (c : Cluster) (v : Edit) : Decidable (edits.admits c v) :=
  inferInstanceAs (Decidable (v.Valid c.size))

/-- All that was ever listed: neither order nor repetition is left of it. -/
def restrictions (vs : List Edit) : Finset (Finset Nat) := (vs.filterMap Edit.listed?).toFinset

/-- The nodes in all lists that name no strange one. -/
def survivors (n : Nat) (lists : Finset (Finset Nat)) : List Nat :=
  (List.range n).filter fun i => decide (∀ s ∈ lists, s ⊆ Finset.range n → i ∈ s)

theorem mem_restrictions_cons {v : Edit} {vs : List Edit} {s : Finset Nat} :
    s ∈ restrictions (v :: vs) ↔ s ∈ v.listed? ∨ s ∈ restrictions vs := by
  cases v with
  | keepOnly listed => simp [restrictions, Edit.listed?, eq_comm]
  | relink call => simp [restrictions, Edit.listed?]

namespace Pruned

/-- One change leaves the nodes that it lists. -/
theorem edit (h : c.Pruned settings kept t) {v : Edit} (valid : v.Valid c.size) :
    ∃ t', (c.edit v).2.size = c.size ∧
      (c.edit v).2.Pruned settings
        (kept.filter fun i => decide (∀ s ∈ v.listed?, s ⊆ Finset.range c.size → i ∈ s)) t' ∧
      (v.Joins → t.Complete → t'.Complete) := by
  cases v with
  | relink call =>
    obtain ⟨g, done, pruned⟩ := h.relink valid.1 valid.2
    have all : (kept.filter fun i => decide (∀ s ∈ (Edit.relink call).listed?,
        s ⊆ Finset.range c.size → i ∈ s)) = kept := by simp [Edit.listed?]
    rw [all]
    refine ⟨_, rfl, ?_, fun joins complete => complete.joins joins⟩
    simp only [Cluster.edit, done]
    exact pruned
  | keepOnly listed =>
    cases strange : listed.find? (c.size ≤ ·) with
    | some i =>
      have outside : ¬listed.toFinset ⊆ Finset.range c.size := by
        intro inside
        have here := Finset.mem_range.mp
          (inside (List.mem_toFinset.mpr (List.mem_of_find?_eq_some strange)))
        have there : c.size ≤ i := by simpa using List.find?_some strange
        omega
      have all : (kept.filter fun i => decide (∀ s ∈ (Edit.keepOnly listed).listed?,
          s ⊆ Finset.range c.size → i ∈ s)) = kept := by simp [Edit.listed?, outside]
      rw [all, Cluster.edit, keepOnly_strange strange]
      exact ⟨t, rfl, h, fun _ complete => complete⟩
    | none =>
      have inside : ∀ i ∈ listed, i < c.size := by
        intro i hi
        simpa using List.find?_eq_none.mp strange i hi
      obtain ⟨c', done, size, pruned⟩ := h.keepOnly inside
      have subset : listed.toFinset ⊆ Finset.range c.size := by
        intro i hi
        exact Finset.mem_range.mpr (inside i (List.mem_toFinset.mp hi))
      have same : (kept.filter fun i => decide (∀ s ∈ (Edit.keepOnly listed).listed?,
          s ⊆ Finset.range c.size → i ∈ s)) = kept.filter listed.contains := by
        apply List.filter_congr
        intro i _
        simp [Edit.listed?, subset]
      rw [same, Cluster.edit, done]
      exact ⟨_, size, pruned, fun _ complete => complete.remove _⟩

/-- Any order of changes leaves the nodes that all lists have in common. -/
theorem play (h : c.Pruned settings kept t) {vs : List Edit} (admitted : edits.AdmitsAll c vs) :
    ∃ t', (edits.play c vs).size = c.size ∧
      (edits.play c vs).Pruned settings (kept.filter fun i =>
        decide (∀ s ∈ restrictions vs, s ⊆ Finset.range c.size → i ∈ s)) t' ∧
      ((∀ v ∈ vs, v.Joins) → t.Complete → t'.Complete) := by
  induction vs generalizing c kept t with
  | nil => exact ⟨t, rfl, by simpa [restrictions, System.play] using h, fun _ complete => complete⟩
  | cons v vs ih =>
    obtain ⟨t₁, size₁, pruned₁, complete₁⟩ := h.edit admitted.1
    obtain ⟨t₂, size₂, pruned₂, complete₂⟩ := ih pruned₁ admitted.2
    refine ⟨t₂, size₂.trans size₁, ?_, ?_⟩
    · have same : (kept.filter fun i =>
          decide (∀ s ∈ v.listed?, s ⊆ Finset.range c.size → i ∈ s)).filter
          (fun i => decide (∀ s ∈ restrictions vs, s ⊆ Finset.range c.size → i ∈ s)) =
          kept.filter fun i =>
            decide (∀ s ∈ restrictions (v :: vs), s ⊆ Finset.range c.size → i ∈ s) := by
        rw [List.filter_filter]
        apply List.filter_congr
        intro i _
        rw [← Bool.decide_and, decide_eq_decide]
        simp only [mem_restrictions_cons]
        constructor
        · rintro ⟨later, now⟩ s (here | there)
          · exact now s here
          · exact later s there
        · intro both
          exact ⟨fun s hs => both s (Or.inr hs), fun s hs => both s (Or.inl hs)⟩
      rw [size₁, same] at pruned₂
      exact pruned₂
    · intro joins complete
      exact complete₂ (fun w hw => joins w (List.mem_cons_of_mem v hw))
        (complete₁ (joins v List.mem_cons_self) complete)

end Pruned

/-- What can be seen of a cluster of `n` nodes of which `kept` are left. -/
structure Restricted (c : Cluster) (n : Nat) (kept : List Nat) : Prop where
  indexes : c.indexes = kept
  peers : ∀ i ∈ kept, ∃ x, c.node i = .ok x ∧
    x.peers = (kept.filter (· ≠ i)).map fun j => { id := j + 1, address := toString j }
  detached : ∀ i, c.fabric.isDetached i = .ok (decide (i < n ∧ i ∉ kept))
  cut : ∀ i j, i < n → j < n → i ≠ j → i ∉ kept →
    c.fabric.isLinked i j = .ok false ∧ c.fabric.isLinked j i = .ok false
  done : ∀ listed, (∀ i ∈ listed, i < n) → (c.keepOnly listed).1 = .ok ()
  strange : ∀ listed i, listed.find? (n ≤ ·) = some i →
    c.keepOnly listed = (.error (.serverOutOfRange i n), c)

theorem Pruned.restricted (h : c.Pruned settings kept t) : c.Restricted c.size kept where
  indexes := h.indexes
  peers i left := ⟨_, h.node left, rfl⟩
  detached := h.isDetached_eq
  cut i j hi hj := h.isLinked_of_not_mem hi hj
  done listed inside := by
    obtain ⟨c', done, -⟩ := h.keepOnly inside
    rw [done]
  strange listed i strange := keepOnly_strange strange

/-- However often a new cluster is restricted, and whatever links are cut and restored
meanwhile, what is left of it are the nodes that are in every list. Which ones and what they know
hangs on the lists as sets alone; so do the links, if none is cut on purpose. -/
theorem restricted_to_survivors {n : Nat} {vs : List Edit}
    (admitted : edits.AdmitsAll (Cluster.new n) vs) :
    let c := edits.play (Cluster.new n) vs
    let kept := survivors n (restrictions vs)
    c.Restricted n kept ∧ kept.Pairwise (· < ·) ∧
    ((∀ v ∈ vs, v.Joins) → ∀ i ∈ kept, ∀ j ∈ kept, i ≠ j →
      c.fabric.isLinked i j = .ok true ∧ c.fabric.isLinked j i = .ok true) ∧
    ∀ vs', edits.AdmitsAll (Cluster.new n) vs' → restrictions vs' = restrictions vs →
      let c' := edits.play (Cluster.new n) vs'
      c'.nodes = c.nodes ∧ (∀ i, c'.fabric.isDetached i = c.fabric.isDetached i) ∧
      ((∀ v ∈ vs ++ vs', v.Joins) → ∀ i j, i < n → j < n → i ≠ j →
        c'.fabric.isLinked i j = c.fabric.isLinked i j) := by
  intro c kept
  have whole := Pruned.new n
  have complete : (({ size := n } : Topology).after .connectAll).Complete :=
    Topology.complete_connectAll _
  obtain ⟨t, size, pruned, linked⟩ := whole.play admitted
  have size : c.size = n := size
  have pruned : c.Pruned (fun _ => .scaledDown) kept t := pruned
  refine ⟨size ▸ pruned.restricted, List.pairwise_lt_range.filter _, ?_, ?_⟩
  · intro joins i hi j hj
    exact pruned.isLinked_of_mem (linked joins complete) hi hj
  · intro vs' admitted' same c'
    obtain ⟨t', size', pruned', linked'⟩ := whole.play admitted'
    have size' : c'.size = n := size'
    rw [same] at pruned'
    have pruned' : c'.Pruned (fun _ => .scaledDown) kept t' := pruned'
    refine ⟨pruned'.nodes.trans pruned.nodes.symm, ?_, ?_⟩
    · intro i
      rw [pruned'.isDetached_eq, pruned.isDetached_eq, size', size]
    · intro joins i j hi hj distinct
      have complete₁ := linked (fun v hv => joins v (List.mem_append_left _ hv)) complete
      have complete₂ := linked' (fun v hv => joins v (List.mem_append_right _ hv)) complete
      by_cases left : i ∈ kept ∧ j ∈ kept
      · rw [(pruned.isLinked_of_mem complete₁ left.1 left.2 distinct).1,
          (pruned'.isLinked_of_mem complete₂ left.1 left.2 distinct).1]
      · by_cases out : i ∈ kept
        · have gone : j ∉ kept := fun hj => left ⟨out, hj⟩
          rw [(pruned.isLinked_of_not_mem (size ▸ hj) (size ▸ hi) (Ne.symm distinct) gone).2,
            (pruned'.isLinked_of_not_mem (size' ▸ hj) (size' ▸ hi) (Ne.symm distinct) gone).2]
        · rw [(pruned.isLinked_of_not_mem (size ▸ hi) (size ▸ hj) distinct out).1,
            (pruned'.isLinked_of_not_mem (size' ▸ hi) (size' ▸ hj) distinct out).1]

/-- Five nodes of which two are left. One restriction names a strange node, and the lists of the
others come back in another order, with repetitions. -/
theorem restricted_to_survivors_of_five :
    let vs : List Edit := [.keepOnly [3, 1, 1, 0, 4], .relink (.reconnect 1 3), .keepOnly [1, 7],
      .keepOnly [1, 2, 3], .relink (.heal 1)]
    let vs' : List Edit := [.keepOnly [3, 2, 1], .keepOnly [7, 1], .relink .connectAll,
      .keepOnly [4, 3, 1, 0], .keepOnly [1, 2, 3]]
    edits.AdmitsAll (Cluster.new 5) vs ∧
    (edits.play (Cluster.new 5) vs).Restricted 5 [1, 3] ∧
    (edits.play (Cluster.new 5) vs).fabric.isLinked 1 3 = .ok true ∧
    (edits.play (Cluster.new 5) vs').nodes = (edits.play (Cluster.new 5) vs).nodes := by
  intro vs vs'
  have admitted : edits.AdmitsAll (Cluster.new 5) vs := by decide +kernel
  have admitted' : edits.AdmitsAll (Cluster.new 5) vs' := by decide +kernel
  have same : restrictions vs' = restrictions vs := by decide +kernel
  have left : survivors 5 (restrictions vs) = [1, 3] := by decide +kernel
  have joins : ∀ v ∈ vs, v.Joins := by simp [vs, Edit.Joins, Fabric.Call.Joins]
  obtain ⟨restricted, -, linked, unordered⟩ := restricted_to_survivors admitted
  rw [left] at restricted linked
  exact ⟨admitted, restricted, (linked joins 1 (by decide) 3 (by decide) (by decide)).1,
    (unordered vs' admitted' same).1⟩

end Cluster

end QuorumLab
