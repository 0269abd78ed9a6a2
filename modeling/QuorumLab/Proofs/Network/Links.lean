import Mathlib.Data.Sym.Sym2
import QuorumLab.Network.Fabric

/-!
# What a change of links does

A link is stored twice, as a registration at either end. In a wired fabric every registration
leads to the endpoint that has the registered address. `Rewires` says of a change that it
keeps a fabric wired, touches nothing but registrations, and which of them there are after it.
-/

namespace QuorumLab

theorem getElem?_modify_eq_some {α : Type} {l : List α} {i k : Nat} {change : α → α} {b : α}
    (here : (l.modify i change)[k]? = some b) :
    ∃ a, l[k]? = some a ∧ b = if i = k then change a else a := by
  rw [List.getElem?_modify] at here
  obtain ⟨a, at_k, rfl⟩ := Option.map_eq_some_iff.mp here
  exact ⟨a, at_k, rfl⟩

theorem map_modify {α β : Type} (view : α → β) (change : α → α)
    (keeps : ∀ a, view (change a) = view a) (l : List α) (i : Nat) :
    (l.modify i change).map view = l.map view := by
  apply List.ext_getElem?
  intro k
  rw [List.getElem?_map, List.getElem?_map, List.getElem?_modify]
  cases l[k]? with
  | none => rfl
  | some a => by_cases same : i = k <;> simp [same, keeps]

theorem lookup_filter_ne {β : Type} (l : List (String × β)) (a b : String) :
    (l.filter (·.1 ≠ a)).lookup b = if b = a then none else l.lookup b := by
  induction l with
  | nil => simp
  | cons p l ih =>
    obtain ⟨c, v⟩ := p
    by_cases out : c = a
    · subst out
      rw [List.filter_cons_of_neg (by simp), ih, List.lookup_cons]
      by_cases here : b = c
      · rw [if_pos here, if_pos here]
      · have other : (b == c) = false := by simpa using here
        rw [if_neg here, if_neg here, other]
    · rw [List.filter_cons_of_pos (by simpa using out), List.lookup_cons, List.lookup_cons, ih]
      by_cases here : b = c
      · subst here
        simp [out]
      · have other : (b == c) = false := by simpa using here
        rw [other]

namespace Endpoint

variable (e : Endpoint) (a b : String) (site : Site)

@[simp] theorem route?_register :
    (e.register a site).route? b = if b = a then some site else e.route? b := by
  by_cases here : b = a
  · simp [route?, register, here]
  · have other : (b == a) = false := by simpa using here
    simp only [route?, register, List.lookup_cons, other, lookup_filter_ne, if_neg here]

@[simp] theorem route?_forget :
    (e.forget a).route? b = if b = a then none else e.route? b := lookup_filter_ne e.registry a b

/-- An endpoint without its registry. -/
def bare : Endpoint := { e with registry := [] }

@[simp] theorem bare_register : (e.register a site).bare = e.bare := rfl

@[simp] theorem bare_forget : (e.forget a).bare = e.bare := rfl

end Endpoint

namespace Fabric

variable {f g h : Fabric} {i j k p q : Nat} {a b : String} {site : Site}

def address? (f : Fabric) (i : Nat) : Option String := (f.endpoints[i]?).map Endpoint.address

/-- Where `i` sends what is addressed to `a`. -/
def route? (f : Fabric) (i : Nat) (a : String) : Option Site :=
  (f.endpoints[i]?).bind (·.route? a)

/-- `i` has `j` registered. -/
def Linked (f : Fabric) (i j : Nat) : Prop :=
  ∃ a, f.address? j = some a ∧ f.route? i a = some (.inside j)

/-- No two endpoints share an address, and registrations lead where they say. -/
structure Wired (f : Fabric) : Prop where
  distinct : ∀ {i j a}, f.address? i = some a → f.address? j = some a → i = j
  routes : ∀ {i a site}, f.route? i a = some site → ∃ j, site = .inside j ∧ f.address? j = some a

theorem lt_of_address? (here : f.address? i = some a) : i < f.size := by
  by_contra past
  rw [address?, List.getElem?_eq_none (by simpa [size] using past)] at here
  cases here

theorem exists_endpoint (inside : i < f.size) :
    ∃ e, f.endpoints[i]? = some e ∧ f.address? i = some e.address := by
  have here := List.getElem?_eq_getElem inside
  exact ⟨_, here, by rw [address?, here]; rfl⟩

theorem endpoint_ok {e : Endpoint} (here : f.endpoints[i]? = some e) : f.endpoint i = .ok e := by
  rw [endpoint, here]

theorem Linked.left_lt (l : f.Linked i j) : i < f.size := by
  obtain ⟨a, -, route⟩ := l
  by_contra past
  rw [route?, List.getElem?_eq_none (by simpa [size] using past)] at route
  cases route

theorem Linked.right_lt (l : f.Linked i j) : j < f.size := by
  obtain ⟨a, address, -⟩ := l
  exact lt_of_address? address

/-- What is asked of the registries is whether there is a link. -/
theorem isLinked_eq (w : f.Wired) (hi : i < f.size) (hj : j < f.size) :
    ∃ linked, f.isLinked i j = .ok linked ∧ (linked = true ↔ f.Linked i j) := by
  obtain ⟨x, here, -⟩ := exists_endpoint hi
  obtain ⟨y, there, address⟩ := exists_endpoint hj
  have route : ∀ b, f.route? i b = x.route? b := by
    intro b
    rw [route?, here]
    rfl
  refine ⟨x.isConnected y.address, ?_, ?_⟩
  · rw [isLinked, endpoint_ok here, endpoint_ok there]
    rfl
  · rw [Endpoint.isConnected, ← route, Option.isSome_iff_exists]
    constructor
    · rintro ⟨site, registered⟩
      obtain ⟨k, rfl, address'⟩ := w.routes registered
      obtain rfl := w.distinct address address'
      exact ⟨_, address, registered⟩
    · rintro ⟨b, address', registered⟩
      obtain rfl := Option.some.inj (address.symm.trans address')
      exact ⟨_, registered⟩

/-! ## Messages -/

theorem send_of_route {e : Endpoint} (route : f.route? i a = some (.inside j))
    (there : f.endpoints[j]? = some e) (live : e.live = true) (m : Message) (draw : Float) :
    f.send (.inside i) a m draw =
      (.ok (), if f.loses (.inside i) draw then f.update i Endpoint.countDropped
        else (f.update j (·.deliver m)).update i Endpoint.countSent) := by
  have asked : (f.endpoint? (.inside i)).bind (·.route? a) = f.route? i a := rfl
  have reached : ((f.endpoint? (.inside j)).map Endpoint.live).getD false = true := by
    rw [endpoint?, there]
    exact live
  rw [send, asked, route]
  simp only [reached, if_true]
  split <;> rfl

/-- Between endpoints of the fabric a message cannot be sent iff there is no link. -/
theorem send_unreachable_iff (w : f.Wired) (live : ∀ e ∈ f.endpoints, e.live = true)
    (there : f.address? j = some a) (m : Message) (draw : Float) :
    (f.send (.inside i) a m draw).1 = .error (.unreachable a) ↔ ¬f.Linked i j := by
  constructor
  · rintro failed ⟨b, address, route⟩
    obtain rfl := Option.some.inj (there.symm.trans address)
    obtain ⟨e, here, -⟩ := Option.map_eq_some_iff.mp there
    rw [send_of_route route here (live e (List.mem_of_getElem? here))] at failed
    cases failed
  · intro apart
    have nowhere : (f.endpoint? (.inside i)).bind (·.route? a) = none := by
      change f.route? i a = none
      rw [Option.eq_none_iff_forall_ne_some]
      intro site route
      obtain ⟨k, rfl, address⟩ := w.routes route
      obtain rfl := w.distinct there address
      exact apart ⟨a, there, route⟩
    rw [send, nowhere]

/-! ## A new endpoint -/

section Add

variable (f : Fabric) (id : Nat) (address : String)

theorem size_add : (f.add id address).size = f.size + 1 := by
  simp only [size, add, List.length_append, List.length_singleton]

theorem address?_add (k : Nat) :
    (f.add id address).address? k = if k = f.size then some address else f.address? k := by
  rcases lt_trichotomy k f.size with below | rfl | above
  · rw [if_neg (Nat.ne_of_lt below), address?, add, List.getElem?_append_left below, address?]
  · have last : (f.add id address).endpoints[f.size]? = some { id, address } :=
      List.getElem?_concat_length
    rw [if_pos rfl, address?, last]
    rfl
  · have past : (f.add id address).endpoints.length ≤ k := by
      have length := size_add f id address
      simp only [size] at length above ⊢
      omega
    rw [if_neg (Nat.ne_of_gt above), address?, address?, List.getElem?_eq_none past,
      List.getElem?_eq_none (Nat.le_of_lt above)]

/-- What is new has nothing registered. -/
theorem route?_add (k : Nat) (a : String) : (f.add id address).route? k a = f.route? k a := by
  by_cases below : k < f.size
  · rw [route?, add, List.getElem?_append_left below, route?]
  · have past : f.endpoints.length ≤ k := Nat.le_of_not_lt below
    rw [route?, route?, add, List.getElem?_append_right past, List.getElem?_eq_none past]
    cases k - f.endpoints.length <;> rfl

end Add

theorem address?_add_of_some {id : Nat} {address : String} (here : f.address? k = some a) :
    (f.add id address).address? k = some a := by
  rw [address?_add, if_neg, here]
  exact Nat.ne_of_lt (lt_of_address? here)

theorem Wired.add (w : f.Wired) {id : Nat} {address : String}
    (new : address ∉ f.endpoints.map Endpoint.address) : (f.add id address).Wired := by
  have old : ∀ {k}, f.address? k ≠ some address := by
    intro k here
    obtain ⟨e, at_k, rfl⟩ := Option.map_eq_some_iff.mp here
    exact new (List.mem_map_of_mem (List.mem_of_getElem? at_k))
  constructor
  · intro i j a hi hj
    rw [address?_add] at hi hj
    split at hi <;> split at hj
    · omega
    · cases hi
      exact absurd hj old
    · cases hj
      exact absurd hi old
    · exact w.distinct hi hj
  · intro i a site registered
    rw [route?_add] at registered
    obtain ⟨j, leads, at_j⟩ := w.routes registered
    exact ⟨j, leads, address?_add_of_some at_j⟩

theorem Wired.linked_add (w : f.Wired) {id : Nat} {address : String} :
    (f.add id address).Linked p q ↔ f.Linked p q := by
  simp only [Linked, route?_add]
  constructor
  · rintro ⟨a, -, registered⟩
    obtain ⟨k, leads, at_k⟩ := w.routes registered
    cases leads
    exact ⟨a, at_k, registered⟩
  · rintro ⟨a, at_q, registered⟩
    exact ⟨a, address?_add_of_some at_q, registered⟩

/-! ## Registrations -/

theorem getElem?_update (f : Fabric) (i k : Nat) (change : Endpoint → Endpoint) :
    (f.update i change).endpoints[k]? =
      if k = i then (f.endpoints[k]?).map change else f.endpoints[k]? := by
  simp only [update, List.getElem?_modify]
  by_cases same : k = i
  · simp [same]
  · rw [if_neg same]
    cases f.endpoints[k]? <;> simp [Ne.symm same]

/-- `g` differs from `f` in its registrations, and has those links that `R` says. -/
structure Rewires (f g : Fabric) (R : Nat → Nat → Prop) : Prop where
  rest : g = { f with endpoints := g.endpoints }
  bare : g.endpoints.map Endpoint.bare = f.endpoints.map Endpoint.bare
  wired : g.Wired
  linked : ∀ p q, g.Linked p q ↔ R p q

namespace Rewires

variable {R S : Nat → Nat → Prop}

theorem refl (w : f.Wired) : Rewires f f f.Linked := ⟨rfl, rfl, w, fun _ _ => Iff.rfl⟩

theorem trans (first : Rewires f g R) (second : Rewires g h S) : Rewires f h S where
  rest := by
    have outer := second.rest
    rw [first.rest] at outer
    exact outer
  bare := second.bare.trans first.bare
  wired := second.wired
  linked := second.linked

theorem congr (r : Rewires f g R) (same : ∀ p q, R p q ↔ S p q) : Rewires f g S :=
  ⟨r.rest, r.bare, r.wired, fun p q => (r.linked p q).trans (same p q)⟩

theorem size (r : Rewires f g R) : g.size = f.size := by
  have length := congrArg List.length r.bare
  rwa [List.length_map, List.length_map] at length

theorem detached (r : Rewires f g R) : g.detached = f.detached := by rw [r.rest]

end Rewires

theorem address?_of_bare (same : g.endpoints.map Endpoint.bare = f.endpoints.map Endpoint.bare)
    (i : Nat) : g.address? i = f.address? i := by
  have here := congrArg (fun l => (l[i]?).map Endpoint.address) same
  simp only [List.getElem?_map, Option.map_map] at here
  exact here

/-- With the addresses as they were, it is the registrations that have to lead where they say. -/
theorem Wired.of_routes (w : f.Wired) (address : ∀ k, g.address? k = f.address? k)
    (routes : ∀ {k c site}, g.route? k c = some site →
      ∃ j, site = .inside j ∧ f.address? j = some c) : g.Wired where
  distinct {k l c} hk hl := by
    rw [address] at hk hl
    exact w.distinct hk hl
  routes registered := by
    obtain ⟨j, leads, there⟩ := routes registered
    exact ⟨j, leads, (address j).trans there⟩

/-- Registering `j` with `i`. -/
theorem rewires_register (w : f.Wired) (hi : i < f.size) (there : f.address? j = some b) :
    Rewires f (f.update i (·.register b (.inside j)))
      fun p q => f.Linked p q ∨ p = i ∧ q = j := by
  have bare : (f.update i (·.register b (.inside j))).endpoints.map Endpoint.bare =
      f.endpoints.map Endpoint.bare :=
    map_modify _ _ (fun e => e.bare_register b (.inside j)) f.endpoints i
  have address := address?_of_bare bare
  have route : ∀ k c, (f.update i (·.register b (.inside j))).route? k c =
      if k = i ∧ c = b then some (.inside j) else f.route? k c := by
    intro k c
    rw [route?, getElem?_update]
    by_cases here : k = i
    · rw [if_pos here, here, route?, List.getElem?_eq_getElem hi]
      simp
    · rw [if_neg here, if_neg (fun both => here both.1), route?]
  refine ⟨rfl, bare, w.of_routes address ?_, ?_⟩
  · intro k c site registered
    rw [route] at registered
    split at registered
    · rename_i here
      cases registered
      exact ⟨j, rfl, here.2 ▸ there⟩
    · exact w.routes registered
  · intro p q
    simp only [Linked, address, route]
    constructor
    · rintro ⟨c, at_q, registered⟩
      split at registered
      · rename_i here
        cases registered
        exact Or.inr ⟨here.1, rfl⟩
      · exact Or.inl ⟨c, at_q, registered⟩
    · rintro (⟨c, at_q, registered⟩ | ⟨rfl, rfl⟩)
      · refine ⟨c, at_q, ?_⟩
        split
        · rename_i here
          rw [here.2] at at_q
          rw [w.distinct there at_q]
        · exact registered
      · exact ⟨b, there, by rw [if_pos ⟨rfl, rfl⟩]⟩

/-- Forgetting `j` at `i`. -/
theorem rewires_forget (w : f.Wired) (there : f.address? j = some b) :
    Rewires f (f.update i (·.forget b)) fun p q => f.Linked p q ∧ ¬(p = i ∧ q = j) := by
  have bare : (f.update i (·.forget b)).endpoints.map Endpoint.bare =
      f.endpoints.map Endpoint.bare := map_modify _ _ (fun e => e.bare_forget b) f.endpoints i
  have address := address?_of_bare bare
  have route : ∀ k c, (f.update i (·.forget b)).route? k c =
      if k = i ∧ c = b then none else f.route? k c := by
    intro k c
    rw [route?, getElem?_update]
    by_cases here : k = i
    · rw [if_pos here, route?]
      cases f.endpoints[k]? <;> simp [here]
    · rw [if_neg here, if_neg (fun both => here both.1), route?]
  refine ⟨rfl, bare, w.of_routes address ?_, ?_⟩
  · intro k c site registered
    rw [route] at registered
    split at registered
    · cases registered
    · exact w.routes registered
  · intro p q
    simp only [Linked, address, route]
    constructor
    · rintro ⟨c, at_q, registered⟩
      split at registered
      · cases registered
      · rename_i elsewhere
        refine ⟨⟨c, at_q, registered⟩, ?_⟩
        rintro ⟨rfl, rfl⟩
        exact elsewhere ⟨rfl, Option.some.inj (at_q.symm.trans there)⟩
    · rintro ⟨⟨c, at_q, registered⟩, other⟩
      refine ⟨c, at_q, ?_⟩
      rw [if_neg]
      · exact registered
      · rintro ⟨rfl, rfl⟩
        exact other ⟨rfl, (w.distinct there at_q).symm⟩

/-! ## Links -/

/-- A link joins both ends at once. -/
theorem rewires_link (w : f.Wired) (hi : i < f.size) (hj : j < f.size) :
    ∃ g, link i j f = .ok g ∧
      Rewires f g fun p q => if s(p, q) = s(i, j) then True else f.Linked p q := by
  obtain ⟨x, here, at_i⟩ := exists_endpoint hi
  obtain ⟨y, there, at_j⟩ := exists_endpoint hj
  have first := rewires_register w hi at_j
  have second := rewires_register first.wired (first.size ▸ hj)
    ((address?_of_bare first.bare i).trans at_i)
  refine ⟨_, by rw [link, endpoint_ok here, endpoint_ok there]; rfl, ?_⟩
  apply (first.trans second).congr
  intro p q
  have pair : s(p, q) = s(i, j) ↔ p = i ∧ q = j ∨ p = j ∧ q = i := Sym2.eq_iff
  rw [first.linked]
  split <;> tauto

theorem rewires_unlink (w : f.Wired) (hi : i < f.size) (hj : j < f.size) :
    ∃ g, unlink i j f = .ok g ∧
      Rewires f g fun p q => if s(p, q) = s(i, j) then False else f.Linked p q := by
  obtain ⟨x, here, at_i⟩ := exists_endpoint hi
  obtain ⟨y, there, at_j⟩ := exists_endpoint hj
  have first := rewires_forget (i := i) w at_j
  have second := rewires_forget (i := j) first.wired
    ((address?_of_bare first.bare i).trans at_i)
  refine ⟨_, by rw [unlink, endpoint_ok here, endpoint_ok there]; rfl, ?_⟩
  apply (first.trans second).congr
  intro p q
  have pair : s(p, q) = s(i, j) ↔ p = i ∧ q = j ∨ p = j ∧ q = i := Sym2.eq_iff
  rw [first.linked]
  split <;> tauto

/-- Joining one way is for endpoints that are both not detached. -/
theorem rewires_joinOneWay (w : f.Wired) (hi : i < f.size) (hj : j < f.size) :
    Rewires f (joinOneWay i j f) fun p q =>
      f.Linked p q ∨ (p = i ∧ q = j) ∧ i ∉ f.detached ∧ j ∉ f.detached := by
  by_cases out : i ∈ f.detached ∨ j ∈ f.detached
  · have same : joinOneWay i j f = f := by simp [joinOneWay, out]
    rw [same]
    apply (Rewires.refl w).congr
    intro p q
    tauto
  · obtain ⟨y, there, at_j⟩ := exists_endpoint hj
    have joined : joinOneWay i j f = f.update i (·.register y.address (.inside j)) := by
      simp [joinOneWay, out, there]
    rw [joined]
    apply (rewires_register w hi at_j).congr
    intro p q
    tauto

/-! ## Many links -/

/-- Changes of the pairs of `i` with others, one after the other: `value` is what becomes of a
pair. -/
theorem rewires_foldlM {change : Nat → Fabric → Except Fault Fabric} {value : Prop}
    (one : ∀ {f : Fabric} {j}, f.Wired → i < f.size → j < f.size → ∃ g, change j f = .ok g ∧
      Rewires f g fun p q => if s(p, q) = s(i, j) then value else f.Linked p q)
    (w : f.Wired) (hi : i < f.size) {js : List Nat} (inside : ∀ j ∈ js, j < f.size) :
    ∃ g, js.foldlM (fun f j => change j f) f = .ok g ∧
      Rewires f g fun p q => if ∃ j ∈ js, s(p, q) = s(i, j) then value else f.Linked p q := by
  induction js generalizing f with
  | nil => exact ⟨f, rfl, (Rewires.refl w).congr (by simp)⟩
  | cons j js ih =>
    obtain ⟨g, done, first⟩ := one w hi (inside j List.mem_cons_self)
    obtain ⟨h, rest, second⟩ := ih first.wired (first.size ▸ hi)
      (fun k hk => first.size ▸ inside k (List.mem_cons_of_mem j hk))
    refine ⟨h, ?_, ?_⟩
    · rw [List.foldlM_cons, done]
      exact rest
    · apply (first.trans second).congr
      intro p q
      rw [first.linked]
      by_cases later : ∃ k ∈ js, s(p, q) = s(i, k)
      · have sooner : ∃ k ∈ j :: js, s(p, q) = s(i, k) := by
          obtain ⟨k, hk, pair⟩ := later
          exact ⟨k, List.mem_cons_of_mem j hk, pair⟩
        rw [if_pos later, if_pos sooner]
      · by_cases now : s(p, q) = s(i, j)
        · rw [if_neg later, if_pos now, if_pos ⟨j, List.mem_cons_self, now⟩]
        · have never : ¬∃ k ∈ j :: js, s(p, q) = s(i, k) := by
            rintro ⟨k, hk, pair⟩
            rcases List.mem_cons.mp hk with rfl | hk
            · exact now pair
            · exact later ⟨k, hk, pair⟩
          rw [if_neg later, if_neg now, if_neg never]

/-- The pairs of `i` with others that are not skipped. -/
theorem exists_other_iff {size : Nat} {skip : Nat → Bool} :
    (∃ j ∈ (List.range size).filter (fun j => j ≠ i && !skip j), s(p, q) = s(i, j)) ↔
      p ≠ q ∧ (p = i ∧ q < size ∧ skip q = false ∨ q = i ∧ p < size ∧ skip p = false) := by
  simp only [List.mem_filter, List.mem_range, Bool.and_eq_true, decide_eq_true_eq,
    Bool.not_eq_true', Sym2.eq_iff]
  constructor
  · rintro ⟨j, ⟨inside, other, unskipped⟩, ⟨rfl, rfl⟩ | ⟨rfl, rfl⟩⟩
    · exact ⟨Ne.symm other, Or.inl ⟨rfl, inside, unskipped⟩⟩
    · exact ⟨other, Or.inr ⟨rfl, inside, unskipped⟩⟩
  · rintro ⟨distinct, ⟨rfl, inside, unskipped⟩ | ⟨rfl, inside, unskipped⟩⟩
    · exact ⟨q, ⟨inside, Ne.symm distinct, unskipped⟩, Or.inl ⟨rfl, rfl⟩⟩
    · exact ⟨p, ⟨inside, distinct, unskipped⟩, Or.inr ⟨rfl, rfl⟩⟩

/-- All pairs of `i` with others that are not skipped. -/
theorem rewires_withOthers (change : Nat → Fabric → Except Fault Fabric) (value : Prop)
    (skip : Nat → Bool)
    (one : ∀ {f : Fabric} {j}, f.Wired → i < f.size → j < f.size → ∃ g, change j f = .ok g ∧
      Rewires f g fun p q => if s(p, q) = s(i, j) then value else f.Linked p q)
    (w : f.Wired) (hi : i < f.size) :
    ∃ g, withOthers i skip change f = .ok g ∧ Rewires f g fun p q =>
      if p ≠ q ∧ (p = i ∧ q < f.size ∧ skip q = false ∨ q = i ∧ p < f.size ∧ skip p = false)
      then value else f.Linked p q := by
  simp only [← exists_other_iff]
  apply rewires_foldlM one w hi
  intro j hj
  exact List.mem_range.mp (List.mem_filter.mp hj).1

/-- Joining pairs one way, one after the other. -/
theorem rewires_foldl_joinOneWay (w : f.Wired) (pairs : List (Nat × Nat))
    (inside : ∀ x ∈ pairs, x.1 < f.size ∧ x.2 < f.size) :
    Rewires f (pairs.foldl (fun f x => joinOneWay x.1 x.2 f) f) fun p q =>
      f.Linked p q ∨ (p, q) ∈ pairs ∧ p ∉ f.detached ∧ q ∉ f.detached := by
  induction pairs generalizing f with
  | nil => exact (Rewires.refl w).congr (by simp)
  | cons x pairs ih =>
    obtain ⟨hi, hj⟩ := inside x List.mem_cons_self
    have first := rewires_joinOneWay w hi hj
    have second := ih first.wired
      (fun y hy => first.size ▸ inside y (List.mem_cons_of_mem x hy))
    apply (first.trans second).congr
    intro p q
    rw [first.linked, first.detached, List.mem_cons, Prod.ext_iff]
    constructor
    · rintro ((old | ⟨⟨rfl, rfl⟩, kept⟩) | ⟨later, kept⟩)
      · exact Or.inl old
      · exact Or.inr ⟨Or.inl ⟨rfl, rfl⟩, kept⟩
      · exact Or.inr ⟨Or.inr later, kept⟩
    · rintro (old | ⟨⟨rfl, rfl⟩ | later, kept⟩)
      · exact Or.inl (Or.inl old)
      · exact Or.inl (Or.inr ⟨⟨rfl, rfl⟩, kept⟩)
      · exact Or.inr ⟨later, kept⟩

end Fabric

end QuorumLab
