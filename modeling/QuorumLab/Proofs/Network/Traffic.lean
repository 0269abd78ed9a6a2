import Mathlib.Algebra.GroupWithZero.Nat
import QuorumLab.Proofs.Network.Topology

/-!
# Messages are conserved

Beside a fabric a record is kept of all that was sent and received. Whatever links are cut and
restored, what an endpoint received and what is still in its inbox are the messages that were
sent to it while it could be reached and none were lost, in the order they were sent.
-/

namespace QuorumLab

/-- One use of `send`, with what it found. -/
structure Sending where
  sender : Nat
  address : String
  message : Message
  /-- Whether the sender had the address registered. -/
  registered : Bool
  /-- Whether the drop rate was 0. -/
  lossless : Bool
  deriving Repr, DecidableEq

namespace Sending

def arrives (x : Sending) : Bool := x.registered && x.lossless

/-- The messages that arrived at an address, in the order they were sent. -/
def arrivals (sends : List Sending) (address : String) : List Message :=
  (sends.filter fun x => x.arrives && x.address == address).map Sending.message

end Sending

/-- What is done with a fabric. -/
inductive Use where
  | call (c : Fabric.Call)
  | setDropRate (rate : Float)
  | send (i : Nat) (address : String) (m : Message) (draw : Float)
  | receive (i : Nat)

/-- A fabric with the record of what was sent, and of which endpoint received what. -/
structure Traffic where
  fabric : Fabric := {}
  sends : List Sending := []
  received : List (Nat × Message) := []

namespace Traffic

def receivedAt (received : List (Nat × Message)) (j : Nat) : List Message :=
  (received.filter (·.1 == j)).map Prod.snd

/-- Endpoints of the fabric send and receive; of the messages all are lost, or none. -/
def Admits (s : Traffic) : Use → Prop
  | .call c => c.Valid s.fabric
  | .setDropRate rate => rate = 0.0 ∨ rate = 1.0
  | .send i _ _ draw => i < s.fabric.size ∧ draw < 1.0
  | .receive i => i < s.fabric.size

def after (s : Traffic) : Use → Traffic
  | .call c => { s with fabric := (s.fabric.perform c).2 }
  | .setDropRate rate =>
    match s.fabric.setDropRate rate with
    | .ok fabric => { s with fabric }
    | .error _ => s
  | .send i address message draw =>
    let registered := (s.fabric.route? i address).isSome
    let lossless := decide (s.fabric.dropRate = 0.0)
    { s with
      fabric := (s.fabric.send (.inside i) address message draw).2
      sends := s.sends ++ [{ sender := i, address, message, registered, lossless }] }
  | .receive i =>
    let (message, fabric) := s.fabric.receive (.inside i)
    { s with fabric, received := s.received ++ (message.map (i, ·)).toList }

end Traffic

def traffic : System Traffic Use := ⟨Traffic.Admits, Traffic.after⟩

instance (s : Traffic) : ∀ v, Decidable (traffic.admits s v)
  | .call c => inferInstanceAs (Decidable (c.Valid s.fabric))
  | .setDropRate rate => inferInstanceAs (Decidable (rate = 0.0 ∨ rate = 1.0))
  | .send i _ _ draw => inferInstanceAs (Decidable (i < s.fabric.size ∧ draw < 1.0))
  | .receive i => inferInstanceAs (Decidable (i < s.fabric.size))

variable {f g : Fabric} {es : List Endpoint} {e : Endpoint} {sends : List Sending} {x : Sending}
  {received : List (Nat × Message)} {m : Message} {i q : Nat}

/-! ## The books -/

theorem sum_map_modify {α : Type} {l : List α} {a : α} (count : α → Nat) (change : α → α)
    (here : l[i]? = some a) :
    ((l.modify i change).map count).sum + count a = (l.map count).sum + count (change a) := by
  induction l generalizing i with
  | nil => cases here
  | cons b l ih =>
    cases i with
    | zero =>
      cases here
      simp only [List.modify_zero_cons, List.map_cons, List.sum_cons]
      omega
    | succ i =>
      have rest := ih (i := i) here
      simp only [List.modify_succ_cons, List.map_cons, List.sum_cons]
      omega

namespace Sending

theorem arrivals_snoc (sends : List Sending) (x : Sending) (address : String) :
    arrivals (sends ++ [x]) address = arrivals sends address ++
      if x.arrives && x.address == address then [x.message] else [] := by
  simp only [arrivals, List.filter_append, List.map_append, List.filter_cons, List.filter_nil]
  split <;> rfl

theorem arrivals_eq_nil {address : String}
    (unknown : ∀ x ∈ sends, x.registered = true → x.address ≠ address) :
    arrivals sends address = [] := by
  rw [arrivals, List.map_eq_nil_iff, List.filter_eq_nil_iff]
  intro x hx arrived
  simp only [arrives, Bool.and_eq_true, beq_iff_eq] at arrived
  exact unknown x hx arrived.1.1 arrived.2

end Sending

/-- There is nothing to take out of an empty inbox. -/
theorem Endpoint.receive_of_nil (empty : e.inbox = []) : e.receive.2 = e := by
  cases e
  cases empty
  rfl

namespace Traffic

theorem receivedAt_snoc (received : List (Nat × Message)) (r : Nat × Message) (j : Nat) :
    receivedAt (received ++ [r]) j = receivedAt received j ++ if r.1 == j then [r.2] else [] := by
  simp only [receivedAt, List.filter_append, List.map_append, List.filter_cons, List.filter_nil]
  split <;> rfl

end Traffic

/-- The counters and the inbox of the endpoint at `i` are what the record says. -/
structure Page (sends : List Sending) (received : List (Nat × Message)) (i : Nat)
    (e : Endpoint) : Prop where
  live : e.live = true
  sent : e.sent = sends.countP fun x => x.sender == i && x.arrives
  dropped : e.dropped = sends.countP fun x => x.sender == i && !x.arrives
  queued : Traffic.receivedAt received i ++ e.inbox = Sending.arrivals sends e.address

namespace Page

theorem bare_iff : Page sends received i e.bare ↔ Page sends received i e :=
  ⟨fun p => ⟨p.live, p.sent, p.dropped, p.queued⟩, fun p => ⟨p.live, p.sent, p.dropped, p.queued⟩⟩

/-- One more send. -/
theorem snoc {e' : Endpoint} (p : Page sends received i e) (x : Sending)
    (live : e'.live = e.live) (address : e'.address = e.address)
    (sent : e'.sent = e.sent + if x.sender == i && x.arrives then 1 else 0)
    (dropped : e'.dropped = e.dropped + if x.sender == i && !x.arrives then 1 else 0)
    (inbox : e'.inbox = e.inbox ++
      if x.arrives && x.address == e.address then [x.message] else []) :
    Page (sends ++ [x]) received i e' where
  live := live.trans p.live
  sent := by rw [sent, p.sent, List.countP_append, List.countP_singleton]
  dropped := by rw [dropped, p.dropped, List.countP_append, List.countP_singleton]
  queued := by rw [inbox, address, Sending.arrivals_snoc, ← p.queued, List.append_assoc]

end Page

/-- The books of all endpoints. What was received was counted as sent. -/
structure Books (sends : List Sending) (received : List (Nat × Message)) (es : List Endpoint) :
    Prop where
  page : ∀ i e, es[i]? = some e → Page sends received i e
  total : (es.map Endpoint.sent).sum = received.length + (es.map (·.inbox.length)).sum
  senders : ∀ x ∈ sends, x.sender < es.length
  addresses : ∀ x ∈ sends, x.registered = true → x.address ∈ es.map Endpoint.address
  receivers : ∀ r ∈ received, r.1 < es.length

namespace Books

theorem empty : Books [] [] [] where
  page _ _ here := nomatch here
  total := rfl
  senders _ here := nomatch here
  addresses _ here := nomatch here
  receivers _ here := nomatch here

/-- An endpoint that nothing happened to has an empty page. -/
theorem blank {id : Nat} {address : String} (b : Books sends received es)
    (new : address ∉ es.map Endpoint.address) (past : es.length ≤ i) :
    Page sends received i { id, address } := by
  have none_made : ∀ p : Sending → Bool, sends.countP (fun x => x.sender == i && p x) = 0 := by
    intro p
    rw [List.countP_eq_zero]
    intro x hx mine
    have sender := b.senders x hx
    rw [Bool.and_eq_true, beq_iff_eq] at mine
    omega
  have none_received : Traffic.receivedAt received i = [] := by
    rw [Traffic.receivedAt, List.map_eq_nil_iff, List.filter_eq_nil_iff]
    intro r hr mine
    have receiver := b.receivers r hr
    rw [beq_iff_eq] at mine
    omega
  have none_arrived : Sending.arrivals sends address = [] := by
    apply Sending.arrivals_eq_nil
    rintro x hx registered rfl
    exact new (b.addresses x hx registered)
  refine ⟨rfl, (none_made _).symm, (none_made _).symm, ?_⟩
  rw [none_received, none_arrived]
  rfl

/-- Calls that change the topology are not in the books, but for newcomers. -/
theorem follow {c : Fabric.Call} (b : Books sends received f.endpoints)
    (follows : Fabric.Follows f g c)
    (new : ∀ e ∈ c.newcomers, e.address ∉ f.endpoints.map Endpoint.address) :
    Books sends received g.endpoints := by
  have length := congrArg List.length (follows.map Endpoint.id fun _ => rfl)
  simp only [List.length_append, List.length_map] at length
  have no_more : ∀ count : Endpoint → Nat, (∀ e : Endpoint, count e.bare = count e) →
      (∀ id address, count { id, address } = 0) →
      (g.endpoints.map count).sum = (f.endpoints.map count).sum := by
    intro count keeps zero
    have nothing : (c.newcomers.map count).sum = 0 := by
      cases c with
      | add id address => exact zero id address
      | _ => rfl
    rw [follows.map count keeps, List.sum_append, nothing, Nat.add_zero]
  constructor
  case page =>
    intro i e here
    have there : (f.endpoints.map Endpoint.bare ++ c.newcomers)[i]? = some e.bare := by
      rw [← follows.bare, List.getElem?_map, here]
      rfl
    rw [← Page.bare_iff]
    by_cases old : i < f.endpoints.length
    · rw [List.getElem?_append_left (by rwa [List.length_map]), List.getElem?_map] at there
      obtain ⟨e₀, here₀, same⟩ := Option.map_eq_some_iff.mp there
      rw [← same, Page.bare_iff]
      exact b.page i e₀ here₀
    · have past : f.endpoints.length ≤ i := Nat.le_of_not_lt old
      rw [List.getElem?_append_right (by rwa [List.length_map])] at there
      have newcomer := List.mem_of_getElem? there
      have fresh := new e.bare newcomer
      obtain ⟨id, address, blank⟩ := Fabric.Call.newcomers_blank newcomer
      rw [blank] at fresh ⊢
      exact b.blank fresh past
  case total =>
    rw [no_more Endpoint.sent (fun _ => rfl) (fun _ _ => rfl),
      no_more (·.inbox.length) (fun _ => rfl) (fun _ _ => rfl)]
    exact b.total
  case senders =>
    intro x hx
    have := b.senders x hx
    omega
  case addresses =>
    intro x hx registered
    rw [follows.map Endpoint.address fun _ => rfl]
    exact List.mem_append_left _ (b.addresses x hx registered)
  case receivers =>
    intro r hr
    have := b.receivers r hr
    omega

/-- The record after one more send, when the page of every endpoint is right. -/
theorem snoc {es' : List Endpoint} (b : Books sends received es) (inside : x.sender < es.length)
    (known : x.registered = true → x.address ∈ es.map Endpoint.address)
    (same : es'.map Endpoint.address = es.map Endpoint.address)
    (page : ∀ i e, es'[i]? = some e → Page (sends ++ [x]) received i e)
    (total : (es'.map Endpoint.sent).sum =
      received.length + (es'.map (·.inbox.length)).sum) :
    Books (sends ++ [x]) received es' := by
  have length : es'.length = es.length := by
    rw [← List.length_map Endpoint.address, same, List.length_map]
  refine ⟨page, total, ?_, ?_, ?_⟩
  · intro y hy
    rw [length]
    rcases List.mem_append.mp hy with old | new
    · exact b.senders y old
    · rwa [List.mem_singleton.mp new]
  · intro y hy registered
    rw [same]
    rcases List.mem_append.mp hy with old | new
    · exact b.addresses y old registered
    · rw [List.mem_singleton.mp new] at registered ⊢
      exact known registered
  · intro r hr
    rw [length]
    exact b.receivers r hr

/-- A send of which nothing arrives is counted as dropped by its sender. -/
theorem drop (b : Books sends received es) (inside : x.sender < es.length)
    (lost : x.arrives = false)
    (known : x.registered = true → x.address ∈ es.map Endpoint.address) :
    Books (sends ++ [x]) received (es.modify x.sender Endpoint.countDropped) := by
  apply b.snoc inside known
    (map_modify Endpoint.address Endpoint.countDropped (fun _ => rfl) es x.sender)
  · intro k e' here'
    obtain ⟨e, here, rfl⟩ := getElem?_modify_eq_some here'
    by_cases mine : x.sender = k
    · apply (b.page k e here).snoc x <;> simp [Endpoint.countDropped, lost, mine]
    · apply (b.page k e here).snoc x <;> simp [lost, mine]
  · rw [map_modify Endpoint.sent Endpoint.countDropped fun _ => rfl,
      map_modify (·.inbox.length) Endpoint.countDropped fun _ => rfl]
    exact b.total

/-- A send that arrives is counted as sent by its sender, and waits at the one endpoint that has
the address. -/
theorem deliver (b : Books sends received es) (inside : x.sender < es.length)
    (arrived : x.arrives = true) (there : es[q]? = some e) (address : e.address = x.address)
    (only : ∀ k e, es[k]? = some e → e.address = x.address → k = q) :
    Books (sends ++ [x]) received
      ((es.modify q (·.deliver x.message)).modify x.sender Endpoint.countSent) := by
  let mid := es.modify q (·.deliver x.message)
  have known : x.address ∈ es.map Endpoint.address :=
    address ▸ List.mem_map_of_mem (List.mem_of_getElem? there)
  have same : (mid.modify x.sender Endpoint.countSent).map Endpoint.address =
      es.map Endpoint.address :=
    (map_modify Endpoint.address Endpoint.countSent (fun _ => rfl) mid x.sender).trans
      (map_modify Endpoint.address (·.deliver x.message) (fun _ => rfl) es q)
  apply b.snoc inside (fun _ => known) same
  · intro k e' here'
    obtain ⟨e₁, here₁, rfl⟩ := getElem?_modify_eq_some here'
    obtain ⟨e₀, here₀, rfl⟩ := getElem?_modify_eq_some here₁
    by_cases hit : q = k
    · subst hit
      cases there.symm.trans here₀
      by_cases mine : x.sender = q
      · apply (b.page q e here₀).snoc x <;>
          simp [Endpoint.countSent, Endpoint.deliver, arrived, address, mine]
      · apply (b.page q e here₀).snoc x <;>
          simp [Endpoint.deliver, arrived, address, mine]
    · have other : x.address ≠ e₀.address :=
        fun same => hit (only k e₀ here₀ same.symm).symm
      by_cases mine : x.sender = k
      · apply (b.page k e₀ here₀).snoc x <;>
          simp [Endpoint.countSent, arrived, other, mine, hit]
      · apply (b.page k e₀ here₀).snoc x <;> simp [arrived, other, mine, hit]
  · have length : mid.length = es.length := List.length_modify _ _ _
    obtain ⟨e₁, sender⟩ : ∃ e₁, mid[x.sender]? = some e₁ :=
      ⟨_, List.getElem?_eq_getElem (length.symm ▸ inside)⟩
    have counted : ((mid.modify x.sender Endpoint.countSent).map Endpoint.sent).sum + e₁.sent =
        (mid.map Endpoint.sent).sum + (e₁.sent + 1) :=
      sum_map_modify Endpoint.sent Endpoint.countSent sender
    have grown : (mid.map (·.inbox.length)).sum + e.inbox.length =
        (es.map (·.inbox.length)).sum + (e.inbox ++ [x.message]).length :=
      sum_map_modify (·.inbox.length) (·.deliver x.message) there
    have sent : mid.map Endpoint.sent = es.map Endpoint.sent :=
      map_modify Endpoint.sent (·.deliver x.message) (fun _ => rfl) es q
    have total := b.total
    rw [sent] at counted
    rw [List.length_append, List.length_singleton] at grown
    rw [map_modify (·.inbox.length) Endpoint.countSent fun _ => rfl]
    omega

/-- What is received is the head of the inbox. -/
theorem receive {rest : List Message} (b : Books sends received es) (here : es[i]? = some e)
    (inbox : e.inbox = m :: rest) :
    Books sends (received ++ [(i, m)]) (es.modify i fun e => e.receive.2) := by
  have inside := (List.getElem?_eq_some_iff.mp here).1
  constructor
  case page =>
    intro k e' here'
    obtain ⟨e₀, here₀, rfl⟩ := getElem?_modify_eq_some here'
    have page := b.page k e₀ here₀
    have queued := page.queued
    by_cases mine : i = k
    · subst mine
      cases here.symm.trans here₀
      rw [if_pos rfl]
      refine ⟨page.live, page.sent, page.dropped, ?_⟩
      rw [inbox] at queued
      simpa [Endpoint.receive, Traffic.receivedAt_snoc, inbox] using queued
    · rw [if_neg mine]
      refine ⟨page.live, page.sent, page.dropped, ?_⟩
      simpa [Traffic.receivedAt_snoc, mine] using queued
  case total =>
    have shrunk := sum_map_modify (·.inbox.length) (fun e => e.receive.2) here
    have total := b.total
    rw [map_modify Endpoint.sent (fun e => e.receive.2) fun _ => rfl]
    simp only [Endpoint.receive, inbox, List.drop_one, List.tail_cons, List.length_cons,
      List.length_append, List.length_nil] at shrunk ⊢
    omega
  case senders =>
    intro x hx
    rw [List.length_modify]
    exact b.senders x hx
  case addresses =>
    intro x hx registered
    rw [map_modify Endpoint.address (fun e => e.receive.2) fun _ => rfl]
    exact b.addresses x hx registered
  case receivers =>
    intro r hr
    rw [List.length_modify]
    rcases List.mem_append.mp hr with old | new
    · exact b.receivers r old
    · rwa [List.mem_singleton.mp new]

end Books

/-! ## One use -/

namespace Fabric

/-- With all messages lost or none there are three ways for a send to end. -/
theorem send_cases {a : String} {draw : Float} (w : f.Wired)
    (live : ∀ (k : Nat) (e : Endpoint), f.endpoints[k]? = some e → e.live = true)
    (rate : f.dropRate = 0.0 ∨ f.dropRate = 1.0) (drawn : draw < 1.0) :
    (f.route? i a = none ∧
      f.send (.inside i) a m draw = (.error (.unreachable a), f.update i Endpoint.countDropped)) ∨
    ∃ q e, f.route? i a = some (.inside q) ∧ f.endpoints[q]? = some e ∧ e.address = a ∧
      (f.dropRate = 1.0 ∧
          f.send (.inside i) a m draw = (.ok (), f.update i Endpoint.countDropped) ∨
        f.dropRate = 0.0 ∧ f.send (.inside i) a m draw =
          (.ok (), (f.update q (·.deliver m)).update i Endpoint.countSent)) := by
  have asked : (f.endpoint? (.inside i)).bind (·.route? a) = f.route? i a := rfl
  cases route : f.route? i a with
  | none =>
    refine Or.inl ⟨rfl, ?_⟩
    rw [send, asked, route]
    rfl
  | some site =>
    obtain ⟨q, rfl, address⟩ := w.routes route
    obtain ⟨e, there, rfl⟩ := Option.map_eq_some_iff.mp address
    refine Or.inr ⟨q, e, rfl, there, rfl, ?_⟩
    rw [send, asked, route]
    rcases rate with none_lost | all_lost
    · have kept : f.loses (.inside i) draw = false := by
        have low : decide ((0.0 : Float) < 0.0) = false := by decide
        rw [loses, none_lost, low, Bool.false_and]
      have reached : ((f.endpoint? (.inside q)).map Endpoint.live).getD false = true := by
        rw [endpoint?, there]
        exact live q e there
      refine Or.inr ⟨none_lost, ?_⟩
      simp only [kept, reached]
      rfl
    · have lost : f.loses (.inside i) draw = true := by
        have high : decide ((0.0 : Float) < 1.0) = true := by decide
        rw [loses, all_lost, high, Bool.true_and, decide_eq_true drawn]
      refine Or.inl ⟨all_lost, ?_⟩
      simp only [lost]
      rfl

theorem setDropRate_ok {rate : Float} (extreme : rate = 0.0 ∨ rate = 1.0) :
    f.setDropRate rate = .ok { f with dropRate := rate } := by
  rcases extreme with rfl | rfl
  · exact if_pos (by decide)
  · exact if_pos (by decide)

end Fabric

namespace Traffic

variable {s : Traffic} {v : Use}

/-- The fabric is the one of a topology, and the books are right. -/
structure Accounted (s : Traffic) : Prop where
  represents : ∃ t, s.fabric.Represents t
  rate : s.fabric.dropRate = 0.0 ∨ s.fabric.dropRate = 1.0
  books : Books s.sends s.received s.fabric.endpoints

/-- Neither what was sent nor an endpoint is forgotten. -/
structure Extends (s s' : Traffic) : Prop where
  sends : s.sends <+: s'.sends
  size : s.fabric.size ≤ s'.fabric.size

theorem Extends.trans {s₁ s₂ s₃ : Traffic} (first : Extends s₁ s₂) (second : Extends s₂ s₃) :
    Extends s₁ s₃ :=
  ⟨first.sends.trans second.sends, first.size.trans second.size⟩

namespace Accounted

theorem empty : Accounted {} := ⟨⟨{}, Fabric.Represents.empty⟩, Or.inl rfl, Books.empty⟩

theorem call {c : Fabric.Call} (h : Accounted s) (valid : c.Valid s.fabric) :
    Accounted (s.after (.call c)) ∧ Extends s (s.after (.call c)) := by
  obtain ⟨t, r⟩ := h.represents
  obtain ⟨g, done, r', follows⟩ := r.after valid
  have here : s.after (.call c) = { s with fabric := g } := by rw [after, done]
  have size := congrArg List.length (follows.map Endpoint.id fun _ => rfl)
  simp only [List.length_append, List.length_map] at size
  rw [here]
  refine ⟨⟨⟨_, r'⟩, ?_, h.books.follow follows valid.2⟩, List.prefix_refl _, ?_⟩
  · rw [follows.dropRate]
    exact h.rate
  · exact Nat.le.intro size.symm

theorem setDropRate {rate : Float} (h : Accounted s) (extreme : rate = 0.0 ∨ rate = 1.0) :
    Accounted (s.after (.setDropRate rate)) ∧ Extends s (s.after (.setDropRate rate)) := by
  obtain ⟨t, r⟩ := h.represents
  have here : s.after (.setDropRate rate) =
      { s with fabric := { s.fabric with dropRate := rate } } := by
    rw [after, Fabric.setDropRate_ok extreme]
  rw [here]
  exact ⟨⟨⟨t, r.withRate rate⟩, extreme, h.books⟩, List.prefix_refl _, Nat.le_refl _⟩

theorem send {a : String} {draw : Float} (h : Accounted s) (inside : i < s.fabric.size)
    (drawn : draw < 1.0) :
    Accounted (s.after (.send i a m draw)) ∧ Extends s (s.after (.send i a m draw)) := by
  obtain ⟨t, r⟩ := h.represents
  rcases Fabric.send_cases (i := i) (a := a) (m := m) r.wired
    (fun k e here => (h.books.page k e here).live) h.rate drawn with
    ⟨route, sent⟩ | ⟨q, e, route, there, rfl, ⟨rate, sent⟩ | ⟨rate, sent⟩⟩
  · simp only [after, sent, route]
    refine ⟨⟨⟨t, r.update i _ (fun _ => rfl) (fun _ => rfl)⟩, h.rate, ?_⟩,
      List.prefix_append _ _, Nat.le_of_eq (List.length_modify _ _ _).symm⟩
    exact h.books.drop inside rfl (fun registered => by cases registered)
  · simp only [after, sent, route]
    refine ⟨⟨⟨t, r.update i _ (fun _ => rfl) (fun _ => rfl)⟩, h.rate, ?_⟩,
      List.prefix_append _ _, Nat.le_of_eq (List.length_modify _ _ _).symm⟩
    refine h.books.drop inside ?_ fun _ => List.mem_map_of_mem (List.mem_of_getElem? there)
    have lossy : decide ((1.0 : Float) = 0.0) = false := by decide
    rw [Sending.arrives, rate, lossy]
    rfl
  · simp only [after, sent, route]
    have delivered := r.update q (·.deliver m) (fun _ => rfl) (fun _ => rfl)
    have counted := delivered.update i Endpoint.countSent (fun _ => rfl) (fun _ => rfl)
    refine ⟨⟨⟨t, counted⟩, h.rate, ?_⟩, List.prefix_append _ _, ?_⟩
    · refine h.books.deliver (e := e) inside ?_ there rfl ?_
      · have lossless : decide ((0.0 : Float) = 0.0) = true := by decide
        rw [Sending.arrives, rate, lossless]
        rfl
      · intro k e' here same
        apply r.wired.distinct (a := e.address)
        · rw [Fabric.address?, here]
          exact congrArg some same
        · rw [Fabric.address?, there]
          rfl
    · simp only [Fabric.size, Fabric.update, List.length_modify]
      exact Nat.le_refl _

theorem receive (h : Accounted s) (inside : i < s.fabric.size) :
    Accounted (s.after (.receive i)) ∧ Extends s (s.after (.receive i)) := by
  obtain ⟨t, r⟩ := h.represents
  obtain ⟨e, here⟩ : ∃ e, s.fabric.endpoints[i]? = some e :=
    ⟨_, List.getElem?_eq_getElem inside⟩
  have taken : s.after (.receive i) = { s with
      fabric := s.fabric.update i fun e => e.receive.2
      received := s.received ++ (e.inbox.head?.map (i, ·)).toList } := by
    simp only [after, Fabric.receive, Fabric.endpoint?, here]
    rfl
  rw [taken]
  refine ⟨⟨⟨t, r.update i _ (fun _ => rfl) (fun _ => rfl)⟩, h.rate, ?_⟩, List.prefix_refl _,
    Nat.le_of_eq (List.length_modify _ _ _).symm⟩
  cases inbox : e.inbox with
  | nil =>
    have nothing : s.fabric.endpoints.modify i (fun e => e.receive.2) = s.fabric.endpoints := by
      apply List.ext_getElem?
      intro k
      rw [List.getElem?_modify]
      by_cases mine : i = k
      · subst mine
        simp [here, Endpoint.receive_of_nil inbox]
      · simp [mine]
    simp only [Fabric.update, nothing, List.head?_nil, Option.map_none, Option.toList_none,
      List.append_nil]
    exact h.books
  | cons m rest => exact h.books.receive here inbox

theorem after (h : Accounted s) (admitted : traffic.admits s v) :
    Accounted (traffic.after s v) ∧ Extends s (traffic.after s v) := by
  cases v with
  | call c => exact h.call admitted
  | setDropRate rate => exact h.setDropRate admitted
  | send i a m draw => exact h.send admitted.1 admitted.2
  | receive i => exact h.receive admitted

theorem play (h : Accounted s) {vs : List Use} (admitted : traffic.AdmitsAll s vs) :
    Accounted (traffic.play s vs) ∧ Extends s (traffic.play s vs) := by
  induction vs generalizing s with
  | nil => exact ⟨h, List.prefix_refl _, Nat.le_refl _⟩
  | cons v vs ih =>
    obtain ⟨accounted, first⟩ := h.after admitted.1
    obtain ⟨accounted', second⟩ := ih accounted admitted.2
    exact ⟨accounted', first.trans second⟩

/-- Both counters count sends, of which none is forgotten. -/
theorem counters_le {s' : Traffic} (h : Accounted s) (h' : Accounted s') (grown : Extends s s')
    (here : s.fabric.endpoints[i]? = some e) :
    ∃ e', s'.fabric.endpoints[i]? = some e' ∧ e.sent ≤ e'.sent ∧ e.dropped ≤ e'.dropped := by
  have inside := (List.getElem?_eq_some_iff.mp here).1
  have there := List.getElem?_eq_getElem (Nat.lt_of_lt_of_le inside grown.size)
  have page := h.books.page i e here
  have page' := h'.books.page i _ there
  refine ⟨_, there, ?_, ?_⟩
  · rw [page.sent, page'.sent]
    exact grown.sends.sublist.countP_le
  · rw [page.dropped, page'.dropped]
    exact grown.sends.sublist.countP_le

end Accounted

/-! ## Every run -/

/-- What a fabric can be held to by those who use it. -/
structure Conserved (s : Traffic) : Prop where
  refused : ∀ i e a m draw, s.fabric.endpoints[i]? = some e → draw < 1.0 →
    (s.fabric.send (.inside i) a m draw).1 =
        (if e.isConnected a then .ok () else .error (.unreachable a)) ∧
      (e.isConnected a = false → (s.fabric.send (.inside i) a m draw).2.endpoints.map
        Endpoint.inbox = s.fabric.endpoints.map Endpoint.inbox)
  counted : ∀ i e, s.fabric.endpoints[i]? = some e →
    e.sent + e.dropped = s.sends.countP (·.sender == i)
  queued : ∀ j e, s.fabric.endpoints[j]? = some e →
    receivedAt s.received j ++ e.inbox = Sending.arrivals s.sends e.address
  total : s.fabric.stats.1 =
    s.received.length + (s.fabric.endpoints.map (·.inbox.length)).sum
  untouched : ∀ c : Fabric.Call, c.Valid s.fabric →
    (s.fabric.perform c).2.endpoints.map Endpoint.inbox =
      s.fabric.endpoints.map Endpoint.inbox ++ c.newcomers.map fun _ => []

theorem Accounted.conserved (h : Accounted s) : Conserved s where
  refused i e a m draw here drawn := by
    obtain ⟨t, r⟩ := h.represents
    have asked : e.isConnected a = (s.fabric.route? i a).isSome := by
      rw [Fabric.route?, here]
      rfl
    rcases Fabric.send_cases (i := i) (a := a) (m := m) r.wired
      (fun k e here => (h.books.page k e here).live) h.rate drawn with
      ⟨route, sent⟩ | ⟨q, e', route, -, -, ⟨-, sent⟩ | ⟨-, sent⟩⟩
    · rw [asked, route, sent]
      refine ⟨rfl, fun _ => ?_⟩
      exact map_modify Endpoint.inbox Endpoint.countDropped (fun _ => rfl) _ i
    · rw [asked, route, sent]
      exact ⟨rfl, fun no => by cases no⟩
    · rw [asked, route, sent]
      exact ⟨rfl, fun no => by cases no⟩
  counted i e here := by
    have page := h.books.page i e here
    rw [page.sent, page.dropped,
      List.countP_eq_countP_filter_add s.sends (·.sender == i) Sending.arrives,
      List.countP_filter, List.countP_filter]
  queued j e here := (h.books.page j e here).queued
  total := by
    rw [← h.books.total, Fabric.stats, List.sum_eq_foldl, List.foldl_map]
  untouched c valid := by
    obtain ⟨t, r⟩ := h.represents
    obtain ⟨g, done, -, follows⟩ := r.after valid
    have empty : c.newcomers.map Endpoint.inbox = c.newcomers.map fun _ => [] := by
      apply List.map_congr_left
      intro e newcomer
      obtain ⟨id, address, rfl⟩ := Fabric.Call.newcomers_blank newcomer
      rfl
    rw [done, follows.map Endpoint.inbox fun _ => rfl, empty]

/-- However sends, receipts, losses and changes of the topology follow each other, no message
is lost, doubled or overtaken on its way, and the counters account for every send. -/
theorem messages_conserved (run : Reachable traffic {} s) :
    Conserved s ∧
    ∀ vs, traffic.AdmitsAll s vs → ∀ (i : Nat) (e : Endpoint),
      s.fabric.endpoints[i]? = some e →
      ∃ e' : Endpoint, (traffic.play s vs).fabric.endpoints[i]? = some e' ∧
        e.sent ≤ e'.sent ∧ e.dropped ≤ e'.dropped := by
  have h : Accounted s := run.invariant Accounted.empty fun h admitted => (h.after admitted).1
  refine ⟨h.conserved, ?_⟩
  intro vs admitted i e here
  obtain ⟨h', grown⟩ := h.play admitted
  exact h.counters_le h' grown here

/-- Of five messages one is received, one waits, and three were dropped: to an unknown address,
while all are lost, and with the link cut. -/
theorem messages_conserved_of_pair :
    let first : Message := { sender := 1, target := 2 }
    let last : Message := { sender := 1, target := 2, term := 1 }
    let vs : List Use := [.call (.add 1 "a"), .call (.add 2 "b"), .call .connectAll,
      .send 0 "b" first 0.25, .send 0 "c" first 0.25, .setDropRate 1.0, .send 0 "b" first 0.25,
      .setDropRate 0.0, .call (.disconnect 0 1), .send 0 "b" first 0.25, .receive 1,
      .call (.reconnect 0 1), .send 0 "b" last 0.25]
    let s := traffic.play {} vs
    Reachable traffic {} s ∧ s.received = [(1, first)] ∧
    (∃ e, s.fabric.endpoints[0]? = some e ∧ e.sent = 2 ∧ e.sent + e.dropped = 5) ∧
    (∃ e, s.fabric.endpoints[1]? = some e ∧ [first] ++ e.inbox = [first, last]) ∧
    s.fabric.stats.1 = 1 + 1 := by
  intro first last vs s
  have run : Reachable traffic {} s := System.reachable_play .start (by decide +kernel)
  have received : s.received = [(1, first)] := by decide +kernel
  have at_second : receivedAt s.received 1 = [first] := by decide +kernel
  have made : s.sends.countP (·.sender == 0) = 5 := by decide +kernel
  have arrived : Sending.arrivals s.sends "b" = [first, last] := by decide +kernel
  have sent : (s.fabric.endpoints[0]?).map Endpoint.sent = some 2 := by decide +kernel
  have address : (s.fabric.endpoints[1]?).map Endpoint.address = some "b" := by decide +kernel
  have waiting : (s.fabric.endpoints.map (·.inbox.length)).sum = 1 := by decide +kernel
  clear_value s
  obtain ⟨conserved, -⟩ := messages_conserved run
  obtain ⟨e₀, here, sent⟩ := Option.map_eq_some_iff.mp sent
  obtain ⟨e₁, there, address⟩ := Option.map_eq_some_iff.mp address
  have counted := conserved.counted 0 e₀ here
  have queued := conserved.queued 1 e₁ there
  rw [made] at counted
  rw [at_second, address, arrived] at queued
  refine ⟨run, received, ⟨e₀, here, sent, counted⟩, ⟨e₁, there, queued⟩, ?_⟩
  rw [conserved.total, received, waiting]
  rfl

end Traffic

end QuorumLab
