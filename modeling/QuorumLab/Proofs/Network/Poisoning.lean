import QuorumLab.Proofs.Network.Topology

/-!
# Faults under a lock

A call that faults leaves what it did until then, and poisons the locks it holds. Here the
calls are written out step by step, so that nothing takes back what was done before a fault. It
turns out that there is nothing to take back: an index is looked at before the first link is
changed, or not at all. A fault that poisons a lock poisons the one of the topology, and this
is the end of all changes to the links.
-/

namespace QuorumLab

/-- Something done to a fabric step by step. What was done before a fault stays done. -/
abbrev Deed := ExceptT Fault (StateM Fabric)

namespace Deed

variable {α β : Type}

/-! ## The calls, step by step -/

/-- Hold the lock of the topology. -/
def underTopology (body : Deed α) : Deed α := fun f =>
  if f.topologyPoisoned then (.error .poisoned, f)
  else match body f with
    | (.ok a, g) => (.ok a, g)
    | (.error fault, g) => (.error fault, { g with topologyPoisoned := true })

/-- Hold the lock of the detached set. -/
def underDetached (body : Deed α) : Deed α := fun f =>
  if f.detachedPoisoned then (.error .poisoned, f)
  else match body f with
    | (.ok a, g) => (.ok a, g)
    | (.error fault, g) => (.error fault, { g with detachedPoisoned := true })

def endpoint (i : Nat) : Deed Endpoint := fun f => (f.endpoint i, f)

def link (i j : Nat) : Deed Unit := do
  let a ← endpoint i
  let b ← endpoint j
  modify (·.update i (·.register b.address (.inside j)))
  modify (·.update j (·.register a.address (.inside i)))

def unlink (i j : Nat) : Deed Unit := do
  let a ← endpoint i
  let b ← endpoint j
  modify (·.update i (·.forget b.address))
  modify (·.update j (·.forget a.address))

/-- Do something with `i` and every other index, in ascending order. -/
def withOthers (i : Nat) (skip : Nat → Bool) (change : Nat → Deed Unit) : Deed Unit := do
  let indexes := List.range (← get).size
  (indexes.filter fun j => j ≠ i && !skip j).forM change

def connectAll : Deed Unit := underTopology <| underDetached do
  let indexes := List.range (← get).size
  indexes.forM fun i => (indexes.filter (· ≠ i)).forM fun j => modify (Fabric.joinOneWay i j)

def disconnect (i j : Nat) : Deed Unit := underTopology (unlink i j)

def reconnect (i j : Nat) : Deed Unit := underTopology <| underDetached do
  let f ← get
  if f.detached.contains i || f.detached.contains j then return
  link i j

def isolate (i : Nat) : Deed Unit := underTopology (withOthers i (fun _ => false) (unlink i))

def heal (i : Nat) : Deed Unit := underTopology <| underDetached do
  let f ← get
  if f.detached.contains i then return
  withOthers i f.detached.contains (link i)

def detach (i : Nat) : Deed Unit := do
  isolate i
  underDetached <| modify fun f =>
    if f.detached.contains i then f else { f with detached := f.detached ++ [i] }

def isDetached (i : Nat) : Deed Bool := underDetached do
  return (← get).detached.contains i

def isLinked (i j : Nat) : Deed Bool := do
  let a ← endpoint i
  let b ← endpoint j
  return a.isConnected b.address

def setDropRate (rate : Float) : Deed Unit := do
  if 0.0 ≤ rate && rate ≤ 1.0 then
    modify ({ · with dropRate := rate })
  else
    throw (.dropRate (Decimal.ofFloat rate))

end Deed

/-- What can be asked of a fabric that bears on its links or its faults. -/
inductive Request where
  | call (c : Fabric.Call)
  | isDetached (i : Nat)
  | isLinked (i j : Nat)
  | setDropRate (rate : Float)

namespace Fabric

def Call.inPlace : Call → Deed Unit
  | .add id address => modify (·.add id address)
  | .connectAll => Deed.connectAll
  | .disconnect i j => Deed.disconnect i j
  | .reconnect i j => Deed.reconnect i j
  | .isolate i => Deed.isolate i
  | .heal i => Deed.heal i
  | .detach i => Deed.detach i

end Fabric

/-- A request step by step; those that only change something answer nothing. -/
def Request.inPlace : Request → Deed (Option Bool)
  | .call c => (fun _ => none) <$> c.inPlace
  | .isDetached i => some <$> Deed.isDetached i
  | .isLinked i j => some <$> Deed.isLinked i j
  | .setDropRate rate => (fun _ => none) <$> Deed.setDropRate rate

/-- A request as the fabric answers it. -/
def Fabric.serve (f : Fabric) : Request → Except Fault (Option Bool) × Fabric
  | .call c => ((f.perform c).1.map fun _ => none, (f.perform c).2)
  | .isDetached i => ((f.isDetached i).map some, f)
  | .isLinked i j => ((f.isLinked i j).map some, f)
  | .setDropRate rate =>
    match f.setDropRate rate with
    | .ok g => (.ok none, g)
    | .error fault => (.error fault, f)

namespace Fabric

variable {f g h : Fabric} {i j : Nat}

/-! ## What a change of pairs does -/

/-- Of the whole fabric only endpoints have changed, and there are as many as before. -/
structure Relinked (f g : Fabric) : Prop where
  rest : g = { f with endpoints := g.endpoints }
  size : g.size = f.size

namespace Relinked

theorem refl (f : Fabric) : f.Relinked f := ⟨rfl, rfl⟩

theorem trans (first : f.Relinked g) (second : g.Relinked h) : f.Relinked h where
  rest := by
    have outer := second.rest
    rw [first.rest] at outer
    exact outer
  size := second.size.trans first.size

theorem update (f : Fabric) (i : Nat) (change : Endpoint → Endpoint) :
    f.Relinked (f.update i change) := ⟨rfl, List.length_modify _ _ _⟩

theorem foldl {α : Type} {step : Fabric → α → Fabric}
    (relinks : ∀ (f : Fabric) x, f.Relinked (step f x)) (l : List α) (f : Fabric) :
    f.Relinked (l.foldl step f) := by
  induction l generalizing f with
  | nil => exact refl f
  | cons x l ih => exact (relinks f x).trans (ih (step f x))

theorem locks (r : f.Relinked g) :
    g.topologyPoisoned = f.topologyPoisoned ∧ g.detachedPoisoned = f.detachedPoisoned := by
  rw [r.rest]
  exact ⟨rfl, rfl⟩

end Relinked

theorem relinked_joinOneWay (i j : Nat) (f : Fabric) : f.Relinked (joinOneWay i j f) := by
  rw [joinOneWay]
  split
  · exact .refl f
  · split
    · exact .update f i _
    · exact .refl f

/-- A change of the pair of `i` and `j`, which are looked at in this order. -/
structure OfPair (i j : Nat) (change : Fabric → Except Fault Fabric) : Prop where
  fails : ∀ {f : Fabric}, f.size ≤ i → ∃ fault, change f = .error fault
  succeeds : ∀ {f : Fabric}, i < f.size → j < f.size → ∃ g, change f = .ok g
  relinks : ∀ {f g : Fabric}, change f = .ok g → f.Relinked g

theorem endpoint_error (past : f.size ≤ i) : f.endpoint i = .error (.outOfBounds f.size i) := by
  rw [endpoint, List.getElem?_eq_none past]

theorem ofPair {change : Endpoint → Endpoint → Fabric → Fabric}
    (relinks : ∀ a b (f : Fabric), f.Relinked (change a b f)) :
    OfPair i j fun f => do let a ← f.endpoint i; let b ← f.endpoint j; return change a b f where
  fails past := ⟨_, by rw [endpoint_error past]; rfl⟩
  succeeds hi hj := by
    obtain ⟨a, here, -⟩ := exists_endpoint hi
    obtain ⟨b, there, -⟩ := exists_endpoint hj
    exact ⟨change a b _, by rw [endpoint_ok here, endpoint_ok there]; rfl⟩
  relinks {f g} done := by
    cases here : f.endpoint i with
    | error fault =>
      rw [here] at done
      cases done
    | ok a =>
      cases there : f.endpoint j with
      | error fault =>
        rw [here, there] at done
        cases done
      | ok b =>
        rw [here, there] at done
        cases done
        exact relinks a b f

theorem ofPair_link (i j : Nat) : OfPair i j (link i j) :=
  ofPair fun _ _ f => (Relinked.update f _ _).trans (Relinked.update _ _ _)

theorem ofPair_unlink (i j : Nat) : OfPair i j (unlink i j) :=
  ofPair fun _ _ f => (Relinked.update f _ _).trans (Relinked.update _ _ _)

end Fabric

namespace Deed

variable {f g : Fabric} {i : Nat}

open Fabric (OfPair)

/-! ## Nothing is half done -/

theorem bind_ok {x : Deed α} {a : α} (done : x f = (.ok a, g)) (next : α → Deed β) :
    (x >>= next) f = next a g := by
  change ExceptT.bindCont next (x f).1 (x f).2 = _
  rw [done]
  rfl

theorem bind_error {x : Deed α} {fault : Fault} (failed : x f = (.error fault, g))
    (next : α → Deed β) : (x >>= next) f = (.error fault, g) := by
  change ExceptT.bindCont next (x f).1 (x f).2 = _
  rw [failed]
  rfl

theorem map_eq (x : Deed α) (k : α → β) (f : Fabric) :
    (k <$> x) f = ((x f).1.map k, (x f).2) := by
  change ((_ : Except Fault β), _) = _
  rcases x f with ⟨_ | _, _⟩ <;> rfl

/-- A change that happens as a whole or not at all. -/
def whole (change : Fabric → Except Fault Fabric) : Deed Unit := fun f =>
  match change f with
  | .ok g => (.ok (), g)
  | .error fault => (.error fault, f)

theorem whole_ok {change : Fabric → Except Fault Fabric} (done : change f = .ok g) :
    whole change f = (.ok (), g) := by
  rw [whole, done]

theorem whole_error {change : Fabric → Except Fault Fabric} {fault : Fault}
    (failed : change f = .error fault) : whole change f = (.error fault, f) := by
  rw [whole, failed]

theorem underTopology_whole (change : Fabric → Except Fault Fabric) (f : Fabric) :
    underTopology (whole change) f = f.withTopology change := by
  rw [underTopology, Fabric.withTopology, whole]
  cases change f <;> rfl

theorem underBoth_whole (change : Fabric → Except Fault Fabric) (f : Fabric) :
    underTopology (underDetached (whole change)) f = f.withBoth change := by
  simp only [underTopology, underDetached, Fabric.withBoth, whole]
  split
  · rfl
  · cases detached : f.detachedPoisoned with
    | true => simp [detached]
    | false => cases change f <;> rfl

/-- Both indexes are looked at before anything is changed. -/
theorem pair_eq (i j : Nat) (next : Endpoint → Endpoint → Deed α) (f : Fabric) :
    (do let a ← endpoint i; let b ← endpoint j; next a b : Deed α) f =
      match (do return (← f.endpoint i, ← f.endpoint j) : Except Fault (Endpoint × Endpoint)) with
      | .ok (a, b) => next a b f
      | .error fault => (.error fault, f) := by
  have look : ∀ k, endpoint k f = (f.endpoint k, f) := fun _ => rfl
  cases here : f.endpoint i with
  | error fault => exact bind_error (by rw [look, here]) _
  | ok a =>
    rw [bind_ok (by rw [look, here])]
    cases there : f.endpoint j with
    | error fault => exact bind_error (by rw [look, there]) _
    | ok b => exact bind_ok (by rw [look, there]) _

theorem pair_eq_whole {i j : Nat} {next : Endpoint → Endpoint → Deed Unit}
    (change : Endpoint → Endpoint → Fabric → Fabric)
    (changes : ∀ a b f, next a b f = (.ok (), change a b f)) :
    (do let a ← endpoint i; let b ← endpoint j; next a b) =
      whole fun f => do let a ← f.endpoint i; let b ← f.endpoint j; return change a b f := by
  funext f
  rw [pair_eq, whole]
  simp only [changes]
  cases f.endpoint i with
  | error fault => rfl
  | ok a => cases f.endpoint j <;> rfl

theorem link_eq_whole (i j : Nat) : link i j = whole (Fabric.link i j) :=
  pair_eq_whole _ fun _ _ _ => rfl

theorem unlink_eq_whole (i j : Nat) : unlink i j = whole (Fabric.unlink i j) :=
  pair_eq_whole _ fun _ _ _ => rfl

theorem forM_modify (l : List α) (step : α → Fabric → Fabric) :
    l.forM (fun x => (modify (step x) : Deed Unit)) =
      modify fun f => l.foldl (fun f x => step x f) f := by
  induction l with
  | nil => rfl
  | cons x l ih =>
    change (modify (step x) >>= fun _ => l.forM _) = _
    rw [ih]
    rfl

/-- With the first pair it is decided whether any faults. -/
theorem forM_whole {change : Nat → Fabric → Except Fault Fabric}
    (pair : ∀ j, OfPair i j (change j)) {js : List Nat} (inside : ∀ j ∈ js, j < f.size) :
    (∃ g, js.foldlM (fun f j => change j f) f = .ok g ∧ f.Relinked g ∧
      js.forM (fun j => whole (change j)) f = (.ok (), g)) ∨
    ∃ fault, js.foldlM (fun f j => change j f) f = .error fault ∧
      js.forM (fun j => whole (change j)) f = (.error fault, f) := by
  by_cases here : i < f.size
  -- no change takes away an endpoint, so none faults after the first that did not
  · left
    induction js generalizing f with
    | nil => exact ⟨f, rfl, .refl f, rfl⟩
    | cons j js ih =>
      obtain ⟨g, done⟩ := (pair j).succeeds here (inside j List.mem_cons_self)
      have first := (pair j).relinks done
      obtain ⟨h, rest, second, deeds⟩ := ih
        (fun k hk => first.size ▸ inside k (List.mem_cons_of_mem j hk)) (first.size ▸ here)
      refine ⟨h, ?_, first.trans second, ?_⟩
      · rw [List.foldlM_cons, done]
        exact rest
      · exact (bind_ok (whole_ok done) _).trans deeds
  · cases js with
    | nil => exact Or.inl ⟨f, rfl, .refl f, rfl⟩
    | cons j js =>
      obtain ⟨fault, failed⟩ := (pair j).fails (Nat.le_of_not_lt here)
      refine Or.inr ⟨fault, ?_, bind_error (whole_error failed) _⟩
      rw [List.foldlM_cons, failed]
      rfl

variable {change : Nat → Fabric → Except Fault Fabric}

theorem withOthers_cases (pair : ∀ j, OfPair i j (change j)) (skip : Nat → Bool) (f : Fabric) :
    (∃ g, Fabric.withOthers i skip change f = .ok g ∧ f.Relinked g ∧
      withOthers i skip (fun j => whole (change j)) f = (.ok (), g)) ∨
    ∃ fault, Fabric.withOthers i skip change f = .error fault ∧
      withOthers i skip (fun j => whole (change j)) f = (.error fault, f) :=
  forM_whole pair fun _ among => List.mem_range.mp (List.mem_filter.mp among).1

theorem withOthers_whole (pair : ∀ j, OfPair i j (change j)) (skip : Nat → Bool) :
    withOthers i skip (fun j => whole (change j)) = whole (Fabric.withOthers i skip change) := by
  funext f
  rcases withOthers_cases pair skip f with ⟨g, done, -, deeds⟩ | ⟨fault, failed, deeds⟩
  · rw [deeds, whole_ok done]
  · rw [deeds, whole_error failed]

/-- A change that is left out where `p` holds. -/
theorem unless_whole (p : Fabric → Bool) (next : Fabric → Deed Unit)
    (change : Fabric → Except Fault Fabric)
    (changes : ∀ f, p f = false → next f f = whole change f) :
    (get >>= fun f => if p f then pure () else next f) =
      whole fun f => if p f then .ok f else change f := by
  funext f
  change (if p f then pure () else next f : Deed Unit) f = _
  cases out : p f with
  | true =>
    rw [whole_ok (by rw [if_pos out])]
    rfl
  | false =>
    simp only [whole, out, Bool.false_eq_true, if_false]
    exact changes f out

end Deed

namespace Fabric

variable {f g : Fabric} {c : Call} {i j : Nat} {fault : Fault}

theorem relinked_withOthers {change : Nat → Fabric → Except Fault Fabric}
    (pair : ∀ j, OfPair i j (change j)) {skip : Nat → Bool}
    (done : withOthers i skip change f = .ok g) : f.Relinked g := by
  rcases Deed.withOthers_cases pair skip f with ⟨h, done', relinked, -⟩ | ⟨fault, failed, -⟩
  · cases done'.symm.trans done
    exact relinked
  · cases failed.symm.trans done

theorem inPlace_isolate (i : Nat) (f : Fabric) : Deed.isolate i f = f.isolate i := by
  have unlinks : Deed.unlink i = fun j => Deed.whole (unlink i j) :=
    funext (Deed.unlink_eq_whole i)
  rw [Deed.isolate, unlinks, Deed.withOthers_whole (ofPair_unlink i), Deed.underTopology_whole,
    isolate]

/-- Step by step a call does what it does at once. -/
theorem inPlace_call (c : Call) (f : Fabric) : c.inPlace f = f.perform c := by
  cases c with
  | add id address => rfl
  | connectAll =>
    let joins (f : Fabric) : Fabric := (List.range f.size).foldl (fun g i =>
      ((List.range f.size).filter (· ≠ i)).foldl (fun g j => joinOneWay i j g) g) f
    have deeds : (do
        let indexes := List.range (← get).size
        indexes.forM fun i => (indexes.filter (· ≠ i)).forM fun j => modify (joinOneWay i j)) =
        Deed.whole fun f => .ok (joins f) := by
      funext f
      change ((List.range f.size).forM fun i => ((List.range f.size).filter (· ≠ i)).forM
        fun j => (modify (joinOneWay i j) : Deed Unit)) f = _
      simp only [Deed.forM_modify]
      rfl
    rw [Call.inPlace, Deed.connectAll, deeds, Deed.underBoth_whole]
    rfl
  | disconnect i j =>
    rw [Call.inPlace, Deed.disconnect, Deed.unlink_eq_whole, Deed.underTopology_whole]
    rfl
  | reconnect i j =>
    rw [Call.inPlace, Deed.reconnect, Deed.link_eq_whole,
      Deed.unless_whole (fun f => f.detached.contains i || f.detached.contains j)
        (fun _ => Deed.whole (link i j)) (link i j) (fun _ _ => rfl),
      Deed.underBoth_whole]
    rfl
  | isolate i =>
    rw [Call.inPlace, inPlace_isolate]
    rfl
  | heal i =>
    have links : Deed.link i = fun j => Deed.whole (link i j) := funext (Deed.link_eq_whole i)
    rw [Call.inPlace, Deed.heal, links,
      Deed.unless_whole (·.detached.contains i)
        (fun f => Deed.withOthers i f.detached.contains fun j => Deed.whole (link i j))
        (fun f => withOthers i f.detached.contains (link i) f) ?_, Deed.underBoth_whole]
    · rfl
    · intro f _
      rw [Deed.withOthers_whole (ofPair_link i)]
      rfl
  | detach i =>
    rw [Call.inPlace, perform, detach, Deed.detach]
    cases cut : f.isolate i with
    | mk result g =>
      cases result with
      | error fault => exact Deed.bind_error ((inPlace_isolate i f).trans cut) _
      | ok _ =>
        rw [Deed.bind_ok ((inPlace_isolate i f).trans cut)]
        simp only [Deed.underDetached]
        split
        · rfl
        · change (Except.ok (), if _ then _ else _) = _
          split <;> rfl

/-- And so does every request. -/
theorem inPlace_serve (r : Request) (f : Fabric) : r.inPlace f = f.serve r := by
  cases r with
  | call c => rw [Request.inPlace, Deed.map_eq, inPlace_call, serve]
  | isDetached i =>
    rw [Request.inPlace, Deed.map_eq, serve, isDetached, Deed.isDetached, Deed.underDetached]
    split <;> rfl
  | isLinked i j =>
    rw [Request.inPlace, Deed.map_eq, serve, isLinked, Deed.isLinked, Deed.pair_eq]
    cases f.endpoint i with
    | error fault => rfl
    | ok a => cases f.endpoint j <;> rfl
  | setDropRate rate =>
    rw [Request.inPlace, Deed.map_eq, serve, setDropRate, Deed.setDropRate]
    split <;> rfl

/-! ## What a fault leaves -/

/-- The lock of the detached set is poisoned only if that of the topology is. -/
def LocksOrdered (f : Fabric) : Prop := f.detachedPoisoned = true → f.topologyPoisoned = true

/-- Nothing differs but which locks are poisoned. -/
def SameButLocks (f g : Fabric) : Prop :=
  g = { f with topologyPoisoned := g.topologyPoisoned, detachedPoisoned := g.detachedPoisoned }

theorem poison_poisoned (poisoned : f.topologyPoisoned = true) :
    { f with topologyPoisoned := true } = f := by
  cases f
  cases poisoned
  rfl

/-- A call was done and poisoned nothing, or it faulted, changed nothing and poisoned the lock of
the topology. -/
def Settles (f : Fabric) (outcome : Except Fault Unit × Fabric) : Prop :=
  (∃ g, outcome = (.ok (), g) ∧ g.topologyPoisoned = f.topologyPoisoned ∧
    g.detachedPoisoned = f.detachedPoisoned) ∨
  ∃ fault b, outcome = (.error fault, { f with topologyPoisoned := true, detachedPoisoned := b })

section Locks

variable {change : Fabric → Except Fault Fabric}

theorem settles_withTopology (relinks : ∀ {g : Fabric}, change f = .ok g → f.Relinked g) :
    f.Settles (f.withTopology change) := by
  rw [withTopology]
  cases poisoned : f.topologyPoisoned with
  | true =>
    refine Or.inr ⟨.poisoned, f.detachedPoisoned, ?_⟩
    rw [if_pos rfl, poison_poisoned poisoned]
  | false =>
    cases outcome : change f with
    | error fault => exact Or.inr ⟨fault, f.detachedPoisoned, rfl⟩
    | ok g => exact Or.inl ⟨g, rfl, (relinks outcome).locks⟩

theorem settles_withBoth (relinks : ∀ {g : Fabric}, change f = .ok g → f.Relinked g) :
    f.Settles (f.withBoth change) := by
  rw [withBoth]
  cases poisoned : f.topologyPoisoned with
  | true =>
    refine Or.inr ⟨.poisoned, f.detachedPoisoned, ?_⟩
    rw [if_pos rfl, poison_poisoned poisoned]
  | false =>
    cases detached : f.detachedPoisoned with
    | true => exact Or.inr ⟨.poisoned, true, by simp⟩
    | false =>
      cases outcome : change f with
      | error fault => exact Or.inr ⟨fault, true, rfl⟩
      | ok g => exact Or.inl ⟨g, rfl, (relinks outcome).locks⟩

theorem sound_of_withTopology (done : f.withTopology change = (.ok (), g)) :
    f.topologyPoisoned = false := by
  cases poisoned : f.topologyPoisoned with
  | false => rfl
  | true =>
    rw [withTopology, if_pos poisoned] at done
    cases done

end Locks

theorem relinked_connectAll (f : Fabric) : f.Relinked
    ((List.range f.size).foldl (fun g i =>
      ((List.range f.size).filter (· ≠ i)).foldl (fun g j => joinOneWay i j g) g) f) :=
  .foldl (fun g i => .foldl (fun g j => relinked_joinOneWay i j g) _ g) _ f

theorem settles_isolate (i : Nat) (f : Fabric) : f.Settles (f.isolate i) :=
  settles_withTopology (relinked_withOthers (ofPair_unlink i))

/-- With the locks in order a detached set that cannot be changed is found out before any link is
cut. -/
theorem settles_detach (i : Nat) (ordered : f.LocksOrdered) : f.Settles (f.detach i) := by
  rw [detach]
  rcases settles_isolate i f with ⟨g, done, topology, detached⟩ | ⟨fault, b, failed⟩
  -- the cut was made under a sound lock, and so is the other lock
  · have usable : g.detachedPoisoned = false := by
      have sound := sound_of_withTopology done
      rw [detached]
      cases poisoned : f.detachedPoisoned with
      | false => rfl
      | true => exact absurd (ordered poisoned) (by simp [sound])
    simp only [done, usable, Bool.false_eq_true, if_false]
    split
    · exact Or.inl ⟨g, rfl, topology, detached⟩
    · exact Or.inl ⟨_, rfl, topology, usable.symm.trans detached⟩
  · rw [failed]
    exact Or.inr ⟨fault, b, rfl⟩

theorem settles_perform (c : Call) (ordered : f.LocksOrdered) : f.Settles (f.perform c) := by
  cases c with
  | add id address => exact Or.inl ⟨_, rfl, rfl, rfl⟩
  | connectAll =>
    rw [perform, connectAll]
    apply settles_withBoth
    rintro g ⟨⟩
    exact relinked_connectAll f
  | disconnect i j => exact settles_withTopology (ofPair_unlink i j).relinks
  | reconnect i j =>
    apply settles_withBoth
    intro g done
    split at done
    · cases done
      exact .refl f
    · exact (ofPair_link i j).relinks done
  | isolate i => exact settles_isolate i f
  | heal i =>
    apply settles_withBoth
    intro g done
    split at done
    · cases done
      exact .refl f
    · exact relinked_withOthers (ofPair_link i) done
  | detach i => exact settles_detach i ordered

theorem mem_detached_of_detach (done : f.detach i = (.ok (), g)) : i ∈ g.detached := by
  rw [detach] at done
  split at done
  · cases done
  · split at done
    · cases done
    · split at done
      · rename_i known
        cases done
        exact List.contains_iff_mem.mp known
      · cases done
        exact List.mem_append_right _ List.mem_cons_self

/-- No call gets past a poisoned topology. -/
theorem perform_poisoned (poisoned : f.topologyPoisoned = true) (old : c.newcomers = []) :
    f.perform c = (.error .poisoned, f) := by
  cases c with
  | add id address => cases old
  | connectAll | reconnect | heal => exact if_pos poisoned
  | disconnect | isolate => exact if_pos poisoned
  | detach i =>
    have cut : f.isolate i = (.error .poisoned, f) := if_pos poisoned
    rw [perform, detach, cut]

/-! ## Every run -/

/-- Requests in any order, of which none is refused. -/
def requests : System Fabric Request where
  admits _ _ := True
  after f r := (r.inPlace f).2

/-- `g` has the links and the detached set of `f`, and all calls that would change them fault. -/
structure Frozen (f g : Fabric) : Prop where
  routes : ∀ i a, g.route? i a = f.route? i a
  detached : g.detached = f.detached
  faults : ∀ c : Call, c.newcomers = [] → c.inPlace g = (.error .poisoned, g)

theorem after_call (f : Fabric) (c : Call) : requests.after f (.call c) = (f.perform c).2 :=
  congrArg Prod.snd (inPlace_serve (.call c) f)

/-- Requests other than calls change nothing but the drop rate. -/
theorem after_other {r : Request} (other : ∀ c, r ≠ .call c) (f : Fabric) :
    ∃ rate, requests.after f r = { f with dropRate := rate } := by
  have served : requests.after f r = (f.serve r).2 := congrArg Prod.snd (inPlace_serve r f)
  rw [served]
  cases r with
  | call c => exact absurd rfl (other c)
  | isDetached | isLinked => exact ⟨f.dropRate, rfl⟩
  | setDropRate rate =>
    rw [serve, setDropRate]
    by_cases allowed : (0.0 ≤ rate && rate ≤ 1.0) = true
    · exact ⟨rate, by rw [if_pos allowed]⟩
    · exact ⟨f.dropRate, by rw [if_neg allowed]⟩

/-- Where they fault they change nothing, and poison nothing. -/
theorem eq_of_serve_error {r : Request} (other : ∀ c, r ≠ .call c)
    (failed : f.serve r = (.error fault, g)) : g = f := by
  cases r with
  | call c => exact absurd rfl (other c)
  | isDetached | isLinked => exact (congrArg Prod.snd failed).symm
  | setDropRate rate =>
    rw [serve, setDropRate] at failed
    by_cases allowed : (0.0 ≤ rate && rate ≤ 1.0) = true
    · rw [if_pos allowed] at failed
      cases failed
    · rw [if_neg allowed] at failed
      exact (congrArg Prod.snd failed).symm

theorem LocksOrdered.after (ordered : f.LocksOrdered) (r : Request) :
    (requests.after f r).LocksOrdered := by
  by_cases called : ∃ c, r = .call c
  · obtain ⟨c, rfl⟩ := called
    rw [after_call]
    rcases settles_perform c ordered with ⟨g, done, topology, detached⟩ | ⟨fault, b, failed⟩
    · rw [done, LocksOrdered, topology, detached]
      exact ordered
    · rw [failed]
      exact fun _ => rfl
  · obtain ⟨rate, same⟩ := after_other (fun c h => called ⟨c, h⟩) f
    rw [same]
    exact ordered

theorem frozen_of_reachable (poisoned : f.topologyPoisoned = true)
    (run : Reachable requests f g) : f.Frozen g := by
  suffices kept : g.topologyPoisoned = true ∧ (∀ i a, g.route? i a = f.route? i a) ∧
      g.detached = f.detached by
    obtain ⟨still, routes, detached⟩ := kept
    exact ⟨routes, detached, fun c old => (inPlace_call c g).trans (perform_poisoned still old)⟩
  refine run.invariant (P := fun g => g.topologyPoisoned = true ∧
    (∀ i a, g.route? i a = f.route? i a) ∧ g.detached = f.detached)
    ⟨poisoned, fun _ _ => rfl, rfl⟩ ?_
  rintro g r ⟨still, routes, detached⟩ -
  by_cases called : ∃ c, r = .call c
  · obtain ⟨c, rfl⟩ := called
    rw [after_call]
    by_cases old : c.newcomers = []
    · rw [perform_poisoned still old]
      exact ⟨still, routes, detached⟩
    · cases c with
      | add id address =>
        exact ⟨still, fun i a => (route?_add g id address i a).trans (routes i a), detached⟩
      | _ => exact absurd rfl old
  · obtain ⟨rate, same⟩ := after_other (fun c h => called ⟨c, h⟩) g
    rw [same]
    exact ⟨still, routes, detached⟩

/-- A fault changes no link, no detached flag and no drop rate, though nothing is taken back. The
lock of the detached set is never the only one that is poisoned; and once a call has faulted
the links are as they are for good. -/
theorem faults_freeze_topology {f₀ f : Fabric} (ordered : f₀.LocksOrdered)
    (run : Reachable requests f₀ f) :
    f.LocksOrdered ∧
    (∀ r : Request, r.inPlace f = f.serve r) ∧
    (∀ (r : Request) fault g, (∀ c, r ≠ .call c) → r.inPlace f = (.error fault, g) → g = f) ∧
    (∀ i g, (Call.detach i).inPlace f = (.ok (), g) → i ∈ g.detached) ∧
    ∀ (c : Call) fault g, c.inPlace f = (.error fault, g) →
      f.SameButLocks g ∧ ∀ h, Reachable requests g h → f.Frozen h := by
  have still : f.LocksOrdered :=
    run.invariant (P := LocksOrdered) ordered fun {_ r} ordered _ => ordered.after r
  refine ⟨still, fun r => inPlace_serve r f, ?_, ?_, ?_⟩
  · intro r fault g other failed
    rw [inPlace_serve] at failed
    exact eq_of_serve_error other failed
  · intro i g done
    rw [inPlace_call] at done
    exact mem_detached_of_detach done
  · intro c fault g failed
    rw [inPlace_call] at failed
    rcases settles_perform c still with ⟨h, done, -⟩ | ⟨fault', b, outcome⟩
    · cases done.symm.trans failed
    · cases outcome.symm.trans failed
      refine ⟨rfl, fun h later => ?_⟩
      obtain ⟨routes, detached, faults⟩ := frozen_of_reachable rfl later
      exact ⟨routes, detached, faults⟩

/-- Isolating a third of two endpoints leaves their link, which cannot be cut any more. -/
theorem faults_freeze_topology_of_pair :
    let f := requests.play {} [.call (.add 1 "a"), .call (.add 2 "b"), .call .connectAll]
    let g := ((Call.isolate 2).inPlace f).2
    Reachable requests {} f ∧
    (Call.isolate 2).inPlace f = (.error (.outOfBounds 2 2), g) ∧ f.SameButLocks g ∧
    ∀ h, Reachable requests g h → h.route? 0 "b" = some (.inside 1) ∧
      (Call.disconnect 0 1).inPlace h = (.error .poisoned, h) := by
  intro f g
  have run : Reachable requests {} f :=
    System.reachable_play .start ⟨trivial, trivial, trivial, trivial⟩
  have failed : (Call.isolate 2).inPlace f = (.error (.outOfBounds 2 2), g) := rfl
  obtain ⟨-, -, -, -, calls⟩ := faults_freeze_topology (fun _ => by contradiction) run
  obtain ⟨same, frozen⟩ := calls _ _ _ failed
  refine ⟨run, failed, same, ?_⟩
  intro h later
  have route : f.route? 0 "b" = some (.inside 1) := by decide +kernel
  exact ⟨((frozen h later).routes 0 "b").trans route, (frozen h later).faults _ rfl⟩

end Fabric

end QuorumLab
