import Mathlib.Data.List.Induction
import QuorumLab.Proofs.Network.Topology

/-!
# Loops

Joining everything, isolating and healing leave out the pair of an endpoint with itself; the
calls that name two endpoints do not. An endpoint that was reconnected with itself reaches
itself until it is disconnected from itself: to isolate or to detach it cuts every link but
this one.
-/

namespace QuorumLab

namespace Topology

theorem mem_detached_after {t : Topology} {c : Fabric.Call} {i : Nat} :
    i ∈ (t.after c).detached ↔ i ∈ t.detached ∨ c = .detach i := by
  cases c with
  | add | connectAll | disconnect | isolate => simp [after, isolate]
  | reconnect | heal =>
    rw [after]
    split <;> simp
  | detach k =>
    simp only [after, Finset.mem_insert, Fabric.Call.detach.injEq]
    constructor
    · rintro (rfl | before)
      · exact Or.inr rfl
      · exact Or.inl before
    · rintro (before | rfl)
      · exact Or.inr before
      · exact Or.inl rfl

/-- Nothing is left at an endpoint that is isolated, or detached. -/
theorem bare_after (t : Topology) {c : Fabric.Call} {i : Nat}
    (cut : c = .isolate i ∨ c = .detach i) : ∀ e ∈ (t.after c).edges, i ∉ e := by
  rcases cut with rfl | rfl <;> exact fun e edge => (Finset.mem_filter.mp edge).2

end Topology

namespace Fabric

variable {f : Fabric} {t : Topology} {c : Call} {cs : List Call} {i j k : Nat}

/-- `i` was reconnected with itself while it was not detached, and not disconnected from itself
since. -/
def Looped (cs : List Call) (i : Nat) : Prop :=
  ∃ before later, cs = before ++ .reconnect i i :: later ∧
    .detach i ∉ before ∧ .disconnect i i ∉ later

theorem not_looped_nil : ¬Looped [] i := by
  rintro ⟨before, later, split, -⟩
  simp at split

/-- One more call joins `i` to itself, or cuts it from itself, or leaves it as it was. -/
theorem looped_snoc : Looped (cs ++ [c]) i ↔
    (c = .reconnect i i ∧ .detach i ∉ cs) ∨ (Looped cs i ∧ c ≠ .disconnect i i) := by
  constructor
  · rintro ⟨before, later, split, kept, uncut⟩
    rcases List.eq_nil_or_concat later with rfl | ⟨rest, d, rfl⟩
    · obtain ⟨rfl, last⟩ := List.append_inj' split rfl
      exact Or.inl ⟨List.singleton_inj.mp last, kept⟩
    · rw [List.concat_eq_append, ← List.cons_append, ← List.append_assoc] at split
      obtain ⟨rfl, last⟩ := List.append_inj' split rfl
      obtain rfl := List.singleton_inj.mp last
      rw [List.concat_eq_append, List.mem_append, List.mem_singleton, not_or] at uncut
      exact Or.inr ⟨⟨before, rest, rfl, kept, uncut.1⟩, Ne.symm uncut.2⟩
  · rintro (⟨rfl, kept⟩ | ⟨⟨before, later, rfl, kept, uncut⟩, other⟩)
    · exact ⟨cs, [], rfl, kept, List.not_mem_nil⟩
    · refine ⟨before, later ++ [c], by simp, kept, ?_⟩
      simp [uncut, Ne.symm other]

/-- Of the links at `i` there is none but that of `i` with itself, which there is iff `looped`;
and no message can be sent but along it. -/
structure Secluded (f : Fabric) (i : Nat) (looped : Prop) : Prop where
  linked : ∀ j k, j = i ∨ k = i → (f.Linked j k ↔ j = k ∧ looped)
  sends : ∀ j k a m draw, j = i ∨ k = i → f.address? k = some a →
    ((f.send (.inside j) a m draw).1 = .error (.unreachable a) ↔ ¬(j = k ∧ looped))

/-! ## One call -/

theorem loop_eq_iff : s(i, i) = s(j, k) ↔ j = i ∧ k = i := by
  rw [Sym2.eq_iff]
  tauto

theorem linked_detach (f : Fabric) (i p q : Nat) :
    (f.detach i).2.Linked p q ↔ (f.isolate i).2.Linked p q := by
  have same : (f.detach i).2.endpoints = (f.isolate i).2.endpoints := by
    rw [detach]
    split
    · rename_i failed
      rw [failed]
    · rename_i done
      rw [done]
      split
      · rfl
      · split <;> rfl
  simp only [Linked, address?, route?, same]

namespace Represents

/-- Of all calls only those that name a pair bear on the pair of an endpoint with itself. -/
theorem loop_after (r : f.Represents t) (valid : c.Valid f) (i : Nat) :
    (f.perform c).2.Linked i i ↔
      (c = .reconnect i i ∧ i ∉ f.detached) ∨ (f.Linked i i ∧ c ≠ .disconnect i i) := by
  obtain ⟨inside, -⟩ := valid
  have isolated : ∀ j < f.size, ((f.isolate j).2.Linked i i ↔ f.Linked i i) := by
    intro j hj
    obtain ⟨g, done, w⟩ := rewires_isolate r.wired r.topologySound hj
    simp [done, w.linked]
  cases c with
  | add id address => simpa [perform] using r.wired.linked_add
  | connectAll =>
    obtain ⟨g, done, w⟩ := rewires_connectAll r.wired r.topologySound r.detachedSound
    simp [perform, done, w.linked]
  | disconnect j k =>
    obtain ⟨g, done, w⟩ := rewires_disconnect r.wired r.topologySound
      (inside j (by simp [Call.indexes])) (inside k (by simp [Call.indexes]))
    simp only [perform, done, w.linked, ne_eq, loop_eq_iff, reduceCtorEq, false_and, false_or,
      Call.disconnect.injEq]
  | reconnect j k =>
    obtain ⟨g, done, w⟩ := rewires_reconnect r.wired r.topologySound r.detachedSound
      (inside j (by simp [Call.indexes])) (inside k (by simp [Call.indexes]))
    simp only [perform, done, w.linked, loop_eq_iff]
    constructor
    · rintro (old | ⟨⟨rfl, rfl⟩, kept, -⟩)
      · exact Or.inr ⟨old, nofun⟩
      · exact Or.inl ⟨rfl, kept⟩
    · rintro (⟨same, kept⟩ | ⟨old, -⟩)
      · cases same
        exact Or.inr ⟨⟨rfl, rfl⟩, kept, kept⟩
      · exact Or.inl old
  | isolate j => simpa [perform] using isolated j (inside j List.mem_cons_self)
  | heal j =>
    obtain ⟨g, done, w⟩ := rewires_heal r.wired r.topologySound r.detachedSound
      (inside j List.mem_cons_self)
    simp [perform, done, w.linked]
  | detach j =>
    have cut := (f.linked_detach j i i).trans (isolated j (inside j List.mem_cons_self))
    simpa [perform] using cut

/-- Without an edge at `i` there is nothing left there but its loop. -/
theorem secluded {looped : Prop} (r : f.Represents t) (live : ∀ e ∈ f.endpoints, e.live = true)
    (bare : ∀ e ∈ t.edges, i ∉ e) (loop : f.Linked i i ↔ looped) : f.Secluded i looped := by
  have linked : ∀ j k, j = i ∨ k = i → (f.Linked j k ↔ j = k ∧ looped) := by
    intro j k touches
    by_cases same : j = k
    · obtain rfl : j = i := by omega
      obtain rfl := same
      simpa using loop
    · rw [r.linked same]
      constructor
      · intro edge
        refine absurd ?_ (bare _ edge)
        rw [Sym2.mem_iff]
        omega
      · exact fun loop => absurd loop.1 same
  refine ⟨linked, ?_⟩
  intro j k a m draw touches there
  rw [send_unreachable_iff r.wired live there, linked j k touches]

end Represents

/-! ## Every run -/

theorem mem_detached_play :
    i ∈ (calls.play ({}, {}) cs).2.detached ↔ .detach i ∈ cs := by
  induction cs using List.reverseRecOn with
  | nil => simp [System.play]
  | append_singleton cs c ih =>
    rw [System.play_append, List.mem_append, ← ih, List.mem_singleton,
      eq_comm (a := Call.detach i)]
    exact Topology.mem_detached_after

theorem live_of_reachable {s : Fabric × Topology} (run : Reachable calls ({}, {}) s) :
    ∀ e ∈ s.1.endpoints, e.live = true := by
  suffices both : s.1.Represents s.2 ∧ ∀ e ∈ s.1.endpoints, e.live = true from both.2
  refine run.invariant (P := fun s => s.1.Represents s.2 ∧ ∀ e ∈ s.1.endpoints, e.live = true)
    ⟨Represents.empty, nofun⟩ ?_
  rintro s c ⟨r, live⟩ valid
  obtain ⟨g, done, r', follows⟩ := r.after valid
  change (s.1.perform c).2.Represents _ ∧ ∀ e ∈ (s.1.perform c).2.endpoints, e.live = true
  rw [done]
  refine ⟨r', ?_⟩
  intro e he
  have among := List.mem_map_of_mem (f := Endpoint.live) he
  rw [follows.map Endpoint.live fun _ => rfl, List.mem_append] at among
  rcases among with old | new
  · obtain ⟨e₀, he₀, same⟩ := List.mem_map.mp old
    exact same ▸ live e₀ he₀
  · obtain ⟨e₀, he₀, same⟩ := List.mem_map.mp new
    obtain ⟨id, address, rfl⟩ := Call.newcomers_blank he₀
    exact same.symm

/-- Whether an endpoint reaches itself can be read off the calls that were made. -/
theorem linked_self_play (admitted : calls.AdmitsAll ({}, {}) cs) :
    (calls.play ({}, {}) cs).1.Linked i i ↔ Looped cs i := by
  induction cs using List.reverseRecOn with
  | nil =>
    refine iff_of_false ?_ not_looped_nil
    rintro ⟨a, here, -⟩
    cases here
  | append_singleton cs c ih =>
    obtain ⟨before, valid, -⟩ := System.admitsAll_append.mp admitted
    have r := represents_of_reachable (System.reachable_play .start before)
    have kept : i ∉ (calls.play ({}, {}) cs).1.detached ↔ .detach i ∉ cs :=
      r.not_detached.trans (not_congr mem_detached_play)
    rw [System.play_append, looped_snoc, ← ih before, ← kept]
    exact r.loop_after valid i

/-- Isolating an endpoint, and detaching it, cuts all its links but the one to itself, which it
has iff it was reconnected with itself before it was detached and not disconnected from itself
since. -/
theorem secluded_but_for_loop (admitted : calls.AdmitsAll ({}, {}) cs) :
    (∀ i, (calls.play ({}, {}) cs).1.Linked i i ↔ Looped cs i) ∧
    ∀ i < (calls.play ({}, {}) cs).1.size, ∀ c, c = .isolate i ∨ c = .detach i →
      ∃ g, (calls.play ({}, {}) cs).1.perform c = (.ok (), g) ∧ g.Secluded i (Looped cs i) := by
  refine ⟨fun i => linked_self_play admitted, ?_⟩
  intro i inside c cut
  have run := System.reachable_play .start admitted
  have valid : c.Valid (calls.play ({}, {}) cs).1 := by
    rcases cut with rfl | rfl <;> simpa [Call.Valid, Call.indexes, Call.newcomers] using inside
  obtain ⟨g, done, r', -⟩ := (represents_of_reachable run).after valid
  have here : g = (calls.after (calls.play ({}, {}) cs) c).1 := (congrArg Prod.snd done).symm
  have live := live_of_reachable (.event c run valid)
  rw [← here] at live
  refine ⟨g, done, r'.secluded live (Topology.bare_after _ cut) ?_⟩
  have loop := (represents_of_reachable run).loop_after valid i
  simp only [done, linked_self_play admitted] at loop
  rw [loop]
  rcases cut with rfl | rfl <;> simp

/-- Of two endpoints the first, isolated or detached, still reaches itself and nobody else. -/
theorem secluded_but_for_loop_of_pair :
    let cs : List Call := [.add 1 "0", .add 2 "1", .connectAll, .reconnect 0 0]
    calls.AdmitsAll ({}, {}) cs ∧ Looped cs 0 ∧ (calls.play ({}, {}) cs).1.Linked 0 0 ∧
    ∀ c, c = .isolate 0 ∨ c = .detach 0 → ∃ g,
      (calls.play ({}, {}) cs).1.perform c = (.ok (), g) ∧ g.Linked 0 0 ∧ ¬g.Linked 0 1 ∧
      ∀ m draw, (g.send (.inside 0) "0" m draw).1 ≠ .error (.unreachable "0") := by
  intro cs
  have admitted : calls.AdmitsAll ({}, {}) cs := by decide +kernel
  have looped : Looped cs 0 := ⟨[.add 1 "0", .add 2 "1", .connectAll], [], rfl, by simp, by simp⟩
  obtain ⟨loops, cut⟩ := secluded_but_for_loop admitted
  refine ⟨admitted, looped, (loops 0).mpr looped, ?_⟩
  intro c hc
  obtain ⟨g, done, secluded⟩ := cut 0 (by decide +kernel) c hc
  have there : ((calls.play ({}, {}) cs).1.perform c).2.address? 0 = some "0" := by
    rcases hc with rfl | rfl <;> decide +kernel
  rw [done] at there
  refine ⟨g, done, (secluded.linked 0 0 (Or.inl rfl)).mpr ⟨rfl, looped⟩, ?_, ?_⟩
  · rw [secluded.linked 0 1 (Or.inl rfl)]
    simp
  · intro m draw
    rw [Ne, secluded.sends 0 0 "0" m draw (Or.inl rfl) there]
    simpa using looped

end Fabric

end QuorumLab
