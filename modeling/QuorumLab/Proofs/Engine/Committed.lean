import Mathlib.Data.List.Basic
import QuorumLab.Proofs.Engine.Proposals

/-!
# Committed entries, in whatever lists they come

Lists of committed entries may overlap, and may repeat what was applied before. An entry is due if
it lies above what is applied when it comes up. Only those that are due are noted, each answers
whoever waits at its index, and the commands among them reach the machine, in the order of their
indexes and once each.
-/

namespace QuorumLab

namespace Applied

variable {α β : Type}

/-- Go on from what was done. -/
def bind : Applied α → (α → Applied β) → Applied β
  | .done a, g => g a
  | .held, _ => .held
  | .fault f, _ => .fault f

theorem bind_done {x : Applied α} {g : α → Applied β} {b : β} (done : x.bind g = .done b) :
    ∃ a, x = .done a ∧ g a = .done b := by
  cases x with
  | done a => exact ⟨a, rfl, done⟩
  | held | fault => cases done

end Applied

theorem Entry.isCommand_iff {e : Entry} :
    e.isCommand = true ↔ e.kind = .normal ∧ e.context = commandMark := by
  simp [isCommand]

/-- The entries that are due once everything up to `index` is applied. -/
def dueAfter : Nat → List Entry → List Entry
  | _, [] => []
  | index, e :: es => if index < e.index then e :: dueAfter e.index es else dueAfter index es

theorem lt_of_mem_dueAfter {index : Nat} {es : List Entry} {e : Entry}
    (due : e ∈ dueAfter index es) : index < e.index := by
  induction es generalizing index with
  | nil => cases due
  | cons x es ih =>
    by_cases new : index < x.index
    · rw [dueAfter, if_pos new] at due
      rcases List.mem_cons.mp due with rfl | due
      · exact new
      · exact Nat.lt_trans new (ih due)
    · rw [dueAfter, if_neg new] at due
      exact ih due

theorem dueAfter_ascends (index : Nat) (es : List Entry) :
    (dueAfter index es).Pairwise fun a b => a.index < b.index := by
  induction es generalizing index with
  | nil => exact .nil
  | cons e es ih =>
    by_cases new : index < e.index
    · rw [dueAfter, if_pos new]
      exact .cons (fun x due => lt_of_mem_dueAfter due) (ih e.index)
    · rw [dueAfter, if_neg new]
      exact ih index

namespace Driver

variable {κ μ ω : Type} [Machine μ]

/-- Apply committed entries one after the other. -/
def applyAll (d : Driver κ μ) : List Entry → Applied (Driver κ μ)
  | [] => .done d
  | e :: es => (d.apply e).bind (applyAll · es)

/-- Apply lists of committed entries one after the other. -/
def applyLists (d : Driver κ μ) : List (List Entry) → Applied (Driver κ μ)
  | [] => .done d
  | es :: lists => (d.applyAll es).bind (applyLists · lists)

theorem applyAll_append (d : Driver κ μ) (es es' : List Entry) :
    d.applyAll (es ++ es') = (d.applyAll es).bind (·.applyAll es') := by
  induction es generalizing d with
  | nil => rfl
  | cons e es ih =>
    rw [List.cons_append, applyAll, applyAll]
    cases d.apply e with
    | done d₁ => exact ih d₁
    | held | fault => rfl

theorem applyLists_eq (d : Driver κ μ) (lists : List (List Entry)) :
    d.applyLists lists = d.applyAll lists.flatten := by
  induction lists generalizing d with
  | nil => rfl
  | cons es lists ih =>
    rw [applyLists, List.flatten_cons, applyAll_append]
    cases d.applyAll es with
    | done d₁ => exact ih d₁
    | held | fault => rfl

/-- A machine is only held up, or at fault, over a command that is due. -/
theorem apply_stuck {d : Driver κ μ} {e : Entry} (stuck : ∀ d', d.apply e ≠ .done d') :
    d.applied < e.index ∧ e.isCommand = true ∧
      ((d.machine.apply e.index e.data = .held ∧ d.apply e = .held) ∨
        ∃ f, d.machine.apply e.index e.data = .fault f ∧ d.apply e = .fault f) := by
  by_cases old : e.index ≤ d.applied
  · exact absurd (if_pos old) (stuck d)
  · by_cases command : e.isCommand = true
    · refine ⟨Nat.not_le.mp old, command, ?_⟩
      simp only [apply, if_neg old, if_pos command] at stuck ⊢
      cases called : d.machine.apply e.index e.data with
      | done machine =>
        rw [called] at stuck
        exact absurd rfl (stuck _)
      | held => exact Or.inl ⟨rfl, rfl⟩
      | fault f => exact Or.inr ⟨f, rfl, rfl⟩
    · simp only [apply, if_neg old, if_neg command] at stuck
      exact absurd rfl (stuck _)

/-- The whole list is gone through, unless the machine does not come back from a command that is
due; then everything before it has been done. -/
theorem applyAll_cases (d : Driver κ μ) (es : List Entry) :
    (∃ d', d.applyAll es = .done d') ∨
    ∃ before e after d', es = before ++ e :: after ∧ d.applyAll before = .done d' ∧
      d'.applied < e.index ∧ e.isCommand = true ∧
      ((d'.machine.apply e.index e.data = .held ∧ d.applyAll es = .held) ∨
        ∃ f, d'.machine.apply e.index e.data = .fault f ∧ d.applyAll es = .fault f) := by
  induction es generalizing d with
  | nil => exact Or.inl ⟨d, rfl⟩
  | cons e es ih =>
    by_cases done : ∃ d₁, d.apply e = .done d₁
    · obtain ⟨d₁, applied⟩ := done
      have same : ∀ more, d.applyAll (e :: more) = d₁.applyAll more := by
        intro more
        rw [applyAll, applied]
        rfl
      rw [same]
      rcases ih d₁ with all | ⟨before, x, after, d', rfl, done, stuck⟩
      · exact Or.inl all
      · exact Or.inr ⟨e :: before, x, after, d', rfl, (same before).trans done, stuck⟩
    · obtain ⟨due, command, stuck⟩ := apply_stuck fun d₁ applied => done ⟨d₁, applied⟩
      refine Or.inr ⟨[], e, es, d, rfl, rfl, due, command, ?_⟩
      rcases stuck with ⟨called, held⟩ | ⟨f, called, fault⟩
      · exact Or.inl ⟨called, by rw [applyAll, held]; rfl⟩
      · exact Or.inr ⟨f, called, by rw [applyAll, fault]; rfl⟩

/-! ## What an entry does -/

/-- What a proposal is told of the entry that was committed where it waits. -/
def verdict (q : Nat × Proposal) (e : Entry) : Nat × Outcome :=
  (q.2.ticket, if q.2.term = e.term then .ok (.index e.index) else .error .leadershipLost)

/-- Those who wait for an entry, each with the entry. -/
def met (d : Driver κ μ) (e : Entry) : List ((Nat × Proposal) × Entry) :=
  (d.pending.filter (·.1 = e.index)).map (·, e)

/-- The calls that entries make of the machine. -/
def callsOf (es : List Entry) : List (Nat × Bytes) :=
  (es.filter Entry.isCommand).map fun e => (e.index, e.data)

/-- `d'` has noted the entries `es`: called its machine for the commands among them, let go and
answered whoever waited for one of them, and done nothing else. -/
structure Noted (d : Driver κ (Traced μ)) (es : List Entry) (d' : Driver κ (Traced μ)) : Prop where
  calls : d'.calls = d.calls ++ callsOf es
  pending : d'.pending = d.pending.filter fun q => q.1 ∉ es.map Entry.index
  answers : d'.answers = d.answers ++ (es.flatMap d.met).map fun m => verdict m.1 m.2
  rest : d' = { d with
    machine := d'.machine, applied := d'.applied, pending := d'.pending, answers := d'.answers }

/-- At most one proposal waits at an index. -/
theorem filter_key {β : Type} {l : List (Nat × β)} (keys : (l.map Prod.fst).Nodup) (k : Nat) :
    l.filter (·.1 = k) = ((l.lookup k).map (k, ·)).toList := by
  have split := (lookup_perm (k := k) keys).filter (·.1 = k)
  have others : (l.filter (·.1 ≠ k)).filter (·.1 = k) = [] := by simp [List.filter_filter]
  rw [List.filter_append, others, List.append_nil] at split
  cases found : l.lookup k with
  | none =>
    rw [found] at split
    exact List.perm_nil.mp split
  | some b =>
    rw [found] at split
    simpa using split

section Entry

variable {d d₁ d' : Driver κ (Traced μ)} {e : Entry} {es : List Entry}

omit [Machine μ] in
theorem Noted.refl (d : Driver κ (Traced μ)) : d.Noted [] d where
  calls := (List.append_nil _).symm
  pending := (List.filter_eq_self.mpr fun _ _ => by simp).symm
  answers := (List.append_nil _).symm
  rest := rfl

omit [Machine μ] in
/-- What is noted lets go whoever waits at its index. -/
theorem noteApplied_eq (keyed : d.Keyed) (e : Entry) :
    d.noteApplied e = { d with
      applied := e.index
      pending := d.pending.filter (·.1 ≠ e.index)
      answers := d.answers ++ (d.met e).map fun m => verdict m.1 m.2 } := by
  have waits := filter_key keyed e.index
  rcases d.noteApplied_cases e with ⟨nobody, same⟩ | ⟨p, o, waiting, same, told⟩
  · rw [nobody] at waits
    have others : d.pending.filter (·.1 ≠ e.index) = d.pending := by
      simpa [List.filter_eq_nil_iff, List.filter_eq_self] using waits
    have silent : d.met e = [] := by rw [met, waits]; rfl
    rw [same, others, silent, List.map_nil, List.append_nil]
  · rw [waiting] at waits
    have said : (d.met e).map (fun m => verdict m.1 m.2) = [(p.ticket, o)] := by
      rw [met, waits]
      rcases told with ⟨own, rfl⟩ | ⟨own, rfl⟩ <;> simp [verdict, own]
    rw [same, said]
    rfl

omit [Machine μ] in
theorem callsOf_due (index : Nat) (e : Entry) : callsOf (dueAfter index [e]) =
    if index < e.index ∧ e.isCommand = true then [(e.index, e.data)] else [] := by
  by_cases new : index < e.index <;> cases command : e.isCommand <;>
    simp [dueAfter, callsOf, new, command]

/-- An entry that is due is noted, and no other is. -/
theorem apply_noted (keyed : d.Keyed) (done : d.apply e = .done d') :
    d.Noted (dueAfter d.applied [e]) d' ∧ d'.applied = max d.applied e.index ∧ d'.Keyed := by
  have called : d'.calls = d.calls ++ callsOf (dueAfter d.applied [e]) := by
    rw [callsOf_due]
    exact calls_apply_eq done
  rcases apply_cases done with ⟨old, same⟩ | ⟨new, machine, same, -⟩
  · rw [same, dueAfter, if_neg (by omega), Nat.max_eq_left old]
    exact ⟨.refl d, rfl, keyed⟩
  · rw [noteApplied_eq (d := { d with machine }) keyed] at same
    rw [dueAfter, if_pos new] at called ⊢
    rw [Nat.max_eq_right (Nat.le_of_lt new)]
    subst same
    refine ⟨?_, rfl, keyed_others keyed e.index⟩
    constructor
    case calls => exact called
    case pending => simp [dueAfter]
    case answers => simp [dueAfter, met]
    case rest => rfl

theorem dueAfter_cons (index : Nat) (e : Entry) (es : List Entry) :
    dueAfter index (e :: es) = dueAfter index [e] ++ dueAfter (max index e.index) es := by
  by_cases new : index < e.index
  · simp only [dueAfter, if_pos new, Nat.max_eq_right (Nat.le_of_lt new)]
    rfl
  · simp only [dueAfter, if_neg new, Nat.max_eq_left (Nat.not_lt.mp new)]
    rfl

omit [Machine μ] in
/-- Whoever waits for one of the later entries still waits after the first ones. -/
theorem Noted.trans {es' : List Entry} (first : d.Noted es d₁) (then' : d₁.Noted es' d')
    (later : ∀ x ∈ es', x.index ∉ es.map Entry.index) : d.Noted (es ++ es') d' where
  calls := by
    simp only [then'.calls, first.calls, callsOf, List.filter_append, List.map_append,
      List.append_assoc]
  pending := by
    rw [then'.pending, first.pending, List.filter_filter]
    apply List.filter_congr
    intro q _
    simp only [List.map_append, List.mem_append, not_or, Bool.decide_and]
    exact Bool.and_comm _ _
  answers := by
    have same : es'.flatMap d₁.met = es'.flatMap d.met := by
      apply List.flatMap_congr
      intro x hx
      have waits : d₁.pending.filter (·.1 = x.index) = d.pending.filter (·.1 = x.index) := by
        rw [first.pending, List.filter_filter]
        apply List.filter_congr
        intro q _
        by_cases here : q.1 = x.index
        · simpa [here] using later x hx
        · simp [here]
      rw [met, met, waits]
    rw [then'.answers, first.answers, List.append_assoc, List.flatMap_append, List.map_append, same]
  rest := by
    rw [then'.rest, first.rest]

/-- All that are due are noted, in their order, and what is applied is the greatest index seen. -/
theorem applyAll_noted (keyed : d.Keyed) (done : d.applyAll es = .done d') :
    d.Noted (dueAfter d.applied es) d' ∧
      d'.applied = (es.map Entry.index).foldl max d.applied ∧ d'.Keyed := by
  induction es generalizing d with
  | nil =>
    cases done
    exact ⟨.refl _, rfl, keyed⟩
  | cons e es ih =>
    obtain ⟨d₁, applied, done⟩ := Applied.bind_done done
    obtain ⟨first, reached, keyed₁⟩ := apply_noted keyed applied
    obtain ⟨rest, reached', keyed'⟩ := ih keyed₁ done
    rw [reached] at rest reached'
    refine ⟨?_, reached', keyed'⟩
    rw [dueAfter_cons]
    apply first.trans rest
    intro x due again
    have above := lt_of_mem_dueAfter due
    obtain ⟨y, hy, same⟩ := List.mem_map.mp again
    have own : y = e := by
      by_cases new : d.applied < e.index
      · simpa [dueAfter, new] using hy
      · simp [dueAfter, new] at hy
    subst own
    omega

end Entry

/-- Of proposals that wait at the indexes of some entries, each waits for one of them. -/
theorem flatMap_filter_perm {es : List Entry} (distinct : (es.map Entry.index).Nodup)
    (l : List (Nat × Proposal)) : (es.flatMap fun e => l.filter (·.1 = e.index)).Perm
      (l.filter fun q => q.1 ∈ es.map Entry.index) := by
  induction es with
  | nil => simp
  | cons e es ih =>
    obtain ⟨new, distinct⟩ := List.nodup_cons.mp distinct
    have here : (l.filter fun q => q.1 ∈ (e :: es).map Entry.index).filter (·.1 = e.index) =
        l.filter (·.1 = e.index) := by
      rw [List.filter_filter]
      apply List.filter_congr
      intro q _
      by_cases own : q.1 = e.index <;> simp [own]
    have others : (l.filter fun q => q.1 ∈ (e :: es).map Entry.index).filter
        (fun q => !decide (q.1 = e.index)) = l.filter fun q => q.1 ∈ es.map Entry.index := by
      rw [List.filter_filter]
      apply List.filter_congr
      intro q _
      by_cases own : q.1 = e.index
      · simpa [own] using new
      · simp [own]
    have split := List.filter_append_perm (·.1 = e.index)
      (l.filter fun q => q.1 ∈ (e :: es).map Entry.index)
    rw [here, others] at split
    exact ((ih distinct).append_left _).trans split

/-! ## Each command once -/

/-- `d'` has gone through the entries `es`, in whatever order and however often they came. -/
structure AppliesOnce (d : Driver κ (Traced μ)) (es : List Entry) (d' : Driver κ (Traced μ)) :
    Prop where
  /-- The machine is called in the order of the indexes, and above what was applied before. -/
  ordered : ∃ made, d'.calls = d.calls ++ made ∧ made.Pairwise (fun a b => a.1 < b.1) ∧
    ∀ c ∈ made, d.applied < c.1
  /-- It is called for just those entries that are commands above what is applied when they come
  up. What is applied never goes back. -/
  called : ∀ before e after, es = before ++ e :: after → ∃ d₁ d₂,
    d.applyAll before = .done d₁ ∧ d₁.apply e = .done d₂ ∧ d₂.applyAll after = .done d' ∧
      d₁.applied ≤ d₂.applied ∧ d₂.calls = d₁.calls ++
        if d₁.applied < e.index ∧ e.kind = .normal ∧ e.context = commandMark then
          [(e.index, e.data)] else []
  applied : d'.applied = (es.map Entry.index).foldl max d.applied
  /-- Whoever waits for an entry that is due is let go, and nobody else. -/
  pending : d'.pending = d.pending.filter fun q => q.1 ∉ (dueAfter d.applied es).map Entry.index
  /-- Each of them is told once of the entry that is due at its index. -/
  told : ∃ met : List ((Nat × Proposal) × Entry),
    d'.answers = d.answers ++ met.map (fun m => verdict m.1 m.2) ∧
      (met.map Prod.fst).Perm
        (d.pending.filter fun q => q.1 ∈ (dueAfter d.applied es).map Entry.index) ∧
      ∀ m ∈ met, m.2 ∈ dueAfter d.applied es ∧ m.2.index = m.1.1
  /-- All else stays. -/
  rest : d' = { d with
    machine := d'.machine, applied := d'.applied, pending := d'.pending, answers := d'.answers }

section Run

variable {d d' : Driver κ (Traced μ)} {es : List Entry}

omit [Machine μ] in
theorem callsOf_ascends (index : Nat) (es : List Entry) :
    (callsOf (dueAfter index es)).Pairwise (fun a b => a.1 < b.1) ∧
      ∀ c ∈ callsOf (dueAfter index es), index < c.1 := by
  constructor
  · exact List.pairwise_map.mpr ((dueAfter_ascends index es).filter _)
  · intro c called
    obtain ⟨e, due, rfl⟩ := List.mem_map.mp called
    exact lt_of_mem_dueAfter (List.mem_filter.mp due).1

/-- Of each entry one sees what it did between what came before it and what came after. -/
theorem applyAll_split {before after : List Entry} {e : Entry}
    (done : d.applyAll (before ++ e :: after) = .done d') : ∃ d₁ d₂,
      d.applyAll before = .done d₁ ∧ d₁.apply e = .done d₂ ∧ d₂.applyAll after = .done d' := by
  rw [applyAll_append] at done
  obtain ⟨d₁, first, done⟩ := Applied.bind_done done
  obtain ⟨d₂, next, last⟩ := Applied.bind_done done
  exact ⟨d₁, d₂, first, next, last⟩

theorem appliesOnce_of_done (keyed : d.Keyed) (done : d.applyAll es = .done d') :
    d.AppliesOnce es d' := by
  obtain ⟨noted, reached, -⟩ := applyAll_noted keyed done
  constructor
  case ordered => exact ⟨_, noted.calls, callsOf_ascends d.applied es⟩
  case called =>
    rintro before e after rfl
    obtain ⟨d₁, d₂, first, next, last⟩ := applyAll_split done
    obtain ⟨-, -, keyed₁⟩ := applyAll_noted keyed first
    obtain ⟨-, reached, -⟩ := apply_noted keyed₁ next
    refine ⟨d₁, d₂, first, next, last, by omega, ?_⟩
    simp only [← Entry.isCommand_iff]
    exact calls_apply_eq next
  case applied => exact reached
  case pending => exact noted.pending
  case told =>
    refine ⟨_, noted.answers, ?_, ?_⟩
    · have distinct : ((dueAfter d.applied es).map Entry.index).Nodup :=
        List.pairwise_map.mpr ((dueAfter_ascends d.applied es).imp Nat.ne_of_lt)
      have each := flatMap_filter_perm distinct d.pending
      simpa [List.map_flatMap, met, Function.comp_def] using each
    · intro m waited
      obtain ⟨e, due, here⟩ := List.mem_flatMap.mp waited
      obtain ⟨q, waits, rfl⟩ := List.mem_map.mp here
      exact ⟨due, (of_decide_eq_true (List.mem_filter.mp waits).2).symm⟩
  case rest => exact noted.rest

end Run

end Driver

namespace Loop

variable {κ μ ω : Type} [Core κ] [Machine μ] [Carrier ω]

/-- This is what a loop does with the committed entries of a round, and of what follows one. -/
theorem run_applies {l : Loop κ μ} {es : List Entry} {todo : List Act} {d : Driver κ μ}
    (next : l.todo = es.map .apply ++ todo) (done : l.driver.applyAll es = .done d) (w : ω) :
    l.run w = ({ l with driver := d, todo } : Loop κ μ).run w := by
  induction es generalizing l with
  | nil =>
    cases done
    rw [← show l.todo = todo from next]
  | cons e es ih =>
    obtain ⟨d₁, applied, done⟩ := Applied.bind_done done
    have performed : l.driver.perform w (.apply e) = .done (d₁, w) := by
      rw [Driver.perform, applied]
      rfl
    rw [run_done next performed]
    exact ih rfl done

end Loop

namespace Driver

variable {κ μ ω : Type} [Core κ] [Machine μ] [Carrier ω]

/-- Whatever lists of committed entries come, each command reaches the machine once, in the order
of the log. The lists are gone through to their end, unless the machine does not come back from a
command; so is the list of what a loop has to apply. -/
theorem commands_reach_once {d : Driver κ (Traced μ)} (keyed : d.Keyed)
    (lists : List (List Entry)) : ∃ seen left d', lists.flatten = seen ++ left ∧
      d.applyAll seen = .done d' ∧ d.AppliesOnce seen d' ∧
      (left = [] ∧ d.applyLists lists = .done d' ∨
        ∃ e more, left = e :: more ∧ d'.applied < e.index ∧
          e.kind = .normal ∧ e.context = commandMark ∧
          ((d'.machine.apply e.index e.data = .held ∧ d.applyLists lists = .held) ∨
            ∃ f, d'.machine.apply e.index e.data = .fault f ∧
              d.applyLists lists = .fault f)) ∧
      ∀ (l : Loop κ (Traced μ)) (todo : List Act) (w : ω), l.driver = d →
        l.todo = seen.map .apply ++ todo →
          l.run w = ({ l with driver := d', todo } : Loop κ (Traced μ)).run w := by
  rw [applyLists_eq]
  have loops : ∀ {seen d'}, d.applyAll seen = .done d' →
      ∀ (l : Loop κ (Traced μ)) (todo : List Act) (w : ω), l.driver = d →
        l.todo = seen.map .apply ++ todo →
          l.run w = ({ l with driver := d', todo } : Loop κ (Traced μ)).run w := by
    intro seen d' done l todo w same next
    exact Loop.run_applies next (same ▸ done) w
  rcases d.applyAll_cases lists.flatten with
    ⟨d', done⟩ | ⟨seen, e, more, d', all, done, due, command, stuck⟩
  · exact ⟨_, [], d', (List.append_nil _).symm, done, appliesOnce_of_done keyed done,
      Or.inl ⟨rfl, done⟩, loops done⟩
  · obtain ⟨normal, marked⟩ := Entry.isCommand_iff.mp command
    exact ⟨seen, e :: more, d', all, done, appliesOnce_of_done keyed done,
      Or.inr ⟨e, more, rfl, due, normal, marked, stuck⟩, loops done⟩

/-- After a snapshot of two commands, the next command is empty, then come the empty entry of a
new leader and a change of the membership. Two of those who wait are told, the third waits on. -/
theorem commands_reach_once_of_overlap :
    let d : Driver Replica (Traced Recorder) :=
      { settings := {}, core := default, machine := { machine := { machine := {} } }
        shelf := Sample.shelf, addresses := []
        pending := [(3, ⟨1, 0⟩), (4, ⟨1, 1⟩), (6, ⟨1, 2⟩)]
        applied := 2, lastSnapshot := 2, lastCheck := 0, nextTick := 0 }
    let empty : Entry := { Sample.log 3 with data := [] }
    let lists : List (List Entry) :=
      [[Sample.log 1, Sample.log 2, empty],
        [Sample.log 2, empty, { index := 4, term := 2 },
          { Sample.log 5 with kind := .memberChange }]]
    d.Keyed ∧ ∃ d', d.applyLists lists = .done d' ∧ d.AppliesOnce lists.flatten d' ∧
      d'.calls = [(3, [])] ∧ d'.applied = 5 ∧ d'.pending = [(6, ⟨1, 2⟩)] ∧
      d'.answers = [(0, .ok (.index 3)), (1, .error .leadershipLost)] := by
  intro d empty lists
  have keyed : d.Keyed := by
    change [3, 4, 6].Nodup
    decide
  obtain ⟨seen, left, d', all, -, once, ended, -⟩ :=
    commands_reach_once (ω := Station) keyed lists
  refine ⟨keyed, ?_⟩
  rcases ended with ⟨rfl, done⟩ | ⟨e, more, -, -, -, -, ⟨-, held⟩ | ⟨f, -, fault⟩⟩
  · rw [List.append_nil] at all
    rw [← all] at once
    refine ⟨d', done, once, ?_⟩
    cases done
    exact ⟨rfl, rfl, rfl, rfl⟩
  · cases held
  · cases fault

end Driver

end QuorumLab
