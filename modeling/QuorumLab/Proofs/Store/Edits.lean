import QuorumLab.Proofs.Store.History

/-!
# How edits of a log compose

A batch can be split or sent again, of several compactions the furthest counts, and a batch
that begins no lower than the place a log is compacted to is taken alike before and after.
-/

namespace QuorumLab

/-! ## Edits of the log itself -/

attribute [ext] Log

namespace Log

variable {l m r : Log} {n c j k : Nat} {a b batch : List Entry}

/-- A batch is taken if it neither leaves a gap nor touches compacted history. -/
theorem append_eq_ok_iff (new : batch ≠ []) (run : Consecutive n batch) :
    l.append batch = .ok m ↔ l.first ≤ n ∧ n ≤ l.last + 1 ∧
      m = { l with entries := l.entries.take (n - l.first) ++ batch } := by
  cases batch with
  | nil => exact absurd rfl new
  | cons e rest =>
    obtain ⟨rfl, -⟩ := run
    constructor
    · intro taken
      exact append_cons taken
    · rintro ⟨low, near, rfl⟩
      simp only [append]
      rw [if_neg (by omega), if_neg (by omega)]

theorem length_kept (near : n ≤ l.last + 1) :
    (l.entries.take (n - l.first)).length = n - l.first := by
  apply List.length_take_of_le
  simp only [first, last] at *
  omega

theorem indexed_append (h : l.Indexed) (run : Consecutive n batch)
    (taken : l.append batch = .ok m) : m.Indexed := by
  by_cases none : batch = []
  · subst none
    cases taken
    exact h
  · obtain ⟨low, near, -⟩ := (append_eq_ok_iff none run).mp taken
    obtain ⟨m', taken', indexed, -⟩ := append_ok h none run low near
    cases taken.symm.trans taken'
    exact indexed

/-- No log is compacted past the place after its end. -/
theorem compact_inside (moved : l.compact k = .ok m) : k ≤ l.last + 1 := by
  by_cases done : k ≤ l.first
  · simp only [first, last] at *
    omega
  · simp only [compact, if_neg done] at moved
    cases held : l.entries[k - l.first - 1]? with
    | none =>
      rw [held] at moved
      cases moved
    | some e =>
      have inside := (List.getElem?_eq_some_iff.mp held).1
      simp only [first, last] at *
      omega

/-- Compaction leaves the end of a log where it is. -/
theorem last_compact (h : l.Indexed) (moved : l.compact k = .ok m) : m.last = l.last := by
  obtain ⟨m', moved', -, -, last⟩ := compact_ok h (compact_inside moved)
  cases moved.symm.trans moved'
  exact last

/-- What is left of a log depends on where the cut comes to lie, and not on how it came there. -/
theorem compact_eq_ok_iff (h : l.Indexed) : l.compact k = .ok m ↔ k ≤ l.last + 1 ∧
    m.offset = max l.offset (k - 1) ∧ m.entries = l.entries.drop (m.first - l.first) ∧
      l.term m.offset = .ok m.offsetTerm := by
  have spec : ∀ {m}, l.compact k = .ok m → m.offset = max l.offset (k - 1) ∧
      m.entries = l.entries.drop (m.first - l.first) ∧ l.term m.offset = .ok m.offsetTerm := by
    intro m moved
    obtain ⟨m', moved', -, offset, -⟩ := compact_ok h (compact_inside moved)
    cases moved.symm.trans moved'
    have known : m.term m.offset = .ok m.offsetTerm := if_pos rfl
    exact ⟨offset, (entries_compact moved).2, term_compact moved (Nat.le_refl _) ▸ known⟩
  constructor
  · intro moved
    exact ⟨compact_inside moved, spec moved⟩
  · rintro ⟨inside, offset, entries, known⟩
    obtain ⟨m', moved, -⟩ := compact_ok h inside
    obtain ⟨offset', entries', known'⟩ := spec moved
    have same : m.offset = m'.offset := offset.trans offset'.symm
    have term : m'.offsetTerm = m.offsetTerm := by
      rw [same, known'] at known
      exact Except.ok.inj known
    have held : m.entries = m'.entries := by
      rw [entries, entries', first, same]
      rfl
    rw [moved, Log.ext same term.symm held]

/-- A batch that is taken whole is taken in two parts, and the log between them ends no later
than the logs before and after. -/
theorem append_split (run : Consecutive n (a ++ b)) (taken : l.append (a ++ b) = .ok m) :
    ∃ l', l.append a = .ok l' ∧ l'.append b = .ok m ∧ l'.last ≤ max l.last m.last := by
  by_cases no_a : a = []
  · subst no_a
    exact ⟨l, rfl, taken, Nat.le_max_left _ _⟩
  by_cases no_b : b = []
  · subst no_b
    rw [List.append_nil] at taken
    exact ⟨m, taken, rfl, Nat.le_max_right _ _⟩
  obtain ⟨run_a, run_b⟩ := Consecutive.append_iff.mp run
  obtain ⟨low, near, rfl⟩ := (append_eq_ok_iff (by simp [no_a]) run).mp taken
  have kept := length_kept near
  have whole : (l.entries.take (n - l.first) ++ a).length = n + a.length - l.first := by
    rw [List.length_append, kept]
    omega
  refine ⟨_, (append_eq_ok_iff no_a run_a).mpr ⟨low, near, rfl⟩,
    (append_eq_ok_iff no_b run_b).mpr ⟨?_, ?_, ?_⟩, ?_⟩
  · exact Nat.le_trans low (Nat.le_add_right n a.length)
  · simp only [first, last] at *
    omega
  · have held := List.take_of_length_le (Nat.le_of_eq whole)
    simp only [first] at held ⊢
    rw [held, List.append_assoc]
  · simp only [last, List.length_append]
    omega

/-- A batch that was taken is taken again and changes nothing. -/
theorem append_again (run : Consecutive n batch) (taken : l.append batch = .ok m) :
    m.append batch = .ok m := by
  by_cases none : batch = []
  · subst none
    rfl
  obtain ⟨low, near, rfl⟩ := (append_eq_ok_iff none run).mp taken
  have kept := length_kept near
  refine (append_eq_ok_iff none run).mpr ⟨low, ?_, ?_⟩
  · simp only [first, last, List.length_append] at *
    omega
  · have same : (l.entries.take (n - l.first) ++ batch).take (n - l.first)
        = l.entries.take (n - l.first) := List.take_left' kept
    simp only [first] at same ⊢
    rw [same]

/-- The furthest of two compactions counts. -/
theorem compact_compact (h : l.Indexed) (moved : l.compact j = .ok m)
    (inside : k ≤ l.last + 1) : m.compact k = l.compact (max j k) := by
  obtain ⟨m', moved', indexed, offset, last⟩ := compact_ok h (compact_inside moved)
  cases moved.symm.trans moved'
  have entries := (entries_compact moved).2
  have both : max j k ≤ l.last + 1 := Nat.max_le.mpr ⟨compact_inside moved, inside⟩
  obtain ⟨r, done, -⟩ := compact_ok h both
  obtain ⟨-, offset_r, entries_r, known⟩ := (compact_eq_ok_iff h).mp done
  rw [done]
  refine (compact_eq_ok_iff indexed).mpr ⟨by omega, by omega, ?_, ?_⟩
  · have places : m.first - l.first + (r.first - m.first) = r.first - l.first := by
      simp only [first]
      omega
    rw [entries_r, entries, List.drop_drop, places]
  · rw [term_compact moved (by omega), known]

/-- A batch above the cut is taken alike before and after compaction. -/
theorem compact_append (h : l.Indexed) (run : Consecutive n batch) (above : batch ≠ [] → c ≤ n)
    (moved : l.compact c = .ok m) (taken : m.append batch = .ok r) :
    ∃ l', l.append batch = .ok l' ∧ l'.compact c = .ok r := by
  by_cases none : batch = []
  · subst none
    cases taken
    exact ⟨l, rfl, moved⟩
  obtain ⟨m', moved', -, offset, last⟩ := compact_ok h (compact_inside moved)
  cases moved.symm.trans moved'
  obtain ⟨-, -, entries, known⟩ := (compact_eq_ok_iff h).mp moved
  obtain ⟨low, near, rfl⟩ := (append_eq_ok_iff none run).mp taken
  have above := above none
  have taken' := (append_eq_ok_iff (l := l) none run).mpr
    ⟨by simp only [first] at *; omega, by omega, rfl⟩
  refine ⟨_, taken', (compact_eq_ok_iff (indexed_append h run taken')).mpr ⟨?_, offset, ?_, ?_⟩⟩
  · have kept := length_kept (l := l) (n := n) (by omega)
    simp only [Log.last, List.length_append, kept, first] at *
    omega
  · have short : m.first - l.first ≤ (l.entries.take (n - l.first)).length := by
      rw [length_kept (by omega)]
      omega
    have places : n - l.first - (m.first - l.first) = n - m.first := by
      simp only [first] at *
      omega
    have cut : (l.entries.take (n - l.first) ++ batch).drop (m.first - l.first) = _ :=
      List.drop_append_of_le_length short
    rw [List.drop_take, places, ← entries] at cut
    exact cut.symm
  · obtain ⟨e, rest, rfl⟩ := List.exists_cons_of_ne_nil none
    have start : e.index = n := run.1
    rw [term_append rfl taken' (by simp only [first] at *; omega)]
    exact known

end Log

/-! ## Edits behind the lock -/

namespace LockedLog

variable {s : LockedLog} {v : Edit} {l : Log} {n c j k : Nat} {a b batch : List Entry}

/-- Behind a poisoned lock nothing is edited; only that nothing was appended goes unnoticed. -/
theorem append_poisoned (bad : s.poisoned = true) (new : batch ≠ []) :
    s.append batch = (.error .poisoned, s) := by
  obtain ⟨log, poisoned⟩ := s
  cases bad
  obtain ⟨e, rest, rfl⟩ := List.exists_cons_of_ne_nil new
  rfl

theorem compact_poisoned (bad : s.poisoned = true) (k : Nat) :
    s.compact k = (.error .poisoned, s) := by
  obtain ⟨log, poisoned⟩ := s
  cases bad
  rfl

section Sound

variable (sound : s.poisoned = false) (low : s.log.last < maxWord)
include sound low

theorem perform_ok (taken : s.log.perform v = .ok l) :
    s.perform v = (.ok (.ok ()), { s with log := l }) := by
  rw [perform_eq sound low, taken]

/-- What is done to the store is done to its log. -/
theorem perform_done (done : (s.perform v).1 = .ok (.ok ())) :
    ∃ l, s.log.perform v = .ok l ∧ s.perform v = (.ok (.ok ()), { s with log := l }) := by
  cases taken : s.log.perform v with
  | ok l => exact ⟨l, rfl, perform_ok sound low taken⟩
  | error r =>
    rw [perform_eq sound low, taken] at done
    cases done

theorem append_done (done : (s.append batch).1 = .ok (.ok ())) :
    ∃ l, s.log.append batch = .ok l ∧ s.append batch = (.ok (.ok ()), { s with log := l }) :=
  perform_done (v := .append batch) sound low done

theorem compact_done (done : (s.compact k).1 = .ok (.ok ())) :
    ∃ l, s.log.compact k = .ok l ∧ s.compact k = (.ok (.ok ()), { s with log := l }) :=
  perform_done (v := .compact k) sound low done

/-- An edit that was refused is refused again, so one that leaves its own result alone can be
made twice. -/
theorem perform_again
    (again : ∀ l, s.log.perform v = .ok l → l.last < maxWord ∧ l.perform v = .ok l) :
    (s.perform v).2.perform v = s.perform v := by
  cases taken : s.log.perform v with
  | ok l =>
    obtain ⟨low', same⟩ := again l taken
    rw [perform_ok sound low taken]
    exact perform_ok (s := { s with log := l }) sound low' same
  | error r =>
    have refused : s.perform v = (.ok (.error r), s) := by rw [perform_eq sound low, taken]
    rw [refused]
    exact refused

theorem again_sound (run : Consecutive n batch) (low' : (s.append batch).2.log.last < maxWord) :
    (s.append batch).2.append batch = s.append batch := by
  apply perform_again (v := .append batch) sound low
  intro l taken
  have done : s.append batch = (.ok (.ok ()), { s with log := l }) :=
    perform_ok (v := .append batch) sound low taken
  rw [done] at low'
  exact ⟨low', Log.append_again run taken⟩

theorem split_sound (run : Consecutive n (a ++ b)) (done : (s.append (a ++ b)).1 = .ok (.ok ()))
    (low' : (s.append (a ++ b)).2.log.last < maxWord) :
    (s.append a).1 = .ok (.ok ()) ∧ (s.append a).2.append b = s.append (a ++ b) := by
  obtain ⟨m, taken, whole⟩ := append_done sound low done
  rw [whole] at low'
  obtain ⟨l, taken_a, taken_b, between⟩ := Log.append_split run taken
  have part : s.append a = (.ok (.ok ()), { s with log := l }) :=
    perform_ok (v := .append a) sound low taken_a
  have low_l : l.last < maxWord := Nat.lt_of_le_of_lt between (Nat.max_lt.mpr ⟨low, low'⟩)
  rw [part, whole]
  exact ⟨rfl, perform_ok (s := { s with log := l }) (v := .append b) sound low_l taken_b⟩

variable (h : s.log.Indexed)
include h

theorem once_sound (k : Nat) : (s.compact k).2.compact k = s.compact k := by
  apply perform_again (v := .compact k) sound low
  intro l moved
  change s.log.compact k = .ok l at moved
  have same := Log.compact_compact h moved (Log.compact_inside moved)
  rw [Nat.max_self, moved] at same
  exact ⟨Log.last_compact h moved ▸ low, same⟩

/-- The second of two compactions comes to where the furthest of them leads. -/
theorem further_sound (done : (s.compact j).1 = .ok (.ok ()))
    (done' : (s.compact k).1 = .ok (.ok ())) : (s.compact (max j k)).1 = .ok (.ok ()) ∧
      (s.compact j).2.compact k = s.compact (max j k) := by
  obtain ⟨m, moved, first⟩ := compact_done sound low done
  obtain ⟨_, moved', -⟩ := compact_done sound low done'
  have inside := Log.compact_inside moved
  have inside' := Log.compact_inside moved'
  obtain ⟨r, both, -⟩ := Log.compact_ok h (Nat.max_le.mpr ⟨inside, inside'⟩)
  have furthest : s.compact (max j k) = (.ok (.ok ()), { s with log := r }) :=
    perform_ok (v := .compact (max j k)) sound low both
  have low_m : m.last < maxWord := Log.last_compact h moved ▸ low
  rw [first, furthest]
  refine ⟨rfl, perform_ok (s := { s with log := m }) (v := .compact k) sound low_m ?_⟩
  exact (Log.compact_compact h moved inside').trans both

theorem exchange_sound (run : Consecutive n batch) (above : batch ≠ [] → c ≤ n)
    (done : (s.compact c).1 = .ok (.ok ()))
    (done' : ((s.compact c).2.append batch).1 = .ok (.ok ()))
    (low' : ((s.compact c).2.append batch).2.log.last < maxWord) :
    (s.append batch).1 = .ok (.ok ()) ∧
      (s.append batch).2.compact c = (s.compact c).2.append batch := by
  obtain ⟨m, moved, first⟩ := compact_done sound low done
  rw [first] at done' low' ⊢
  have low_m : m.last < maxWord := Log.last_compact h moved ▸ low
  obtain ⟨r, taken, second⟩ := append_done (s := { s with log := m }) sound low_m done'
  obtain ⟨l, taken', moved'⟩ := Log.compact_append h run above moved taken
  have part : s.append batch = (.ok (.ok ()), { s with log := l }) :=
    perform_ok (v := .append batch) sound low taken'
  have last := Log.last_compact (Log.indexed_append h run taken') moved'
  rw [second] at low' ⊢
  rw [part]
  have low_l : l.last < maxWord := last ▸ low'
  exact ⟨rfl, perform_ok (s := { s with log := l }) (v := .compact c) sound low_l moved'⟩

end Sound

/-- How edits of a store combine. -/
structure Composes (s : LockedLog) : Prop where
  /-- A batch can be appended in two parts. -/
  split : ∀ n a b, Consecutive n (a ++ b) → (s.append (a ++ b)).1 = .ok (.ok ()) →
    (s.append (a ++ b)).2.log.last < maxWord →
      (s.append a).1 = .ok (.ok ()) ∧ (s.append a).2.append b = s.append (a ++ b)
  /-- A batch can be appended twice, whether it is taken or refused. -/
  again : ∀ n batch, Consecutive n batch → (s.append batch).2.log.last < maxWord →
    (s.append batch).2.append batch = s.append batch
  /-- The furthest of two compactions counts, in either order. -/
  furthest : ∀ j k, (s.compact j).1 = .ok (.ok ()) → (s.compact k).1 = .ok (.ok ()) →
    (s.compact (max j k)).1 = .ok (.ok ()) ∧
      (s.compact j).2.compact k = s.compact (max j k) ∧
      (s.compact k).2.compact j = s.compact (max j k)
  once : ∀ k, (s.compact k).2.compact k = s.compact k
  /-- A batch that begins where a log is compacted to, or above, can as well be appended first. -/
  exchange : ∀ n c batch, Consecutive n batch → (batch ≠ [] → c ≤ n) →
    (s.compact c).1 = .ok (.ok ()) → ((s.compact c).2.append batch).1 = .ok (.ok ()) →
    ((s.compact c).2.append batch).2.log.last < maxWord →
      (s.append batch).1 = .ok (.ok ()) ∧
        (s.append batch).2.compact c = (s.compact c).2.append batch

theorem composes_poisoned (bad : s.poisoned = true) : s.Composes := by
  constructor
  case split =>
    intro n a b run done low
    by_cases none : a ++ b = []
    · obtain ⟨rfl, rfl⟩ := List.append_eq_nil_iff.mp none
      exact ⟨rfl, rfl⟩
    · rw [append_poisoned bad none] at done
      cases done
  case again =>
    intro n batch run low
    by_cases none : batch = []
    · subst none
      rfl
    · rw [append_poisoned bad none]
      exact append_poisoned bad none
  case furthest =>
    intro j k done
    rw [compact_poisoned bad] at done
    cases done
  case once =>
    intro k
    rw [compact_poisoned bad]
    exact compact_poisoned bad k
  case exchange =>
    intro n c batch run above done
    rw [compact_poisoned bad] at done
    cases done

/-- Batches can be split and sent again, compactions can come in any order, and compaction and a
batch above it commute: answers and stores are the same, as long as indexes are words with one
to spare. -/
theorem edits_compose (h : s.log.Indexed) (low : s.log.last < maxWord) : s.Composes := by
  cases sound : s.poisoned with
  | true => exact composes_poisoned sound
  | false =>
    constructor
    case split => exact fun n a b run done low' => split_sound sound low run done low'
    case again => exact fun n batch run low' => again_sound sound low run low'
    case furthest =>
      intro j k done done'
      obtain ⟨whole, first⟩ := further_sound sound low h done done'
      obtain ⟨-, second⟩ := further_sound sound low h done' done
      rw [Nat.max_comm k j] at second
      exact ⟨whole, first, second⟩
    case once => exact once_sound sound low h
    case exchange =>
      exact fun n c batch run above done done' low' =>
        exchange_sound sound low h run above done done' low'

/-- A log of three entries behind a cut is compacted to its last one, which a batch replaces. The
other way round the batch replaces it first, and the store comes to the same. -/
theorem edits_compose_of_conflict :
    let entry (index term : Nat) : Entry := { index, term }
    let s : LockedLog :=
      { log := { offset := 1, offsetTerm := 1, entries := [entry 2 1, entry 3 1, entry 4 1] } }
    let batch := [entry 4 2, entry 5 2]
    s.log.Indexed ∧ s.log.last < maxWord ∧ s.Composes ∧
      (s.append batch).2.compact 4 = (s.compact 4).2.append batch ∧
      ((s.compact 4).2.append batch).2.log =
        { offset := 3, offsetTerm := 1, entries := batch } := by
  intro entry s batch
  have indexed : s.log.Indexed := by
    change Consecutive 2 _
    decide
  have low : s.log.last < maxWord := by decide
  have laws := edits_compose indexed low
  refine ⟨indexed, low, laws, ?_, by decide⟩
  exact (laws.exchange 4 4 batch (by decide) (fun _ => Nat.le_refl 4) rfl rfl (by decide)).2

end LockedLog

end QuorumLab
