import QuorumLab.Proofs.Runs
import QuorumLab.Proofs.Store.Indexed
import QuorumLab.Store.LockedLog

/-!
# A log that forgets nothing

The history of a log is what it would be had it never been compacted: the base of the last
reset, every entry since, and a cut below which nothing is answered any more. However edits
follow each other, the log store answers as its history does.
-/

namespace QuorumLab

/-- Everything since the last reset, which was to `base`; what lies below `cut` was dropped. -/
structure LogHistory where
  base : Nat := 0
  baseTerm : Nat := 0
  entries : List Entry := []
  cut : Nat := 0
  deriving Repr, DecidableEq

namespace LogHistory

/-- Index of the last entry, or of the base when there is none. -/
def last (h : LogHistory) : Nat := h.base + h.entries.length

def term? (h : LogHistory) (index : Nat) : Option Nat :=
  if index = h.base then some h.baseTerm
  else (h.entries.find? (·.index == index)).map Entry.term

/-- Entries `low, …, high - 1`. -/
def between (h : LogHistory) (low high : Nat) : List Entry :=
  h.entries.filter fun e => low ≤ e.index && e.index < high

/-- Keep the entries below the batch and put it in place of all others. -/
def append (h : LogHistory) (batch : List Entry) : Except Log.Refused LogHistory :=
  match batch.head? with
  | none => .ok h
  | some e =>
    if e.index ≤ h.cut then .error (.overwrites e.index (h.cut + 1))
    else if h.last + 1 < e.index then .error (.gap h.last e.index)
    else .ok { h with entries := h.entries.filter (·.index < e.index) ++ batch }

/-- Move the cut to just before `index`, never back. No entry is lost. -/
def compact (h : LogHistory) (index : Nat) : Except Log.Refused LogHistory :=
  if index - 1 ≤ h.cut then .ok h
  else if h.last + 1 < index then .error (.beyond index h.last)
  else .ok { h with cut := index - 1 }

def reset (index term : Nat) : LogHistory := { base := index, baseTerm := term, cut := index }

end LogHistory

/-- A call that edits a log. -/
inductive Edit where
  | append (batch : List Entry)
  | compact (index : Nat)
  | reset (index term : Nat)
  deriving Repr, DecidableEq

/-- A batch that is appended is consecutive. -/
def Edit.Ordered : Edit → Prop
  | .append batch => ∀ e ∈ batch.head?, Consecutive e.index batch
  | .compact _ | .reset _ _ => True

instance : ∀ v : Edit, Decidable v.Ordered
  | .append batch => inferInstanceAs (Decidable (∀ e ∈ batch.head?, Consecutive e.index batch))
  | .compact _ | .reset _ _ => isTrue trivial

def Log.perform (l : Log) : Edit → Except Log.Refused Log
  | .append batch => l.append batch
  | .compact index => l.compact index
  | .reset index term => .ok (reset index term)

def LogHistory.perform (h : LogHistory) : Edit → Except Log.Refused LogHistory
  | .append batch => h.append batch
  | .compact index => h.compact index
  | .reset index term => .ok (reset index term)

/-- The history after an edit; one that is refused leaves it as it was. -/
def LogHistory.after (h : LogHistory) (v : Edit) : LogHistory :=
  match h.perform v with
  | .ok h' => h'
  | .error _ => h

namespace LockedLog

def perform (s : LockedLog) : Edit → Except Fault (Except Log.Refused Unit) × LockedLog
  | .append batch => s.append batch
  | .compact index => s.compact index
  | .reset index term => ((s.reset index term).1.map .ok, (s.reset index term).2)

/-- The store beside its history. No edit may bring the last index to the largest word. -/
def edits : System (LockedLog × LogHistory) Edit where
  admits s v := v.Ordered ∧ (s.1.perform v).2.log.last < maxWord
  after s v := ((s.1.perform v).2, s.2.after v)

instance (s : LockedLog × LogHistory) (v : Edit) : Decidable (edits.admits s v) :=
  inferInstanceAs (Decidable (_ ∧ _))

end LockedLog

/-! ## What a log holds of its history -/

/-- The log holds of the history what lies above the cut, and the term at the cut. -/
structure Log.Mirrors (l : Log) (h : LogHistory) : Prop where
  cut : l.offset = h.cut
  base_le : h.base ≤ h.cut
  cut_le : h.cut ≤ h.last
  run : Consecutive (h.base + 1) h.entries
  entries : l.entries = h.entries.drop (h.cut - h.base)
  term : h.term? h.cut = some l.offsetTerm

namespace LogHistory

variable {h : LogHistory} {index : Nat}

theorem term?_above (run : Consecutive (h.base + 1) h.entries) (above : h.base < index) :
    h.term? index = (h.entries[index - (h.base + 1)]?).map Entry.term := by
  rw [term?, if_neg (by omega), run.find?_index above]

/-- Entries of a run from `low` on, up to `high`, are cut out of it by position. -/
theorem between_eq {low high : Nat} (run : Consecutive (h.base + 1) h.entries)
    (inside : h.base < low) :
    h.between low high = (h.entries.drop (low - (h.base + 1))).take (high - low) := by
  have below : (h.entries.filter (low ≤ ·.index)).filter (·.index < high) =
      h.between low high := by
    rw [List.filter_filter, between]
    congr 1
    funext e
    rw [Bool.and_comm]
  rw [← below, run.filter_le_index]
  by_cases whole : low - (h.base + 1) ≤ h.entries.length
  · have rest := run.drop whole
    have start : h.base + 1 + (low - (h.base + 1)) = low := by omega
    rw [start] at rest
    exact rest.filter_index_lt high
  · have none : h.entries.drop (low - (h.base + 1)) = [] := List.drop_eq_nil_of_le (by omega)
    rw [none]
    simp

end LogHistory

namespace Log.Mirrors

variable {l : Log} {h : LogHistory} {index low high : Nat}

theorem last_eq (m : l.Mirrors h) : l.last = h.last := by
  have base_le := m.base_le
  have cut_le := m.cut_le
  have cut := m.cut
  simp only [Log.last, LogHistory.last, m.entries, List.length_drop] at *
  omega

theorem first_eq (m : l.Mirrors h) : l.first = h.cut + 1 := by rw [Log.first, m.cut]

theorem indexed (m : l.Mirrors h) : l.Indexed := by
  have base_le := m.base_le
  have cut_le := m.cut_le
  have rest := m.run.drop (k := h.cut - h.base) (by simp only [LogHistory.last] at cut_le; omega)
  have start : h.base + 1 + (h.cut - h.base) = h.cut + 1 := by omega
  rw [start] at rest
  rw [Log.Indexed, m.first_eq, m.entries]
  exact rest

theorem term_eq (m : l.Mirrors h) (low : h.cut ≤ index) (high : index ≤ h.last) :
    ∃ t, h.term? index = some t ∧ l.term index = .ok t := by
  by_cases edge : index = h.cut
  · exact ⟨l.offsetTerm, edge ▸ m.term, if_pos (edge.trans m.cut.symm)⟩
  · have base_le := m.base_le
    have inside : index - (h.base + 1) < h.entries.length := by
      simp only [LogHistory.last] at high
      omega
    have place : h.cut - h.base + (index - l.first) = index - (h.base + 1) := by
      rw [m.first_eq]
      omega
    refine ⟨(h.entries[index - (h.base + 1)]).term, ?_, ?_⟩
    · rw [LogHistory.term?_above m.run (by omega), List.getElem?_eq_getElem inside]
      rfl
    · rw [Log.term, m.cut, if_neg edge, if_neg (by omega), m.entries, List.getElem?_drop, place,
        List.getElem?_eq_getElem inside]

theorem term_unavailable (m : l.Mirrors h) (high : h.last < index) :
    l.term index = .error .unavailable := by
  have cut_le := m.cut_le
  have past : l.entries[index - l.first]? = none := by
    rw [List.getElem?_eq_none_iff]
    have last := m.last_eq
    simp only [Log.last, Log.first] at *
    omega
  rw [Log.term, m.cut, if_neg (by omega), if_neg (by omega), past]

theorem slice_eq (m : l.Mirrors h) (above : h.cut < low) (ordered : low ≤ high)
    (inside : high ≤ h.last + 1) : l.slice low high = .ok (h.between low high) := by
  have base_le := m.base_le
  have place : h.cut - h.base + (low - (h.cut + 1)) = low - (h.base + 1) := by omega
  rw [Log.slice, m.first_eq, m.last_eq, if_neg (by omega), if_neg (by omega), m.entries,
    List.drop_drop, place, LogHistory.between_eq m.run (by omega)]

/-- Element `k` of a slice has the index `low + k`. -/
theorem between_placed (m : l.Mirrors h) (above : h.cut < low) (ordered : low ≤ high)
    (inside : high ≤ h.last + 1) :
    Consecutive low (h.between low high) ∧ (h.between low high).length = high - low := by
  have base_le := m.base_le
  rw [LogHistory.between_eq m.run (by omega)]
  simp only [LogHistory.last] at inside
  constructor
  · have rest := m.run.drop (k := low - (h.base + 1)) (by omega)
    have start : h.base + 1 + (low - (h.base + 1)) = low := by omega
    rw [start] at rest
    exact rest.take (high - low)
  · simp only [List.length_take, List.length_drop]
    omega

/-! ## Edits -/

theorem empty : ({} : Log).Mirrors {} := ⟨rfl, Nat.le_refl 0, Nat.le_refl 0, trivial, rfl, rfl⟩

theorem reset (index term : Nat) : (Log.reset index term).Mirrors (.reset index term) where
  cut := rfl
  base_le := Nat.le_refl index
  cut_le := Nat.le_refl index
  run := trivial
  entries := List.drop_nil.symm
  term := if_pos rfl

/-- Entries below the batch are kept on both sides; the cut lies below it. -/
theorem append {batch : List Entry} {e : Entry} (m : l.Mirrors h) (head : batch.head? = some e)
    (run : Consecutive e.index batch) (above : h.cut < e.index) (near : e.index ≤ h.last + 1) :
    Mirrors { l with entries := l.entries.take (e.index - l.first) ++ batch }
      { h with entries := h.entries.filter (·.index < e.index) ++ batch } := by
  have base_le := m.base_le
  have keep : e.index - (h.base + 1) ≤ h.entries.length := by
    simp only [LogHistory.last] at near
    omega
  have length : (h.entries.take (e.index - (h.base + 1))).length = e.index - (h.base + 1) :=
    List.length_take_of_le keep
  rw [m.run.filter_index_lt]
  have joined : Consecutive (h.base + 1) (h.entries.take (e.index - (h.base + 1)) ++ batch) := by
    refine Consecutive.append_iff.mpr ⟨m.run.take _, ?_⟩
    have start : h.base + 1 + (e.index - (h.base + 1)) = e.index := by omega
    rwa [length, start]
  constructor
  case cut => exact m.cut
  case base_le => exact base_le
  case cut_le =>
    have new : batch ≠ [] := by rintro rfl; cases head
    have := List.length_pos_iff.mpr new
    simp only [LogHistory.last, List.length_append, length]
    omega
  case run => exact joined
  case entries =>
    have short : h.cut - h.base ≤ (h.entries.take (e.index - (h.base + 1))).length := by omega
    have places : e.index - (h.base + 1) - (h.cut - h.base) = e.index - (h.cut + 1) := by omega
    simp only [m.entries, m.first_eq, List.drop_append_of_le_length short, List.drop_take, places]
  case term =>
    have known := m.term
    by_cases edge : h.cut = h.base
    · simp only [LogHistory.term?, edge, if_true] at known ⊢
      exact known
    · rw [LogHistory.term?_above m.run (by omega)] at known
      rw [LogHistory.term?_above joined (by change h.base < h.cut; omega)]
      have before : h.cut - (h.base + 1) < e.index - (h.base + 1) := by omega
      change ((h.entries.take _ ++ batch)[h.cut - (h.base + 1)]?).map Entry.term = _
      rw [List.getElem?_append_left (by omega), List.getElem?_take_of_lt before]
      exact known

/-- Compaction moves the cut to an entry that the log still holds. -/
theorem compact (m : l.Mirrors h) (above : h.cut < index - 1) (inside : index ≤ h.last + 1) :
    ∃ l', l.compact index = .ok l' ∧ l'.Mirrors { h with cut := index - 1 } := by
  have base_le := m.base_le
  have first := m.first_eq
  have last := m.last_eq
  have held : index - l.first - 1 < l.entries.length := by
    simp only [Log.last, Log.first] at *
    omega
  rw [Log.compact, if_neg (by omega), List.getElem?_eq_getElem held]
  refine ⟨_, rfl, ?_⟩
  constructor
  case cut => rfl
  case base_le => change h.base ≤ index - 1; omega
  case cut_le => change index - 1 ≤ h.last; omega
  case run => exact m.run
  case entries =>
    have place : h.cut - h.base + (index - (h.cut + 1)) = index - 1 - h.base := by omega
    simp only [m.entries, first, List.drop_drop, place]
  case term =>
    have place : h.cut - h.base + (index - l.first - 1) = index - 1 - (h.base + 1) := by omega
    have same : l.entries[index - l.first - 1]? = h.entries[index - 1 - (h.base + 1)]? := by
      rw [m.entries, List.getElem?_drop, place]
    change h.term? (index - 1) = _
    rw [LogHistory.term?_above m.run (by omega), ← same, List.getElem?_eq_getElem held]
    rfl

/-- An edit is done by both, or refused by both for the same reason. -/
theorem perform (m : l.Mirrors h) {v : Edit} (ordered : v.Ordered) :
    (∃ l' h', l.perform v = .ok l' ∧ h.perform v = .ok h' ∧ l'.Mirrors h') ∨
      ∃ r, l.perform v = .error r ∧ h.perform v = .error r := by
  have first := m.first_eq
  have last := m.last_eq
  cases v with
  | append batch =>
    cases batch with
    | nil => exact Or.inl ⟨l, h, rfl, rfl, m⟩
    | cons e rest =>
      simp only [Log.perform, LogHistory.perform, Log.append, LogHistory.append, List.head?_cons]
      by_cases low : e.index ≤ h.cut
      · exact Or.inr ⟨.overwrites e.index (h.cut + 1), by rw [if_pos (by omega), first],
          by rw [if_pos low]⟩
      · by_cases far : h.last + 1 < e.index
        · exact Or.inr ⟨.gap h.last e.index,
            by rw [if_neg (by omega), if_pos (by omega), last], by rw [if_neg low, if_pos far]⟩
        · exact Or.inl ⟨_, _, by rw [if_neg (by omega), if_neg (by omega)],
            by rw [if_neg low, if_neg far],
            m.append rfl (ordered e rfl) (by omega) (by omega)⟩
  | compact index =>
    simp only [Log.perform, LogHistory.perform, LogHistory.compact]
    by_cases done : index - 1 ≤ h.cut
    · exact Or.inl ⟨l, h, by rw [Log.compact, if_pos (by omega)], by rw [if_pos done], m⟩
    · by_cases far : h.last + 1 < index
      · have past : l.entries[index - l.first - 1]? = none := by
          rw [List.getElem?_eq_none_iff]
          simp only [Log.last, Log.first] at *
          omega
        exact Or.inr ⟨.beyond index h.last,
          by rw [Log.compact, if_neg (by omega), past, last], by rw [if_neg done, if_pos far]⟩
      · obtain ⟨l', moved, m'⟩ := m.compact (by omega) (by omega : index ≤ h.last + 1)
        exact Or.inl ⟨l', _, moved, by rw [if_neg done, if_neg far], m'⟩
  | reset index term => exact Or.inl ⟨_, _, rfl, rfl, .reset index term⟩

end Log.Mirrors

/-! ## Behind the lock -/

namespace LockedLog

variable {s : LockedLog} {h : LogHistory}

theorem sum_ok {n : Nat} (h : n ≤ maxWord) : Word.sum n = .ok n := if_pos h

theorem unlock_ok (sound : s.poisoned = false) : s.unlock = .ok s.log := by
  simp [unlock, sound]

theorem bounded_ok {l : Log} (low : l.last < maxWord) (index : Nat) :
    bounded l index = .ok () := by
  have first : l.first ≤ maxWord := by
    simp only [Log.last, Log.first] at *
    omega
  rw [bounded, sum_ok first]
  simp only [bind, Except.bind]
  split
  · rw [sum_ok (by omega)]
    rfl
  · rfl

theorem first_ok (sound : s.poisoned = false) (low : s.log.last < maxWord) :
    s.first = .ok s.log.first := by
  simp only [LockedLog.first, unlock_ok sound, bind, Except.bind]
  apply sum_ok
  simp only [Log.last, Log.first] at *
  omega

theorem term_eq (sound : s.poisoned = false) (low : s.log.last < maxWord) (index : Nat) :
    s.term index = .ok (s.log.term index) := by
  simp only [LockedLog.term, unlock_ok sound, bind, Except.bind]
  split
  · rw [sum_ok (by omega)]
    rfl
  · rfl

theorem edit_ok (sound : s.poisoned = false) {v : Edit}
    {change : Log → Except Fault (Except Log.Refused Log)}
    (does : change s.log = .ok (s.log.perform v)) :
    s.edit change = match s.log.perform v with
      | .ok log => (.ok (.ok ()), { s with log })
      | .error r => (.ok (.error r), s) := by
  have done : (s.unlock >>= change) = .ok (s.log.perform v) := by
    rw [unlock_ok sound]
    exact does
  rw [edit, done]
  cases s.log.perform v <;> rfl

/-- While the last index is below the largest word, no edit is a fault. -/
theorem perform_eq (sound : s.poisoned = false) (low : s.log.last < maxWord) (v : Edit) :
    s.perform v = match s.log.perform v with
      | .ok log => (.ok (.ok ()), { s with log })
      | .error r => (.ok (.error r), s) := by
  cases v with
  | append batch =>
    cases batch with
    | nil => rfl
    | cons e rest =>
      apply edit_ok (v := .append (e :: rest)) sound
      rw [bounded_ok low]
      rfl
  | compact index =>
    apply edit_ok (v := .compact index) sound
    have first : s.log.first ≤ maxWord := by
      simp only [Log.last, Log.first] at *
      omega
    rw [sum_ok first]
    simp only [bind, Except.bind]
    split
    · rw [sum_ok (by omega)]
      rfl
    · rfl
  | reset index term =>
    simp only [perform, reset, unlock_ok sound]
    rfl

/-- A store that is not at fault and mirrors its history. -/
structure Keeps (s : LockedLog) (h : LogHistory) : Prop where
  sound : s.poisoned = false
  low : s.log.last < maxWord
  mirrors : s.log.Mirrors h

theorem Keeps.after (k : s.Keeps h) {v : Edit} (admitted : edits.admits (s, h) v) :
    (s.perform v).2.Keeps (h.after v) := by
  obtain ⟨ordered, fits⟩ := admitted
  simp only [perform_eq k.sound k.low v] at fits ⊢
  rcases k.mirrors.perform ordered with ⟨l', h', done, done', m⟩ | ⟨r, refused, refused'⟩
  · simp only [done, LogHistory.after, done'] at fits ⊢
    exact ⟨k.sound, fits, m⟩
  · simp only [refused, LogHistory.after, refused']
    exact k

/-- The store answers every question as its history would above the cut. -/
structure Answers (s : LockedLog) (h : LogHistory) : Prop where
  first : s.first = .ok (h.cut + 1)
  last : s.last = .ok h.last
  length : s.length = .ok (h.last - h.cut)
  placed : ∀ k e, s.log.entries[k]? = some e → e.index = h.cut + 1 + k
  term_compacted : ∀ i < h.cut, s.term i = .ok (.error .compacted)
  term : ∀ i, h.cut ≤ i → i ≤ h.last → ∃ t, h.term? i = some t ∧ s.term i = .ok (.ok t)
  term_unavailable : ∀ i, h.last < i → s.term i = .ok (.error .unavailable)
  slice_compacted : ∀ low high, low ≤ h.cut → s.slice low high = .ok (.error .compacted)
  slice : ∀ low high, h.cut < low → low ≤ high → high ≤ h.last + 1 →
    s.slice low high = .ok (.ok (h.between low high)) ∧
      Consecutive low (h.between low high) ∧ (h.between low high).length = high - low
  slice_unavailable : ∀ low high, h.cut < low → high < low ∨ h.last + 1 < high →
    s.slice low high = .ok (.error .unavailable)

theorem Keeps.term_eq (k : s.Keeps h) (index : Nat) :
    s.term index = .ok (s.log.term index) :=
  LockedLog.term_eq k.sound k.low index

theorem Keeps.slice_eq (k : s.Keeps h) (low high : Nat) :
    s.slice low high = .ok (s.log.slice low high) := by
  simp only [LockedLog.slice, unlock_ok k.sound, bind, Except.bind, bounded_ok k.low]
  rfl

theorem Keeps.answers (k : s.Keeps h) : s.Answers h := by
  have m := k.mirrors
  have first := m.first_eq
  have last := m.last_eq
  have bound := k.low
  have cut_le := m.cut_le
  constructor
  case first =>
    simp only [LockedLog.first, unlock_ok k.sound, bind, Except.bind, first]
    exact sum_ok (by omega)
  case last =>
    simp only [LockedLog.last, unlock_ok k.sound, bind, Except.bind, last]
    exact sum_ok (by omega)
  case length =>
    simp only [LockedLog.length, unlock_ok k.sound, bind, Except.bind, Log.length]
    congr 1
    simp only [Log.last, m.cut] at last
    omega
  case placed =>
    intro i e he
    exact first ▸ m.indexed.index_of_getElem? he
  case term_compacted =>
    intro i low
    rw [k.term_eq, Log.term, m.cut, if_neg (by omega), if_pos low]
  case term =>
    intro i low high
    obtain ⟨t, known, same⟩ := m.term_eq low high
    exact ⟨t, known, by rw [k.term_eq, same]⟩
  case term_unavailable =>
    intro i high
    rw [k.term_eq, m.term_unavailable high]
  case slice_compacted =>
    intro low high below
    rw [k.slice_eq, Log.slice, first, if_pos (by omega)]
  case slice =>
    intro low high above ordered inside
    exact ⟨by rw [k.slice_eq, m.slice_eq above ordered inside],
      m.between_placed above ordered inside⟩
  case slice_unavailable =>
    intro low high above outside
    rw [k.slice_eq, Log.slice, first, last, if_neg (by omega), if_pos (by omega)]

/-- Whatever edits an empty log store has been through, it answers as a log that was never
compacted does above its cut; and every further edit is done or refused just as that log
says, never a fault, and changes nothing if it is refused. -/
theorem store_mirrors_history {s : LockedLog} {h : LogHistory}
    (run : Reachable edits ({}, {}) (s, h)) :
    s.Answers h ∧ ∀ v : Edit, v.Ordered →
      (s.perform v).1 = .ok ((h.perform v).map fun _ => ()) ∧
        ∀ r, h.perform v = .error r → (s.perform v).2 = s := by
  have keeps : s.Keeps h := by
    apply run.invariant (P := fun s => s.1.Keeps s.2)
    case start => exact ⟨rfl, by decide, .empty⟩
    case step => exact fun k admitted => k.after admitted
  refine ⟨keeps.answers, ?_⟩
  intro v ordered
  rw [perform_eq keeps.sound keeps.low v]
  rcases keeps.mirrors.perform ordered with ⟨l', h', done, done', -⟩ | ⟨r, refused, refused'⟩
  · rw [done, done']
    refine ⟨rfl, ?_⟩
    intro r impossible
    cases impossible
  · rw [refused, refused']
    exact ⟨rfl, fun _ _ => rfl⟩

/-- Compaction, then a conflicting batch just above the cut, two edits that are refused, and
compaction of all that is left: the next batch must not reach below. -/
theorem store_mirrors_history_of_conflict :
    let entry (index term : Nat) : Entry := { index, term }
    let h : LogHistory := { entries := [entry 1 1, entry 2 1, entry 3 2, entry 4 2], cut := 4 }
    let s := edits.play ({}, {}) [.append [entry 1 1, entry 2 1, entry 3 1], .compact 3,
      .append [entry 3 2, entry 4 2], .append [entry 2 3], .compact 9, .compact 5]
    s.2 = h ∧ s.1.Answers h ∧
      (s.1.perform (.append [entry 4 3])).1 = .ok (.error (.overwrites 4 5)) := by
  intro entry h s
  have run : Reachable edits ({}, {}) s := System.reachable_play .start (by decide +kernel)
  have history : s.2 = h := by decide +kernel
  clear_value s
  obtain ⟨answers, next⟩ := store_mirrors_history (s := s.1) (h := s.2) run
  rw [history] at answers next
  exact ⟨history, answers, (next (.append [entry 4 3]) (by decide)).1⟩

end LockedLog

end QuorumLab
