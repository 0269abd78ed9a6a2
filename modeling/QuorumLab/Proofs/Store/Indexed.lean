import QuorumLab.Store.Shelf

/-!
# Entries at their own indexes

A list of entries is consecutive if their indexes are. In an indexed log every entry sits
at the position of its index, and each edit of the log keeps it so. Of two snapshots the
store keeps the one that reaches further.
-/

namespace QuorumLab

/-- The entries have the indexes `n, n + 1, …`. -/
def Consecutive : Nat → List Entry → Prop
  | _, [] => True
  | n, e :: rest => e.index = n ∧ Consecutive (n + 1) rest

namespace Consecutive

instance decidable : ∀ n l, Decidable (Consecutive n l)
  | _, [] => isTrue trivial
  | n, e :: rest =>
    haveI := decidable (n + 1) rest
    inferInstanceAs (Decidable (e.index = n ∧ Consecutive (n + 1) rest))

variable {n k : Nat} {a b : List Entry}

theorem append_iff :
    Consecutive n (a ++ b) ↔ Consecutive n a ∧ Consecutive (n + a.length) b := by
  induction a generalizing n with
  | nil => simp [Consecutive]
  | cons e a ih =>
    have shift : n + (e :: a).length = n + 1 + a.length := by simp only [List.length_cons]; omega
    simp only [List.cons_append, Consecutive, ih, shift, and_assoc]

theorem take (h : Consecutive n a) (k : Nat) : Consecutive n (a.take k) := by
  rw [← List.take_append_drop k a] at h
  exact (append_iff.mp h).1

theorem drop (h : Consecutive n a) (hk : k ≤ a.length) : Consecutive (n + k) (a.drop k) := by
  rw [← List.take_append_drop k a] at h
  have rest := (append_iff.mp h).2
  rwa [List.length_take_of_le hk] at rest

theorem index_of_getElem? (h : Consecutive n a) {i : Nat} {e : Entry} (he : a[i]? = some e) :
    e.index = n + i := by
  induction a generalizing n i with
  | nil => simp at he
  | cons x a ih =>
    cases i with
    | zero =>
      obtain rfl : x = e := by simpa using he
      exact h.1
    | succ i =>
      have hi := ih h.2 (by simpa using he)
      omega

theorem index_of_getLast? (h : Consecutive n a) {e : Entry} (he : a.getLast? = some e) :
    e.index + 1 = n + a.length := by
  rw [List.getLast?_eq_getElem?] at he
  have hi := h.index_of_getElem? he
  have : a ≠ [] := by rintro rfl; simp at he
  have := List.length_pos_iff.mpr this
  omega

theorem filter_index_lt (h : Consecutive n a) (k : Nat) :
    a.filter (·.index < k) = a.take (k - n) := by
  induction a generalizing n with
  | nil => simp
  | cons e a ih =>
    obtain ⟨rfl, rest⟩ := h
    by_cases low : e.index < k
    · have length : k - e.index = k - (e.index + 1) + 1 := by omega
      rw [List.filter_cons_of_pos (by simpa using low), ih rest, length, List.take_succ_cons]
    · have none : k - e.index = 0 := by omega
      have none' : k - (e.index + 1) = 0 := by omega
      rw [List.filter_cons_of_neg (by simpa using low), ih rest, none, none', List.take_zero,
        List.take_zero]

theorem filter_le_index (h : Consecutive n a) (k : Nat) :
    a.filter (k ≤ ·.index) = a.drop (k - n) := by
  induction a generalizing n with
  | nil => simp
  | cons e a ih =>
    obtain ⟨rfl, rest⟩ := h
    by_cases low : k ≤ e.index
    · have none : k - e.index = 0 := by omega
      have none' : k - (e.index + 1) = 0 := by omega
      rw [List.filter_cons_of_pos (by simpa using low), ih rest, none, none', List.drop_zero,
        List.drop_zero]
    · have length : k - e.index = k - (e.index + 1) + 1 := by omega
      rw [List.filter_cons_of_neg (by simpa using low), ih rest, length, List.drop_succ_cons]

theorem find?_index (h : Consecutive n a) {k : Nat} (low : n ≤ k) :
    a.find? (·.index == k) = a[k - n]? := by
  induction a generalizing n with
  | nil => simp
  | cons e a ih =>
    obtain ⟨rfl, rest⟩ := h
    by_cases here : e.index = k
    · simp [here]
    · have place : k - e.index = k - (e.index + 1) + 1 := by omega
      rw [List.find?_cons_of_neg (by simpa using here), ih rest (by omega), place,
        List.getElem?_cons_succ]

end Consecutive

namespace Log

/-- Every entry sits at the position of its index. -/
def Indexed (l : Log) : Prop := Consecutive l.first l.entries

variable {l : Log} {index : Nat}

theorem indexed_reset (index term : Nat) : (reset index term).Indexed := trivial

theorem last_reset (index term : Nat) : (reset index term).last = index := rfl

/-- Terms are known from the compaction point on. -/
theorem term_ok (low : l.offset ≤ index) (high : index ≤ l.last) : ∃ t, l.term index = .ok t := by
  by_cases edge : index = l.offset
  · exact ⟨l.offsetTerm, if_pos edge⟩
  · have held : index - l.first < l.entries.length := by
      simp only [last, first] at *
      omega
    exact ⟨l.entries[index - l.first].term,
      by rw [term, if_neg edge, if_neg (by omega), List.getElem?_eq_getElem held]⟩

/-- Entries are held from just above it. -/
theorem slice_ok {low high : Nat} (above : l.offset < low) (ordered : low ≤ high)
    (inside : high ≤ l.last + 1) : ∃ es, l.slice low high = .ok es := by
  have first : ¬low < l.first := by
    simp only [Log.first]
    omega
  exact ⟨_, by rw [slice, if_neg first, if_neg (by omega)]⟩

/-- What a log becomes by a batch that it takes. -/
theorem append_cons {e : Entry} {rest : List Entry} {l' : Log}
    (taken : l.append (e :: rest) = .ok l') : l.first ≤ e.index ∧ e.index ≤ l.last + 1 ∧
      l' = { l with entries := l.entries.take (e.index - l.first) ++ e :: rest } := by
  by_cases low : e.index < l.first
  · simp only [append, if_pos low] at taken
    cases taken
  · by_cases far : l.last + 1 < e.index
    · simp only [append, if_neg low, if_pos far] at taken
      cases taken
    · simp only [append, if_neg low, if_neg far] at taken
      cases taken
      exact ⟨by omega, by omega, rfl⟩

/-- A batch changes no term below it. -/
theorem term_append {batch : List Entry} {l' : Log} {e : Entry} (head : batch.head? = some e)
    (taken : l.append batch = .ok l') (below : index < e.index) :
    l'.term index = l.term index := by
  cases batch with
  | nil => cases head
  | cons x rest =>
    obtain rfl : x = e := by simpa using head
    obtain ⟨low, far, rfl⟩ := append_cons taken
    by_cases edge : index ≤ l.offset
    · rcases Nat.lt_or_eq_of_le edge with compacted | here
      · simp only [term, if_neg (Nat.ne_of_lt compacted), if_pos compacted]
      · simp only [term, if_pos here]
    · have kept : index - l.first < x.index - l.first := by
        simp only [first] at *
        omega
      have inside : index - l.first < (l.entries.take (x.index - l.first)).length := by
        simp only [List.length_take, last, first] at *
        omega
      have same : (l.entries.take (x.index - l.first) ++ x :: rest)[index - l.first]?
          = l.entries[index - l.first]? := by
        rw [List.getElem?_append_left inside, List.getElem?_take_of_lt kept]
      simp only [first] at same
      simp only [term, first, same]

theorem slice_one {e : Entry} (low : l.first ≤ index)
    (here : l.entries[index - l.first]? = some e) : l.slice index (index + 1) = .ok [e] := by
  have inside : index - l.first < l.entries.length := (List.getElem?_eq_some_iff.mp here).1
  have held : ¬(l.last + 1 < index + 1 ∨ index + 1 < index) := by
    simp only [last, first] at *
    omega
  have one : index + 1 - index = 1 := by omega
  rw [slice, if_neg (by omega), if_neg held, one, List.take_one, List.head?_drop, here]
  rfl

/-- A batch is put into the log one entry behind the other, from the index of the first. -/
theorem slice_append {batch : List Entry} {l' : Log} {e x : Entry} {k : Nat}
    (head : batch.head? = some e) (taken : l.append batch = .ok l') (here : batch[k]? = some x) :
    l'.slice (e.index + k) (e.index + k + 1) = .ok [x] := by
  cases batch with
  | nil => cases head
  | cons e' rest =>
    obtain rfl : e' = e := by simpa using head
    obtain ⟨low, far, rfl⟩ := append_cons taken
    have length : (l.entries.take (e'.index - l.first)).length = e'.index - l.first := by
      apply List.length_take_of_le
      simp only [last, first] at *
      omega
    have place : e'.index + k - l.first = e'.index - l.first + k := by omega
    apply slice_one
    · exact Nat.le_trans low (Nat.le_add_right _ _)
    · change (l.entries.take (e'.index - l.first) ++ e' :: rest)[e'.index + k - l.first]? = some x
      rw [place, List.getElem?_append_right (by omega), length, Nat.add_sub_cancel_left]
      exact here

/-- So each of its entries is at its own index, if they are consecutive. -/
theorem slice_append_of_mem {batch : List Entry} {l' : Log} {n : Nat} {e : Entry}
    (run : Consecutive n batch) (taken : l.append batch = .ok l') (he : e ∈ batch) :
    l'.slice e.index (e.index + 1) = .ok [e] := by
  obtain ⟨k, here⟩ := List.mem_iff_getElem?.mp he
  cases batch with
  | nil => cases he
  | cons x rest =>
    have place : e.index = x.index + k := by rw [run.index_of_getElem? here, run.1]
    rw [place]
    exact slice_append rfl taken here

/-- A batch that is taken right behind a compaction point is all that the log holds then. -/
theorem append_reset {batch : List Entry} {term : Nat} {l' : Log}
    (taken : (reset index term).append batch = .ok l') :
    l' = { reset index term with entries := batch } := by
  cases batch with
  | nil =>
    cases taken
    rfl
  | cons e rest =>
    obtain ⟨-, -, rfl⟩ := append_cons taken
    simp only [reset, List.take_nil, List.nil_append]

/-- Compaction changes no term that can still be asked for. -/
theorem term_compact {l' : Log} {k : Nat} (moved : l.compact k = .ok l')
    (low : l'.offset ≤ index) : l'.term index = l.term index := by
  by_cases done : k ≤ l.first
  · simp only [compact, if_pos done] at moved
    cases moved
    rfl
  · simp only [compact, if_neg done] at moved
    cases held : l.entries[k - l.first - 1]? with
    | none => rw [held] at moved; cases moved
    | some e =>
      rw [held] at moved
      cases moved
      change k - 1 ≤ index at low
      simp only [first] at done held
      have above : ¬index ≤ l.offset := by omega
      by_cases edge : index = k - 1
      · have place : index - (l.offset + 1) = k - (l.offset + 1) - 1 := by omega
        simp only [term, first, if_pos edge, place, held]
        rw [if_neg (by omega), if_neg (by omega)]
      · have place : k - (l.offset + 1) + (index - (k - 1 + 1)) = index - (l.offset + 1) := by
          omega
        simp only [term, first, if_neg edge, List.getElem?_drop, place]
        rw [if_neg (by omega), if_neg (by omega), if_neg (by omega)]

/-- It drops entries from the front only. -/
theorem entries_compact {l' : Log} {k : Nat} (moved : l.compact k = .ok l') :
    l.first ≤ l'.first ∧ l'.entries = l.entries.drop (l'.first - l.first) := by
  by_cases done : k ≤ l.first
  · simp only [compact, if_pos done] at moved
    cases moved
    exact ⟨Nat.le_refl _, by rw [Nat.sub_self, List.drop_zero]⟩
  · simp only [compact, if_neg done] at moved
    cases held : l.entries[k - l.first - 1]? with
    | none => rw [held] at moved; cases moved
    | some e =>
      rw [held] at moved
      cases moved
      have place : k - 1 + 1 = k := by omega
      change l.first ≤ k - 1 + 1 ∧
        l.entries.drop (k - l.first) = l.entries.drop (k - 1 + 1 - l.first)
      rw [place]
      exact ⟨by omega, rfl⟩

/-- So the entries above the compaction point are read as before. -/
theorem slice_compact {l' : Log} {k low : Nat} (moved : l.compact k = .ok l')
    (last : l'.last = l.last) (above : l'.first ≤ low) (high : Nat) :
    l'.slice low high = l.slice low high := by
  obtain ⟨first, entries⟩ := entries_compact moved
  have place : l'.first - l.first + (low - l'.first) = low - l.first := by omega
  have below : ¬low < l.first := by omega
  rw [slice, slice, if_neg (Nat.not_lt.mpr above), if_neg below, last, entries, List.drop_drop,
    place]

/-- A consecutive batch that neither leaves a gap nor touches compacted history is taken, and
the log then ends with it. -/
theorem append_ok {batch : List Entry} {n : Nat} (h : l.Indexed) (new : batch ≠ [])
    (run : Consecutive n batch) (low : l.first ≤ n) (high : n ≤ l.last + 1) :
    ∃ l', l.append batch = .ok l' ∧ l'.Indexed ∧ l'.offset = l.offset ∧
      l'.last + 1 = n + batch.length := by
  cases batch with
  | nil => exact absurd rfl new
  | cons e rest =>
    have start : e.index = n := run.1
    have keep : n - l.first ≤ l.entries.length := by
      simp only [last, first] at *
      omega
    have length : (l.entries.take (n - l.first)).length = n - l.first :=
      List.length_take_of_le keep
    refine ⟨{ l with entries := l.entries.take (n - l.first) ++ e :: rest }, ?_, ?_, rfl, ?_⟩
    · simp only [append, start]
      rw [if_neg (by omega), if_neg (by omega)]
    · refine Consecutive.append_iff.mpr ⟨Consecutive.take h _, ?_⟩
      rw [length]
      have shift : l.first + (n - l.first) = n := by omega
      change Consecutive (l.first + (n - l.first)) (e :: rest)
      rwa [shift]
    · simp only [last, List.length_append, length]
      simp only [first] at *
      omega

/-- Compaction up to a place in the log moves the compaction point there, never back. -/
theorem compact_ok (h : l.Indexed) (high : index ≤ l.last + 1) :
    ∃ l', l.compact index = .ok l' ∧ l'.Indexed ∧ l'.offset = max l.offset (index - 1) ∧
      l'.last = l.last := by
  by_cases done : index ≤ l.first
  · refine ⟨l, if_pos done, h, ?_, rfl⟩
    simp only [first] at done
    omega
  · have inside : index - l.first - 1 < l.entries.length := by
      simp only [last, first] at *
      omega
    rw [compact, if_neg done, List.getElem?_eq_getElem inside]
    refine ⟨_, rfl, ?_, ?_, ?_⟩
    · have rest := Consecutive.drop (k := index - l.first) h (by omega)
      have shift : l.first + (index - l.first) = index - 1 + 1 := by
        simp only [first] at *
        omega
      change Consecutive (index - 1 + 1) _
      rwa [shift] at rest
    · simp only [first] at done
      change index - 1 = _
      omega
    · simp only [last, first, List.length_drop] at *
      omega

end Log

namespace Snapshots

variable {store : Snapshots} {s : Snapshot}

theorem insert_of_le (h : ∀ held ∈ store.latest, held.index ≤ s.index) :
    store.insert s = { latest := some s } := by
  cases hl : store.latest with
  | none => simp only [insert, hl]
  | some held => simp only [insert, hl, if_pos (h held hl)]

theorem insert_of_index_le (h : store.index ≤ s.index) :
    store.insert s = { latest := some s } := by
  apply insert_of_le
  intro held hl
  simpa only [index, Option.mem_def.mp hl, Option.map_some, Option.getD_some] using h

theorem insert_of_lt {held : Snapshot} (latest : store.latest = some held)
    (later : s.index < held.index) : store.insert s = store := by
  simp only [insert, latest, if_neg (Nat.not_le.mpr later)]

/-- The latest snapshot is the one that was inserted, unless there was a later one. -/
theorem latest_insert (store : Snapshots) (s : Snapshot) :
    ∃ held, (store.insert s).latest = some held ∧
      (held = s ∨ store.latest = some held ∧ s.index < held.index) := by
  cases hl : store.latest with
  | none => exact ⟨s, by simp only [insert, hl], Or.inl rfl⟩
  | some held =>
    by_cases low : held.index ≤ s.index
    · exact ⟨s, by simp only [insert, hl, if_pos low], Or.inl rfl⟩
    · exact ⟨held, by simp only [insert, hl, if_neg low], Or.inr ⟨rfl, by omega⟩⟩

end Snapshots

theorem Shelf.latest_of_snapshot {s : Shelf} {index : Nat} {t : Snapshot}
    (h : s.snapshot index = .ok t) : s.snapshots.latest = some t := by
  simp only [Shelf.snapshot, Snapshots.covering] at h
  cases hl : s.snapshots.latest with
  | none =>
    rw [hl] at h
    cases h
  | some held =>
    simp only [hl] at h
    split at h
    · cases h
      rfl
    · cases h

end QuorumLab
