import QuorumLab.Store.Shelf
import QuorumLab.Proofs.Store.History

/-!
# Reading a log page by page

A page is the longest that its limit allows, but one entry at least while there are any. So
however limits are chosen, reading on from where the last page ended comes to the end, and
nothing is left out or read twice.
-/

namespace QuorumLab

variable {limit : Option Nat} {max used low high : Nat} {es page more : List Entry}

/-! ## Sizes -/

namespace Entry

theorem numberSize_pos {n : Nat} (some : n ≠ 0) : 0 < numberSize n := by
  rw [numberSize, if_neg some]
  omega

/-- An entry that has an index takes some bytes. -/
theorem size_pos {e : Entry} (placed : e.index ≠ 0) : 0 < e.size := by
  have index := numberSize_pos placed
  rw [size]
  omega

end Entry

/-- Bytes of several entries. -/
def totalSize : List Entry → Nat
  | [] => 0
  | e :: es => e.size + totalSize es

@[simp] theorem totalSize_nil : totalSize [] = 0 := rfl

@[simp] theorem totalSize_cons (e : Entry) (es : List Entry) :
    totalSize (e :: es) = e.size + totalSize es := rfl

/-- Whether a limit has room for `n` bytes. The largest word stands for no limit. -/
def Allows (limit : Option Nat) (n : Nat) : Prop := ∀ max ∈ limit, max = maxWord ∨ n ≤ max

/-- The part of `es` that is read at a limit: as much as the limit has room for, or the first
entry if it has not even room for that. -/
structure PageOf (limit : Option Nat) (es page : List Entry) : Prop where
  begins : page <+: es
  nonempty : es ≠ [] → page ≠ []
  longest : (Allows limit (totalSize page) ∧
      ∀ more, more <+: es → Allows limit (totalSize more) → more <+: page) ∨
    ∃ e, page = [e] ∧ ¬Allows limit e.size

/-! ## One page -/

/-- Once something is used, entries are taken while they fit. -/
theorem takePage_longest (max : Nat) (es : List Entry) (pos : 0 < used) :
    takePage max used es <+: es ∧
    (takePage max used es ≠ [] → used + totalSize (takePage max used es) ≤ max) ∧
    ∀ more, more <+: es → used + totalSize more ≤ max → more <+: takePage max used es := by
  induction es generalizing used with
  | nil => exact ⟨List.prefix_refl _, fun nonempty => absurd rfl nonempty, fun _ begins _ => begins⟩
  | cons e es ih =>
    by_cases fits : used + e.size ≤ max
    · have taken : takePage max used (e :: es) = e :: takePage max (used + e.size) es := by
        simp [takePage, fits]
      have onward : 0 < used + e.size := by omega
      obtain ⟨begins, room, longest⟩ := ih onward
      rw [taken]
      refine ⟨List.cons_prefix_cons.mpr ⟨rfl, begins⟩, ?_, ?_⟩
      · intro _
        rw [totalSize_cons]
        by_cases none : takePage max (used + e.size) es = []
        · rw [none, totalSize_nil]
          omega
        · have := room none
          omega
      · intro more starts fits'
        cases more with
        | nil => exact List.nil_prefix
        | cons x more =>
          obtain ⟨rfl, rest⟩ := List.cons_prefix_cons.mp starts
          rw [totalSize_cons] at fits'
          exact List.cons_prefix_cons.mpr ⟨rfl, longest more rest (by omega)⟩
    · have stopped : takePage max used (e :: es) = [] := by
        have unused : used ≠ 0 := by omega
        simp [takePage, fits, unused]
      rw [stopped]
      refine ⟨List.nil_prefix, fun nonempty => absurd rfl nonempty, ?_⟩
      intro more starts fits'
      cases more with
      | nil => exact List.nil_prefix
      | cons x more =>
        obtain ⟨rfl, -⟩ := List.cons_prefix_cons.mp starts
        rw [totalSize_cons] at fits'
        omega

/-- A list is its own page if the limit has room for it or it is no more than one entry. -/
theorem pageOf_self (short : Allows limit (totalSize es) ∨ es.length ≤ 1) :
    PageOf limit es es where
  begins := List.prefix_refl es
  nonempty := id
  longest := by
    by_cases room : Allows limit (totalSize es)
    · exact Or.inl ⟨room, fun more begins _ => begins⟩
    · have one := short.resolve_left room
      cases es with
      | nil => exact absurd (fun max _ => Or.inr (Nat.zero_le max)) room
      | cons e rest =>
        obtain rfl : rest = [] := List.eq_nil_of_length_eq_zero (by simpa using one)
        exact Or.inr ⟨e, rfl, by simpa using room⟩

/-- The first entry is taken whatever its size, the others while they fit. -/
theorem pageOf_takePage {e : Entry} (limited : max ≠ maxWord) (sized : 0 < e.size) :
    PageOf (some max) (e :: es) (takePage max 0 (e :: es)) := by
  have allows : ∀ {n}, Allows (some max) n ↔ n ≤ max := by
    intro n
    simp [Allows, limited]
  have taken : takePage max 0 (e :: es) = e :: takePage max e.size es := by simp [takePage]
  obtain ⟨begins, room, longest⟩ := takePage_longest max es sized
  rw [taken]
  refine ⟨List.cons_prefix_cons.mpr ⟨rfl, begins⟩, fun _ => List.cons_ne_nil _ _, ?_⟩
  rw [allows, totalSize_cons]
  by_cases fits : e.size + totalSize (takePage max e.size es) ≤ max
  · refine Or.inl ⟨fits, ?_⟩
    intro more starts fits'
    cases more with
    | nil => exact List.nil_prefix
    | cons x more =>
      obtain ⟨rfl, rest⟩ := List.cons_prefix_cons.mp starts
      exact List.cons_prefix_cons.mpr ⟨rfl, longest more rest (allows.mp fits')⟩
  · have none : takePage max e.size es = [] :=
      Decidable.byContradiction fun nonempty => fits (room nonempty)
    rw [none, totalSize_nil] at fits
    exact Or.inr ⟨e, by rw [none], mt allows.mp fits⟩

theorem page_spec (limit : Option Nat) (sized : ∀ e ∈ es, 0 < e.size) :
    PageOf limit es (QuorumLab.page limit es) := by
  cases limit with
  | none => exact pageOf_self (Or.inl fun max impossible => by cases impossible)
  | some max =>
    by_cases whole : es.length ≤ 1 ∨ max = maxWord
    · have same : QuorumLab.page (some max) es = es := by
        rcases whole with one | unlimited
        · simp [QuorumLab.page, one]
        · simp [QuorumLab.page, unlimited]
      rw [same]
      apply pageOf_self
      rcases whole with one | unlimited
      · exact Or.inr one
      · exact Or.inl fun m here => Or.inl (Option.some.inj here ▸ unlimited)
    · obtain ⟨several, limited⟩ := not_or.mp whole
      have cut : QuorumLab.page (some max) es = takePage max 0 es := by
        simp [QuorumLab.page, several, limited]
      cases es with
      | nil => simp at several
      | cons e es =>
        rw [cut]
        exact pageOf_takePage limited (sized e List.mem_cons_self)

/-! ## Page after page -/

namespace Log

variable {l : Log}

/-- Whatever lies between the cut and the end of a log can be read. -/
theorem slice_eq_ok_iff : l.slice low high = .ok es ↔ l.first ≤ low ∧ low ≤ high ∧
    high ≤ l.last + 1 ∧ es = (l.entries.drop (low - l.first)).take (high - low) := by
  constructor
  · intro read
    by_cases below : low < l.first
    · rw [slice, if_pos below] at read
      cases read
    · by_cases outside : l.last + 1 < high ∨ high < low
      · rw [slice, if_neg below, if_pos outside] at read
        cases read
      · rw [slice, if_neg below, if_neg outside] at read
        cases read
        exact ⟨by omega, by omega, by omega, rfl⟩
  · rintro ⟨above, ordered, inside, rfl⟩
    rw [slice, if_neg (by omega), if_neg (by omega)]

/-- It is read at its own indexes. -/
theorem slice_placed (h : l.Indexed) (read : l.slice low high = .ok es) :
    Consecutive low es ∧ es.length = high - low := by
  obtain ⟨above, ordered, inside, rfl⟩ := slice_eq_ok_iff.mp read
  have start : l.first + (low - l.first) = low := by omega
  have rest := Consecutive.drop (k := low - l.first) h (by simp only [first, last] at *; omega)
  rw [start] at rest
  refine ⟨rest.take _, ?_⟩
  simp only [List.length_take, List.length_drop, first, last] at *
  omega

/-- So each entry that is read takes some bytes. -/
theorem size_pos_of_slice (h : l.Indexed) (read : l.slice low high = .ok es) :
    ∀ e ∈ es, 0 < e.size := by
  intro e he
  obtain ⟨k, here⟩ := List.mem_iff_getElem?.mp he
  have place := (slice_placed h read).1.index_of_getElem? here
  have above := (slice_eq_ok_iff.mp read).1
  apply Entry.size_pos
  simp only [first] at above
  omega

end Log

namespace LockedLog

/-- The pages of entries below `high` that reads at some limits give one after the other, each
from where the last page ended. -/
def reads (s : LockedLog) (high : Nat) :
    Nat → List (Option Nat) → Except Fault (Except Refusal (List (List Entry)))
  | _, [] => .ok (.ok [])
  | low, limit :: rest => do
    match ← s.paged low high limit with
    | .error refusal => return .error refusal
    | .ok page => return (← s.reads high (low + page.length) rest).map (page :: ·)

variable {s : LockedLog}

theorem small_of_bounded {l : Log} {index : Nat} (fits : bounded l index = .ok ())
    (above : l.first ≤ index) : l.last < maxWord := by
  by_cases first : l.first ≤ maxWord
  · by_cases small : l.last + 1 ≤ maxWord
    · exact small
    · rw [bounded, sum_ok first] at fits
      simp only [bind, Except.bind, if_pos above, Word.sum, if_neg small] at fits
      cases fits
  · simp only [bounded, Word.sum, if_neg first, bind, Except.bind] at fits
    cases fits

/-- An answer is that of the log, given behind a sound lock. -/
theorem slice_answer {answer : Except Refusal (List Entry)} (read : s.slice low high = .ok answer) :
    s.poisoned = false ∧ bounded s.log low = .ok () ∧ s.log.slice low high = answer := by
  cases sound : s.poisoned with
  | true =>
    simp only [slice, unlock, sound, if_true, bind, Except.bind] at read
    cases read
  | false =>
    simp only [slice, unlock_ok sound, bind, Except.bind] at read
    cases fits : bounded s.log low with
    | error fault =>
      rw [fits] at read
      cases read
    | ok _ =>
      rw [fits] at read
      exact ⟨rfl, rfl, Except.ok.inj read⟩

/-- Reading succeeds behind a sound lock, if the place after the last entry is a word. -/
theorem slice_eq_ok_iff : s.slice low high = .ok (.ok es) ↔
    s.poisoned = false ∧ s.log.last < maxWord ∧ s.log.slice low high = .ok es := by
  constructor
  · intro read
    obtain ⟨sound, fits, here⟩ := slice_answer read
    exact ⟨sound, small_of_bounded fits (Log.slice_eq_ok_iff.mp here).1, here⟩
  · rintro ⟨sound, small, read⟩
    simp only [slice, unlock_ok sound, bind, Except.bind, bounded_ok small, read]
    rfl

/-- Where a store names the place after its last entry, its lock is sound and that is a word. -/
theorem of_end {bound : Nat} (here : (s.last >>= Word.succ) = .ok bound) :
    s.poisoned = false ∧ s.log.last < maxWord ∧ bound = s.log.last + 1 := by
  cases sound : s.poisoned with
  | true =>
    simp only [last, unlock, sound, if_true, bind, Except.bind] at here
    cases here
  | false =>
    by_cases word : s.log.last ≤ maxWord
    · simp only [last, unlock_ok sound, bind, Except.bind, sum_ok word] at here
      by_cases next : s.log.last + 1 ≤ maxWord
      · rw [Word.succ, sum_ok next] at here
        exact ⟨rfl, next, (Except.ok.inj here).symm⟩
      · rw [Word.succ, Word.sum, if_neg next] at here
        cases here
    · simp only [last, unlock_ok sound, bind, Except.bind, Word.sum, if_neg word] at here
      cases here

theorem paged_ok (read : s.slice low high = .ok (.ok es)) (limit : Option Nat) :
    s.paged low high limit = .ok (.ok (QuorumLab.page limit es)) := by
  rw [paged, read]
  rfl

/-- What cannot be read is answered the same at every limit. -/
theorem paged_failed (failed : ∀ es, s.slice low high ≠ .ok (.ok es)) (limit : Option Nat) :
    s.paged low high limit = s.slice low high := by
  rw [paged]
  cases answer : s.slice low high with
  | error fault => rfl
  | ok result =>
    cases result with
    | error refusal => rfl
    | ok es => exact absurd answer (failed es)

/-- A replica reads the same pages off its shelf. -/
theorem entries_of_paged {shelf : Shelf} {answer : Except Refusal (List Entry)}
    (same : shelf.log = s.log) (read : s.paged low high limit = .ok answer) :
    shelf.entries low high limit = answer := by
  rw [paged] at read
  cases outcome : s.slice low high with
  | error fault =>
    rw [outcome] at read
    cases read
  | ok whole =>
    obtain ⟨-, -, here⟩ := slice_answer outcome
    rw [outcome] at read
    rw [Shelf.entries, same, here]
    exact Except.ok.inj read

theorem pageOf_of_slice (h : s.log.Indexed) (read : s.slice low high = .ok (.ok es))
    (limit : Option Nat) : PageOf limit es (QuorumLab.page limit es) :=
  page_spec limit (Log.size_pos_of_slice h (slice_eq_ok_iff.mp read).2.2)

/-- What is left to read after some entries. -/
theorem slice_drop (h : s.log.Indexed) {k : Nat} (read : s.slice low high = .ok (.ok es))
    (inside : k ≤ es.length) : s.slice (low + k) high = .ok (.ok (es.drop k)) := by
  obtain ⟨sound, small, here⟩ := slice_eq_ok_iff.mp read
  have length := (Log.slice_placed h here).2
  obtain ⟨above, ordered, below, held⟩ := Log.slice_eq_ok_iff.mp here
  have start : low - s.log.first + k = low + k - s.log.first := by omega
  have rest : high - low - k = high - (low + k) := by omega
  refine slice_eq_ok_iff.mpr ⟨sound, small, Log.slice_eq_ok_iff.mpr ⟨?_, ?_, below, ?_⟩⟩
  · omega
  · omega
  · rw [held, List.drop_take, List.drop_drop, start, rest]

/-- Each read gets on by one entry at least, until there are none left. -/
theorem reads_spec (h : s.log.Indexed) (read : s.slice low high = .ok (.ok es))
    (limits : List (Option Nat)) : ∃ pages, s.reads high low limits = .ok (.ok pages) ∧
      pages.flatten <+: es ∧ min limits.length es.length ≤ pages.flatten.length := by
  induction limits generalizing low es with
  | nil => exact ⟨[], rfl, List.nil_prefix, Nat.le_of_eq (Nat.zero_min _)⟩
  | cons limit limits ih =>
    obtain ⟨⟨rest, joined⟩, nonempty, -⟩ := pageOf_of_slice h read limit
    have first := paged_ok read limit
    generalize QuorumLab.page limit es = page at joined nonempty first
    subst joined
    have onward := slice_drop h (k := page.length) read (by simp)
    rw [List.drop_left] at onward
    obtain ⟨pages, done, begins, got⟩ := ih onward
    refine ⟨page :: pages, ?_, ?_, ?_⟩
    · simp only [reads, first, done, bind, Except.bind]
      rfl
    · exact (List.prefix_append_right_inj page).mpr begins
    · by_cases none : page ++ rest = []
      · simp [none]
      · have := List.length_pos_iff.mpr (nonempty none)
        simp only [List.flatten_cons, List.length_append, List.length_cons]
        omega

/-- At any limit a read gives the longest page that the limit has room for, and fails just as a
read without a limit does; a replica reads the same off its shelf. Reads that go on from where
the last page ended lose nothing, and have come to the end once there were as many as there are
entries. -/
theorem log_read_in_pages (h : s.log.Indexed) :
    (∀ first bound, s.first = .ok first → (s.last >>= Word.succ) = .ok bound → ∀ low high,
      (∃ es, s.slice low high = .ok (.ok es)) ↔ first ≤ low ∧ low ≤ high ∧ high ≤ bound) ∧
    (∀ low high, (∀ es, s.slice low high ≠ .ok (.ok es)) →
      ∀ limit, s.paged low high limit = s.slice low high) ∧
    (∀ shelf : Shelf, shelf.log = s.log → ∀ low high limit answer,
      s.paged low high limit = .ok answer → shelf.entries low high limit = answer) ∧
    ∀ low high es, s.slice low high = .ok (.ok es) →
      (∀ limit, ∃ page, s.paged low high limit = .ok (.ok page) ∧ PageOf limit es page) ∧
      ∀ limits, ∃ pages, s.reads high low limits = .ok (.ok pages) ∧ pages.flatten <+: es ∧
        (high - low ≤ limits.length → pages.flatten = es ∧ low + pages.flatten.length = high) := by
  refine ⟨?_, fun low high failed limit => paged_failed failed limit,
    fun shelf same low high limit answer => entries_of_paged same, ?_⟩
  · intro first bound first_here bound_here low high
    obtain ⟨sound, small, rfl⟩ := of_end bound_here
    obtain rfl : s.log.first = first := Except.ok.inj ((first_ok sound small).symm.trans first_here)
    simp only [slice_eq_ok_iff, Log.slice_eq_ok_iff]
    constructor
    · rintro ⟨es, -, -, above, ordered, inside, -⟩
      exact ⟨above, ordered, inside⟩
    · rintro ⟨above, ordered, inside⟩
      exact ⟨_, sound, small, above, ordered, inside, rfl⟩
  · intro low high es read
    refine ⟨fun limit => ⟨_, paged_ok read limit, pageOf_of_slice h read limit⟩, ?_⟩
    intro limits
    obtain ⟨pages, done, begins, got⟩ := reads_spec h read limits
    have here := (slice_eq_ok_iff.mp read).2.2
    have length := (Log.slice_placed h here).2
    have ordered := (Log.slice_eq_ok_iff.mp here).2.1
    refine ⟨pages, done, begins, ?_⟩
    intro enough
    have whole := begins.eq_of_length_le (by omega)
    exact ⟨whole, by rw [whole]; omega⟩

/-- Five entries of different sizes behind a cut are read in three pages: a limit of no bytes
gives one entry, one of thirty two, and the largest word is no limit. -/
theorem log_read_in_pages_of_sizes :
    let entry (index size : Nat) : Entry := { index, term := 1, data := List.replicate size 0 }
    let es := [entry 4 1, entry 5 20, entry 6 0, entry 7 200, entry 8 3]
    let s : LockedLog := { log := { offset := 3, offsetTerm := 1, entries := es } }
    let limits := [some 0, some 30, some 30, some maxWord, none]
    s.log.Indexed ∧ s.slice 4 9 = .ok (.ok es) ∧
      ∃ pages, s.reads 9 4 limits = .ok (.ok pages) ∧ pages.flatten = es ∧
        pages.map List.length = [1, 2, 1, 1, 0] := by
  intro entry es s limits
  have indexed : s.log.Indexed := by
    change Consecutive 4 es
    decide
  have read : s.slice 4 9 = .ok (.ok es) := rfl
  obtain ⟨-, -, -, pages⟩ := log_read_in_pages indexed
  obtain ⟨pages, done, -, whole⟩ := (pages 4 9 es read).2 limits
  refine ⟨indexed, read, pages, done, (whole (by decide)).1, ?_⟩
  have lengths : ((s.reads 9 4 limits).toOption.bind Except.toOption).map (·.map List.length) =
      some [1, 2, 1, 1, 0] := by decide +kernel
  rw [done] at lengths
  exact Option.some.inj lengths

end LockedLog

end QuorumLab
