import QuorumLab.Machine.Recorder
import QuorumLab.Proofs.Engine.Steps

/-!
# What a recorder reads back

A recorder is read back from its bytes as long as every number in it is a word: the index
of its last command, how many commands there are, and how long each of them is. Every reader
takes exactly what was written, so nothing else is read back as a recorder.
-/

namespace QuorumLab

namespace Packed

theorem number?_number {width n : Nat} (h : n < Nat.pow 256 width) (rest : Bytes) :
    number? width (number width n ++ rest) = some (n, rest) := by
  induction width generalizing n with
  | zero =>
    obtain rfl : n = 0 := by simpa using h
    rfl
  | succ width ih =>
    have small : n / 256 < Nat.pow 256 width := by
      have h : n < Nat.pow 256 width * 256 := h
      exact Nat.div_lt_of_lt_mul (by omega)
    have low : (UInt8.ofNat (n % 256)).toNat = n % 256 := by
      rw [UInt8.toNat_ofNat']
      omega
    simp only [number, List.cons_append, number?, ih small, Option.map_some, low,
      Nat.mod_add_div]

/-- The bytes of a number that is read are the ones it is written as. -/
theorem number?_eq_some_iff {width n : Nat} {b rest : Bytes} :
    number? width b = some (n, rest) ↔ n < Nat.pow 256 width ∧ b = number width n ++ rest := by
  constructor
  · intro read
    induction width generalizing n b with
    | zero =>
      cases read
      exact ⟨Nat.one_pos, rfl⟩
    | succ width ih =>
      cases b with
      | nil => cases read
      | cons x b =>
        obtain ⟨⟨m, rest'⟩, rest_read, same⟩ := Option.map_eq_some_iff.mp read
        cases same
        obtain ⟨small, rfl⟩ := ih rest_read
        have byte := x.toNat_lt
        have low : (x.toNat + 256 * m) % 256 = x.toNat := by omega
        have high : (x.toNat + 256 * m) / 256 = m := by omega
        constructor
        · change x.toNat + 256 * m < Nat.pow 256 width * 256
          omega
        · rw [number, low, high, UInt8.ofNat_toNat, List.cons_append]
  · rintro ⟨small, rfl⟩
    exact number?_number small rest

theorem length_number (width n : Nat) : (number width n).length = width := by
  induction width generalizing n with
  | zero => rfl
  | succ width ih => rw [number, List.length_cons, ih]

/-- Byte `i` of a number counts the multiples of `256 ^ i` in it. -/
theorem getElem?_number {width i : Nat} (inside : i < width) (n : Nat) :
    (number width n)[i]? = some (UInt8.ofNat (n / Nat.pow 256 i % 256)) := by
  induction width generalizing n i with
  | zero => omega
  | succ width ih =>
    cases i with
    | zero =>
      have one : Nat.pow 256 0 = 1 := rfl
      rw [number, List.getElem?_cons_zero, one, Nat.div_one]
    | succ i =>
      have next : Nat.pow 256 (i + 1) = 256 * Nat.pow 256 i := Nat.mul_comm _ _
      rw [number, List.getElem?_cons_succ, ih (by omega), Nat.div_div_eq_div_mul, next]

theorem word?_word {n : Nat} (h : n ≤ maxWord) (rest : Bytes) :
    word? (word n ++ rest) = some (n, rest) := by
  have bound : maxWord < Nat.pow 256 8 := by decide
  exact number?_number (Nat.lt_of_le_of_lt h bound) rest

theorem word?_eq_some_iff {n : Nat} {b rest : Bytes} :
    word? b = some (n, rest) ↔ n ≤ maxWord ∧ b = word n ++ rest := by
  have bound : Nat.pow 256 8 = maxWord + 1 := by decide
  rw [word?, number?_eq_some_iff, bound, Nat.lt_succ_iff]
  rfl

theorem chunk?_chunk {b : Bytes} (h : b.length ≤ maxWord) (rest : Bytes) :
    chunk? (chunk b ++ rest) = some (b, rest) := by
  simp [chunk?, chunk, word?_word h]

theorem chunk?_eq_some_iff {b c rest : Bytes} :
    chunk? b = some (c, rest) ↔ c.length ≤ maxWord ∧ b = chunk c ++ rest := by
  constructor
  · intro read
    obtain ⟨⟨n, b'⟩, length, body⟩ := Option.bind_eq_some_iff.mp read
    obtain ⟨word, rfl⟩ := word?_eq_some_iff.mp length
    by_cases short : b'.length < n
    · simp only [if_pos short] at body
      cases body
    · simp only [if_neg short] at body
      cases body
      have taken : (b'.take n).length = n := List.length_take_of_le (by omega)
      refine ⟨by omega, ?_⟩
      rw [chunk, taken, List.append_assoc, List.take_append_drop]
  · rintro ⟨word, rfl⟩
    exact chunk?_chunk word rest

theorem readChunks_flatMap {l : List Bytes} (h : ∀ b ∈ l, b.length ≤ maxWord) (rest : Bytes) :
    readChunks l.length (l.flatMap chunk ++ rest) = some (l, rest) := by
  induction l with
  | nil => rfl
  | cons b l ih =>
    have head := h b List.mem_cons_self
    have tail := ih fun x hx => h x (List.mem_cons_of_mem b hx)
    simp [readChunks, chunk?_chunk head, tail]

/-- The induction follows the count, which may be more than there is to read. -/
theorem readChunks_eq_some_iff {n : Nat} {b rest : Bytes} {l : List Bytes} :
    readChunks n b = some (l, rest) ↔
      l.length = n ∧ (∀ c ∈ l, c.length ≤ maxWord) ∧ b = l.flatMap chunk ++ rest := by
  constructor
  · intro read
    induction n generalizing b l with
    | zero =>
      cases read
      exact ⟨rfl, fun _ hc => absurd hc List.not_mem_nil, rfl⟩
    | succ n ih =>
      obtain ⟨⟨c, b'⟩, first, more⟩ := Option.bind_eq_some_iff.mp read
      obtain ⟨⟨l', rest'⟩, others, same⟩ := Option.bind_eq_some_iff.mp more
      cases same
      obtain ⟨word, rfl⟩ := chunk?_eq_some_iff.mp first
      obtain ⟨rfl, words, rfl⟩ := ih others
      refine ⟨rfl, ?_, ?_⟩
      · intro x hx
        rcases List.mem_cons.mp hx with rfl | hx
        · exact word
        · exact words x hx
      · rw [List.flatMap_cons, List.append_assoc]
  · rintro ⟨rfl, words, rfl⟩
    exact readChunks_flatMap words rest

theorem chunks?_chunks {l : List Bytes} (count : l.length ≤ maxWord)
    (h : ∀ b ∈ l, b.length ≤ maxWord) (rest : Bytes) :
    chunks? (chunks l ++ rest) = some (l, rest) := by
  simp [chunks?, chunks, word?_word count, readChunks_flatMap h]

theorem chunks?_eq_some_iff {b rest : Bytes} {l : List Bytes} :
    chunks? b = some (l, rest) ↔
      l.length ≤ maxWord ∧ (∀ c ∈ l, c.length ≤ maxWord) ∧ b = chunks l ++ rest := by
  constructor
  · intro read
    obtain ⟨⟨n, b'⟩, length, body⟩ := Option.bind_eq_some_iff.mp read
    obtain ⟨count, rfl⟩ := word?_eq_some_iff.mp length
    obtain ⟨rfl, words, rfl⟩ := readChunks_eq_some_iff.mp body
    exact ⟨count, words, by rw [chunks, List.append_assoc]⟩
  · rintro ⟨count, words, rfl⟩
    exact chunks?_chunks count words rest

end Packed

namespace Recorder

/-- Every number that is written is a word. -/
structure Fits (r : Recorder) : Prop where
  lastIndex : r.lastIndex ≤ maxWord
  count : r.commands.length ≤ maxWord
  lengths : ∀ c ∈ r.commands, c.length ≤ maxWord

theorem decode_encode_append {r : Recorder} (h : r.Fits) (rest : Bytes) :
    decode (r.encode ++ rest) = some r := by
  simp [decode, encode, Packed.word?_word h.lastIndex, Packed.chunks?_chunks h.count h.lengths]

theorem decode_encode {r : Recorder} (h : r.Fits) : decode r.encode = some r := by
  simpa using decode_encode_append h []

/-- A recorder is read back exactly from the bytes that begin with its own. -/
theorem decode_eq_some_iff {b : Bytes} {r : Recorder} :
    decode b = some r ↔ r.Fits ∧ r.encode <+: b := by
  constructor
  · intro read
    obtain ⟨⟨lastIndex, b'⟩, first, more⟩ := Option.bind_eq_some_iff.mp read
    obtain ⟨⟨commands, rest⟩, others, same⟩ := Option.bind_eq_some_iff.mp more
    cases same
    obtain ⟨word, rfl⟩ := Packed.word?_eq_some_iff.mp first
    obtain ⟨count, lengths, rfl⟩ := Packed.chunks?_eq_some_iff.mp others
    exact ⟨⟨word, count, lengths⟩, rest, by rw [encode, List.append_assoc]⟩
  · rintro ⟨fits, rest, rfl⟩
    exact decode_encode_append fits rest

/-- Of the bytes of two recorders, none begin with the other's. -/
theorem eq_of_encode_begins {r r' : Recorder} (fits : r.Fits) (fits' : r'.Fits)
    (begins : r.encode <+: r'.encode) : r = r' := by
  have read := decode_eq_some_iff.mpr ⟨fits, begins⟩
  exact Option.some.inj (read.symm.trans (decode_encode fits'))

theorem restore_eq_ok_iff {b : Bytes} {r m : Recorder} :
    restore b m = .ok r ↔ r.Fits ∧ r.encode <+: b := by
  rw [← decode_eq_some_iff, restore]
  cases decode b <;> simp

theorem restore_eq_error {b : Bytes} (none : ∀ r : Recorder, r.Fits → ¬ r.encode <+: b)
    (m : Recorder) : restore b m = .error { failure := cutShort, left := m } := by
  cases read : decode b with
  | none => rw [restore, read]
  | some r =>
    obtain ⟨fits, begins⟩ := decode_eq_some_iff.mp read
    exact absurd begins (none r fits)

theorem restore_encode_append {r : Recorder} (fits : r.Fits) (rest : Bytes) (m : Watched Recorder) :
    ∃ m', m.restore (r.encode ++ rest) = .ok m' ∧ m'.machine = r := by
  have read : Machine.restore (r.encode ++ rest) m.machine = .ok r :=
    restore_eq_ok_iff.mpr ⟨fits, List.prefix_append _ _⟩
  exact ⟨_, by rw [Watched.restore, read], rfl⟩

/-- What ends within the bytes of a recorder begins with those of none. -/
theorem restore_cut {r : Recorder} (fits : r.Fits) {b : Bytes} (part : b <+: r.encode)
    (cut : b ≠ r.encode) (m : Recorder) :
    restore b m = .error { failure := cutShort, left := m } := by
  refine restore_eq_error ?_ m
  intro r' fits' begins
  obtain rfl := eq_of_encode_begins fits' fits (begins.trans part)
  exact cut (part.eq_of_length_le begins.length_le)

/-- In an engine that restores a snapshot the machine becomes the recorder that the snapshot begins
with; if it begins with none, the machine stays as it was and the engine ends. -/
theorem after_restore {κ ω : Type} [Core κ] [Carrier ω] {e : Engine κ Recorder} {s : Snapshot}
    {rest : List Act} (live : e.ending = none) (todo : e.loop.todo = .restore s :: rest) (w : ω) :
    let e' := (e.after w .statement).1
    (∀ r : Recorder, r.Fits → r.encode <+: s.data → e'.driver.machine.machine = r) ∧
      ((∀ r : Recorder, r.Fits → ¬ r.encode <+: s.data) →
        e'.driver.machine = e.driver.machine ∧ e'.ending = some (.returned (.error cutShort))) := by
  constructor
  · rintro r fits ⟨t, data⟩
    obtain ⟨m, restored, rfl⟩ := restore_encode_append fits t e.driver.machine
    rw [data] at restored
    rw [Engine.after_restore_ok live todo restored w]
  · intro none
    exact Engine.after_restore_error live todo (restore_eq_error none _) w

/-- A snapshot is the index of the last command, the number of commands, and each command behind
its length, every number in eight bytes, the least significant first. Taking one changes nothing.
Whatever stands behind it, any machine that is restored from it becomes that recorder; from bytes
that begin with no snapshot none is restored, which is the failure of bytes that end too early, and
the machine stays as it was. So no snapshot begins with another, and what is cut off from one is
refused. -/
theorem restored_iff_begins (κ ω : Type) [Core κ] [Carrier ω] :
    (∀ n, (Packed.word n).length = 8 ∧
      ∀ i < 8, (Packed.word n)[i]? = some (UInt8.ofNat (n / Nat.pow 256 i % 256))) ∧
    (∀ r : Recorder, Machine.snapshot r = .ok (r.encode, r) ∧
      r.encode = Packed.word r.lastIndex ++ (Packed.word r.commands.length ++
        r.commands.flatMap fun c => Packed.word c.length ++ c)) ∧
    (∀ r : Recorder, r.Fits → ∀ (t : Bytes) (m : Watched Recorder),
      ∃ m', m.restore (r.encode ++ t) = .ok m' ∧ m'.machine = r) ∧
    (∀ (b : Bytes) (m : Recorder),
      (∀ r, Machine.restore b m = .ok r ↔ r.Fits ∧ r.encode <+: b) ∧
      ((∀ r : Recorder, r.Fits → ¬ r.encode <+: b) →
        Machine.restore b m = .error { failure := cutShort, left := m })) ∧
    cutShort.message = "fsm: io error: unexpected end of file" ∧
    (∀ (e : Engine κ Recorder) (s : Snapshot) (rest : List Act) (w : ω), e.ending = none →
      e.loop.todo = .restore s :: rest →
      let e' := (e.after w .statement).1
      (∀ r : Recorder, r.Fits → r.encode <+: s.data → e'.driver.machine.machine = r) ∧
      ((∀ r : Recorder, r.Fits → ¬ r.encode <+: s.data) →
        e'.driver.machine = e.driver.machine ∧ e'.ending = some (.returned (.error cutShort)))) ∧
    (∀ r r' : Recorder, r.Fits → r'.Fits → (r.encode <+: r'.encode ↔ r = r')) ∧
    ∀ r : Recorder, r.Fits → ∀ b : Bytes, b <+: r.encode → b ≠ r.encode →
      ∀ m : Recorder, Machine.restore b m = .error { failure := cutShort, left := m } := by
  refine ⟨?_, fun r => ⟨rfl, rfl⟩, fun r fits => restore_encode_append fits, ?_, rfl,
    fun e s rest w live todo => after_restore live todo w, ?_, ?_⟩
  · intro n
    exact ⟨Packed.length_number 8 n, fun i inside => Packed.getElem?_number inside n⟩
  · intro b m
    exact ⟨fun r => restore_eq_ok_iff, fun none => restore_eq_error none m⟩
  · intro r r' fits fits'
    refine ⟨eq_of_encode_begins fits fits', ?_⟩
    rintro rfl
    exact List.prefix_refl _
  · intro r fits b part cut m
    exact restore_cut fits part cut m

/-- A machine that held something else is restored although more bytes follow, and refuses the
snapshot when its last byte is missing. -/
theorem restored_iff_begins_of_two_commands :
    let r : Recorder := ⟨3, [[0xaa], []]⟩
    let m : Watched Recorder := { machine := ⟨7, [[1], [2]]⟩ }
    r.Fits ∧ (∃ m', m.restore (r.encode ++ [9]) = .ok m' ∧ m'.machine = r) ∧
      Machine.restore r.encode.dropLast m.machine =
        .error { failure := cutShort, left := m.machine } := by
  intro r m
  have fits : r.Fits := ⟨by decide, by decide, by decide⟩
  obtain ⟨-, -, restored, -, -, -, -, cut⟩ := restored_iff_begins Replica Station
  exact ⟨fits, restored r fits [9] m,
    cut r fits r.encode.dropLast (List.dropLast_prefix _) (by decide) m.machine⟩

end Recorder

end QuorumLab
