import QuorumLab.Entry

/-!
# Reading membership changes

A proposed membership change is a record of tagged fields. All a leader has to know
about it is whether it can be read and how many single changes it makes.
-/

namespace QuorumLab.MemberChange

/-- What a field with a known number has to hold. -/
inductive Shape where
  | number
  /-- A number that names one of three things. -/
  | choice
  | bytes
  /-- A record of its own. -/
  | record
  deriving Repr, DecidableEq, Inhabited

/-- A tagged field's value. -/
inductive Value where
  | number (n : Nat)
  | fixed
  | bytes
  | record (b : Bytes)
  | group
  deriving Repr, DecidableEq, Inhabited

/-- Which fields of a record are known, and their shapes. -/
abbrev Fields := Nat → Option Shape

/-- A number in base 128 of at most `room` bytes, least significant first. -/
def varint (room : Nat) : Bytes → Option (Nat × Bytes)
  | [] => none
  | b :: rest =>
    match room with
    | 0 => none
    | room + 1 =>
      if b.toNat < 128 then some (b.toNat, rest)
      else (varint room rest).map fun (n, rest) => (b.toNat % 128 + 128 * n, rest)

/-- A number of `bits` bits; what does not fit is cut off. -/
def number (bits : Nat) (b : Bytes) : Option (Nat × Bytes) :=
  (varint 10 b).map fun (n, rest) => (n % Nat.pow 2 bits, rest)

/-- What is left after `n` bytes, if there are that many. -/
def skip (n : Nat) (b : Bytes) : Option Bytes := if b.length < n then none else some (b.drop n)

/-- The number of the next field and the form of its value. -/
def tag (b : Bytes) : Option ((Nat × Nat) × Bytes) := do
  let (n, rest) ← number 32 b
  if n / 8 = 0 then none
  return ((n / 8, n % 8), rest)

/-- A value of a form that holds no further fields. -/
def plain (form : Nat) (b : Bytes) : Option (Value × Bytes) := do
  match form with
  | 0 => do
    let (n, rest) ← number 64 b
    return (.number n, rest)
  | 1 => return (.fixed, ← skip 8 b)
  | 2 => do
    let (n, rest) ← number 32 b
    return (.bytes, ← skip n rest)
  | 5 => return (.fixed, ← skip 4 b)
  | _ => none

/-- What follows a group of at most `n` tags. Groups do not nest. -/
def afterGroup : (n : Nat) → Bytes → Option Bytes
  | 0, _ => none
  | n + 1, b => do
    let ((_, form), rest) ← tag b
    if form = 4 then return rest
    let (_, rest) ← plain form rest
    afterGroup n rest

/-- A record within a record of `total` bytes. Its end has to be a word, but it may lie
behind the end of the other: then so much less is there to be read. -/
def record (total : Nat) (b : Bytes) : Option (Value × Bytes) := do
  let (n, rest) ← number 64 b
  if maxWord < total - rest.length + n then none
  return (.record (rest.take n), rest.drop n)

/-- The next field of a record of `total` bytes, under its number. -/
def field (known : Fields) (total : Nat) (b : Bytes) : Option ((Nat × Value) × Bytes) := do
  let ((id, form), rest) ← tag b
  let (value, rest) ←
    if form = 3 then (afterGroup rest.length rest).map (Value.group, ·)
    else if form = 2 ∧ known id = some .record then record total rest
    else plain form rest
  return ((id, value), rest)

/-- Whether a known field holds what it has to. -/
def fits : Shape → Value → Bool
  | .number, .number _ => true
  | .choice, .number n => decide (n % UInt32.size ≤ 2)
  | .bytes, .bytes => true
  | .record, .record _ => true
  | _, _ => false

/-- The fields of a record, if it can be read. Every field takes at least a byte, so the
length bounds their number. -/
def read (known : Fields) (b : Bytes) : Option (List (Nat × Value)) := go b.length b
where
  go : Nat → Bytes → Option (List (Nat × Value))
    | _, [] => some []
    | 0, _ => none
    | n + 1, rest => do
      let ((id, value), rest) ← field known b.length rest
      if (known id).any (!fits · value) then none
      return (id, value) :: (← go n rest)

/-- One change: its kind and the member it is about. -/
def single : Fields
  | 1 => some .choice
  | 2 => some .number
  | _ => none

/-- The plain form: the change has a number, and room for a note. -/
def alone : Fields
  | 1 => some .number
  | 2 => some .choice
  | 3 => some .number
  | 4 => some .bytes
  | _ => none

/-- The other form: how to go over to the new membership, single changes, and a note. -/
def batch : Fields
  | 1 => some .choice
  | 2 => some .record
  | 3 => some .bytes
  | _ => none

inductive Count where
  | notAChange
  | unreadable
  | changes (n : Nat)
  deriving Repr, DecidableEq, Inhabited

/-- How many single changes an entry makes: one in the plain form, a list in the other. -/
def count? (e : Entry) : Count :=
  match e.kind with
  | .normal => .notAChange
  | .memberChange => if (read alone e.data).isSome then .changes 1 else .unreadable
  | .memberChangeBatch =>
    match read batch e.data with
    | none => .unreadable
    | some l =>
      let singles := l.filterMap fun f =>
        match f.2 with
        | .record b => some b
        | _ => none
      if singles.all fun b => (read single b).isSome then .changes singles.length
      else .unreadable

end QuorumLab.MemberChange
