import QuorumLab.Entry

/-!
# Packed bytes

Numbers as eight bytes, least significant first, and lists of byte strings behind
their lengths. Reading takes what it needs and leaves the rest.
-/

namespace QuorumLab.Packed

/-- The `width` low bytes of `n`, least significant first. -/
def number : (width : Nat) → Nat → Bytes
  | 0, _ => []
  | width + 1, n => UInt8.ofNat (n % 256) :: number width (n / 256)

/-- Read a number of `width` bytes. -/
def number? : (width : Nat) → Bytes → Option (Nat × Bytes)
  | 0, b => some (0, b)
  | _ + 1, [] => none
  | width + 1, x :: b => (number? width b).map fun (n, rest) => (x.toNat + 256 * n, rest)

def word (n : Nat) : Bytes := number 8 n

def word? (b : Bytes) : Option (Nat × Bytes) := number? 8 b

/-- A byte string behind its length. -/
def chunk (b : Bytes) : Bytes := word b.length ++ b

def chunk? (b : Bytes) : Option (Bytes × Bytes) := do
  let (n, b) ← word? b
  if b.length < n then none else some (b.take n, b.drop n)

def chunks (l : List Bytes) : Bytes := word l.length ++ l.flatMap chunk

/-- Read `n` byte strings. -/
def readChunks : (n : Nat) → Bytes → Option (List Bytes × Bytes)
  | 0, b => some ([], b)
  | n + 1, b => do
    let (c, b) ← chunk? b
    let (l, b) ← readChunks n b
    return (c :: l, b)

def chunks? (b : Bytes) : Option (List Bytes × Bytes) := do
  let (n, b) ← word? b
  readChunks n b

end QuorumLab.Packed
