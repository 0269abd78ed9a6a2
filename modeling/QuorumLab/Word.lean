import QuorumLab.Entry
import QuorumLab.Failure

/-!
# Arithmetic on words

Indexes and terms are 64-bit words. A sum or a difference that is no word is a fault.
-/

namespace QuorumLab.Word

/-- `n`, which was added up, as a word. -/
def sum (n : Nat) : Except Fault Nat :=
  if n ≤ maxWord then .ok n else .error (.overflow .add)

/-- `n + 1` as a word. -/
def succ (n : Nat) : Except Fault Nat := sum (n + 1)

/-- `n - m` as a word. -/
def minus (n m : Nat) : Except Fault Nat :=
  if m ≤ n then .ok (n - m) else .error (.overflow .subtract)

end QuorumLab.Word
