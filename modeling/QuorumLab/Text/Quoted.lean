import QuorumLab.Text.Shapeless

/-!
# Quoted text

A string between double quotes, with what could not be read there written as an escape.
-/

namespace QuorumLab.Quoted

/-- Digits of `n` in base 16. -/
def hexDigits (n : Nat) : List Char := Nat.toDigits 16 n

def escape (c : Char) : List Char :=
  match c with
  | '"' => ['\\', '"']
  | '\\' => ['\\', '\\']
  | '\n' => ['\\', 'n']
  | '\r' => ['\\', 'r']
  | '\t' => ['\\', 't']
  | '\x00' => ['\\', '0']
  | c => if isShapeless c then ['\\', 'u', '\x7b'] ++ hexDigits c.toNat ++ ['\x7d'] else [c]

def text (s : String) : String := "\"" ++ String.ofList (s.toList.flatMap escape) ++ "\""

/-- A list in brackets, its items divided by commas. -/
def list (items : List String) : String := "[" ++ ", ".intercalate items ++ "]"

end QuorumLab.Quoted
