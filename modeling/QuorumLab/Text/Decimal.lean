/-!
# The shortest decimal that reads back

A finite double stands for the interval of reals that round to it. Its text is
the decimal with the fewest digits inside that interval, the nearest of those to
the double itself, written positionally: an exponent is never shown.
-/

namespace QuorumLab.Decimal

/-- The reals from `low / scale` to `high / scale`, around `value / scale`. -/
structure Interval where
  low : Nat
  value : Nat
  high : Nat
  scale : Nat
  closed : Bool

namespace Interval

/-- The interval of the double `mantissa * 2 ^ (power - 1077 + 2)`; below a power of
two the neighbour is only half as far away. -/
def ofBinary (mantissa power : Nat) (halfGapBelow : Bool) : Interval :=
  let up := Nat.pow 2 (power - 1077)
  { low := (4 * mantissa - if halfGapBelow then 1 else 2) * up
    value := 4 * mantissa * up
    high := (4 * mantissa + 2) * up
    scale := Nat.pow 2 (1077 - power)
    closed := mantissa % 2 == 0 }

/-- Whether the real `n / d` lies in the interval. -/
def holds (i : Interval) (n d : Nat) : Bool :=
  if i.closed then
    decide (i.low * d ≤ n * i.scale) && decide (n * i.scale ≤ i.high * d)
  else
    decide (i.low * d < n * i.scale) && decide (n * i.scale < i.high * d)

/-- The multiple of `10 ^ k` inside the interval that is nearest to its value, as the
factor of `10 ^ k`; of two equally near the greater one. -/
def onGrid (i : Interval) (k : Int) : Option Nat :=
  let up := Nat.pow 10 k.toNat
  let down := Nat.pow 10 (-k).toNat
  let num := i.value * down
  let den := i.scale * up
  let below := num / den
  let okBelow := i.holds (below * up) down
  let okAbove := i.holds ((below + 1) * up) down
  let twice := 2 * (num % den)
  match okBelow, okAbove with
  | false, false => none
  | true, false => some below
  | false, true => some (below + 1)
  | true, true =>
    if twice < den then some below else some (below + 1)

/-- The coarsest power of ten that has a multiple in the interval, with that multiple. -/
def shortest (i : Interval) : Nat × Int :=
  let top : Int := (toString (i.value / i.scale)).length
  let hit := (List.range 700).findSome? fun (back : Nat) =>
    let k := top - (back : Int)
    (i.onGrid k).map (·, k)
  hit.getD (0, 0)

end Interval

/-- The decimal `digits * 10 ^ k` in positional form. -/
def positional (digits : Nat) (k : Int) : String :=
  let shown := toString digits
  if 0 ≤ k then
    shown ++ String.ofList (List.replicate k.toNat '0')
  else
    let places := (-k).toNat
    let padded := List.replicate (places + 1 - shown.length) '0' ++ shown.toList
    let whole := padded.length - places
    String.ofList (padded.take whole) ++ "." ++ String.ofList (padded.drop whole)

/-- The text of a double: `NaN`, `inf`, or the shortest decimal, with the sign in front. -/
def ofFloat (x : Float) : String :=
  let bits := x.toBits.toNat
  let fraction := bits % Nat.pow 2 52
  let power := bits / Nat.pow 2 52 % Nat.pow 2 11
  let sign := if bits / Nat.pow 2 63 = 1 then "-" else ""
  if power = 2047 then
    if fraction = 0 then sign ++ "inf" else "NaN"
  else if power = 0 && fraction = 0 then
    sign ++ "0"
  else
    let mantissa := if power = 0 then fraction else fraction + Nat.pow 2 52
    let halfGap := fraction == 0 && 1 < power
    let (digits, k) := (Interval.ofBinary mantissa (max power 1) halfGap).shortest
    sign ++ positional digits k

end QuorumLab.Decimal
