/-!
# The text of a span of time

Spans are counted in nanoseconds. A span is written in the largest unit it
fills, with as many decimals as it needs.
-/

namespace QuorumLab.Span

/-- Nanoseconds in a second. -/
def second : Nat := 1000000000

/-- Nanoseconds in a millisecond. -/
def millisecond : Nat := 1000000

/-- The span of whole seconds and further nanoseconds. -/
def ofParts (seconds nanos : Nat) : Nat := seconds * second + nanos

/-- The span of that many milliseconds. -/
def ofMillis (ms : Nat) : Nat := ms * millisecond

/-- `part / 10 ^ places` as decimals after a point, without trailing zeros. -/
def decimals (part places : Nat) : String :=
  if part = 0 then "" else
    let shown := (toString part).toList
    let padded := List.replicate (places - shown.length) '0' ++ shown
    "." ++ String.ofList ((padded.reverse.dropWhile (· = '0')).reverse)

/-- The text of a span in the unit of `10 ^ places` nanoseconds. -/
def inUnit (nanos places : Nat) (unit : String) : String :=
  toString (nanos / Nat.pow 10 places) ++ decimals (nanos % Nat.pow 10 places) places ++ unit

/-- Seconds, milliseconds, microseconds or nanoseconds, whichever is the largest the
span fills. -/
def text (nanos : Nat) : String :=
  if Nat.pow 10 9 ≤ nanos then inUnit nanos 9 "s"
  else if Nat.pow 10 6 ≤ nanos then inUnit nanos 6 "ms"
  else if Nat.pow 10 3 ≤ nanos then inUnit nanos 3 "µs"
  else inUnit nanos 0 "ns"

end QuorumLab.Span
