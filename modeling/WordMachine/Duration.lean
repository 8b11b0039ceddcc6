/-!
# Durations

A length of time in nanoseconds, written in the largest unit of seconds, milliseconds, microseconds
and nanoseconds of which it holds at least one. The fraction is exact and has no zeros at its end.
-/

namespace WordMachine

/-- A number of nanoseconds. -/
abbrev Duration := Nat

namespace Duration

/-- The duration of whole seconds. -/
def ofSeconds (n : Nat) : Duration := n * 1000000000

/-- The duration of whole microseconds. -/
def ofMicroseconds (n : Nat) : Duration := n * 1000

/-- The digits of a fraction with so many places, without zeros at the end. -/
def fractionDigits (places fraction : Nat) : List Char :=
  let digits := Nat.toDigits 10 fraction
  let padded := List.replicate (places - digits.length) '0' ++ digits
  (padded.reverse.dropWhile (· = '0')).reverse

/-- A duration in a unit of so many nanoseconds, a power of ten with as many zeros as `places`. -/
def inUnit (nanoseconds places : Nat) (unit : String) (d : Duration) : String :=
  let whole := toString (d / nanoseconds)
  let digits := fractionDigits places (d % nanoseconds)
  if digits.isEmpty then whole ++ unit else whole ++ "." ++ String.ofList digits ++ unit

/-- A duration as text. -/
def text (d : Duration) : String :=
  if 1000000000 ≤ d then inUnit 1000000000 9 "s" d
  else if 1000000 ≤ d then inUnit 1000000 6 "ms" d
  else if 1000 ≤ d then inUnit 1000 3 "µs" d
  else inUnit 1 0 "ns" d

end Duration

end WordMachine
