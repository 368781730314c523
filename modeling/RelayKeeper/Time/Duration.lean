/-!
# Durations

A duration counts nanoseconds. Its text uses the largest unit of which there is at least one, with
the fraction that is left and no zeros at its end.
-/

namespace RelayKeeper

structure Duration where
  nanos : Nat
  deriving DecidableEq, Repr, Inhabited, Ord

namespace Duration

def zero : Duration := ⟨0⟩

def ofSeconds (n : Nat) : Duration := ⟨n * 1000000000⟩

def ofMillis (n : Nat) : Duration := ⟨n * 1000000⟩

def add (a b : Duration) : Duration := ⟨a.nanos + b.nanos⟩

/-- What is left of `a` after `b`, zero if nothing is. -/
def sub (a b : Duration) : Duration := ⟨a.nanos - b.nanos⟩

def min (a b : Duration) : Duration := ⟨Min.min a.nanos b.nanos⟩

def fractionDigits (places fraction : Nat) : List Char :=
  let digits := Nat.toDigits 10 fraction
  let padded := List.replicate (places - digits.length) '0' ++ digits
  (padded.reverse.dropWhile (· == '0')).reverse

def inUnit (places : Nat) (unit : String) (d : Duration) : String :=
  let fraction := fractionDigits places (d.nanos % Nat.pow 10 places)
  let whole := toString (d.nanos / Nat.pow 10 places)
  if fraction.isEmpty then whole ++ unit else whole ++ "." ++ String.ofList fraction ++ unit

def text (d : Duration) : String :=
  if Nat.pow 10 9 ≤ d.nanos then d.inUnit 9 "s"
  else if Nat.pow 10 6 ≤ d.nanos then d.inUnit 6 "ms"
  else if Nat.pow 10 3 ≤ d.nanos then d.inUnit 3 "µs"
  else d.inUnit 0 "ns"

end Duration

end RelayKeeper
