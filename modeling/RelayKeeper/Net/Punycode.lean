import RelayKeeper.Text.Numeral

/-!
# Punycode

The inverse of RFC 3492, as far as a label has to be checked: `decode?` gives the characters that an
encoded label stands for, or `none` if it is not well formed.
-/

namespace RelayKeeper.Net.Punycode

/-- The value of a digit: letters stand for 0 to 25, decimal digits for 26 to 35. -/
def digit? (c : Char) : Option Nat :=
  if 'a' ≤ c && c ≤ 'z' then some (c.toNat - 97)
  else if '0' ≤ c && c ≤ '9' then some (c.toNat - 22)
  else none

/-- Divides by 35 until at most 455 is left; `steps` bounds the divisions. -/
def scale : Nat → Nat → Nat → Nat
  | 0, k, delta => k + 36 * delta / (delta + 38)
  | steps + 1, k, delta =>
    if 455 < delta then scale steps (k + 36) (delta / 35) else k + 36 * delta / (delta + 38)

def adapt (delta count : Nat) (first : Bool) : Nat :=
  let d := if first then delta / 700 else delta / 2
  scale 8 0 (d + d / count)

def limit : Nat := 4294967295

def readNumber (bias : Nat) : Nat → Nat → Nat → List Char → Option (Nat × List Char)
  | _, _, _, [] => none
  | k, weight, value, c :: rest => do
    let d ← digit? c
    let value := value + d * weight
    let threshold := if k ≤ bias then 1 else if bias + 26 ≤ k then 26 else k - bias
    if limit < value then none
    else if d < threshold then some (value, rest)
    else
      let weight := weight * (36 - threshold)
      if limit < weight then none else readNumber bias (k + 36) weight value rest

def insertAll : Nat → Bool → Nat → Nat → Nat → List Char → List Char → Option (List Char)
  | _, _, _, _, _, out, [] => some out
  | 0, _, _, _, _, _, _ :: _ => none
  | count + 1, first, code, place, bias, out, text => do
    let (delta, rest) ← readNumber bias 36 1 0 text
    let size := out.length + 1
    let position := place + delta
    let code := code + position / size
    if 0x10FFFF < code || (0xD800 ≤ code && code ≤ 0xDFFF) then none
    else
      let place := position % size
      let out := out.take place ++ Char.ofNat code :: out.drop place
      insertAll count false code (place + 1) (adapt delta size first) out rest

/-- What stands before the last hyphen, and what follows it; without a hyphen nothing stands
before. -/
def cutLastHyphen (cs : List Char) : List Char × List Char :=
  let tail := (cs.reverse.takeWhile (· != '-')).reverse
  (cs.take (cs.length - tail.length - 1), tail)

def decode? (cs : List Char) : Option (List Char) :=
  let (basic, extended) := cutLastHyphen cs
  insertAll extended.length true 128 0 72 basic extended

end RelayKeeper.Net.Punycode
