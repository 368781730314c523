/-!
# Numerals

Reading digits of a base up to thirty-six. Printing is `Nat.toDigits`, whose digits are lower case.
-/

namespace RelayKeeper.Text

def digitValue? (base : Nat) (c : Char) : Option Nat :=
  let value :=
    if '0' ≤ c && c ≤ '9' then some (c.toNat - 48)
    else if 'a' ≤ c && c ≤ 'z' then some (c.toNat - 87)
    else if 'A' ≤ c && c ≤ 'Z' then some (c.toNat - 55)
    else none
  value.filter (· < base)

def isDigitOf (base : Nat) (c : Char) : Bool :=
  (digitValue? base c).isSome

def readDigits (base : Nat) : Nat → List Char → Option Nat
  | n, [] => some n
  | n, c :: cs =>
    match digitValue? base c with
    | some d => readDigits base (base * n + d) cs
    | none => none

def number? (base : Nat) (cs : List Char) : Option Nat :=
  if cs.isEmpty then none else readDigits base 0 cs

end RelayKeeper.Text
