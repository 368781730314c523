import RelayKeeper.Text.Numeral
import RelayKeeper.Text.Split

/-!
# IPv4 addresses

Four decimal octets separated by dots. An octet has no leading zero, so each address has one text.
-/

namespace RelayKeeper.Net

structure Ipv4 where
  a : UInt8
  b : UInt8
  c : UInt8
  d : UInt8
  deriving DecidableEq, Repr

namespace Ipv4

/-- An octet of one to three digits, without a leading zero. -/
def octet? (cs : List Char) : Option UInt8 :=
  if cs.length ≤ 3 && (cs.head? != some '0' || cs.length == 1) then
    match Text.number? 10 cs with
    | some n => if n < 256 then some (UInt8.ofNat n) else none
    | none => none
  else none

def parse? (cs : List Char) : Option Ipv4 :=
  match Text.splitAt '.' cs with
  | [a, b, c, d] => do some ⟨← octet? a, ← octet? b, ← octet? c, ← octet? d⟩
  | _ => none

def octetChars (n : UInt8) : List Char :=
  Nat.toDigits 10 n.toNat

def chars (ip : Ipv4) : List Char :=
  octetChars ip.a ++ '.' :: octetChars ip.b ++ '.' :: octetChars ip.c ++ '.' :: octetChars ip.d

def groups (ip : Ipv4) : List UInt16 :=
  [ip.a.toUInt16 <<< 8 ||| ip.b.toUInt16, ip.c.toUInt16 <<< 8 ||| ip.d.toUInt16]

def ofGroups (high low : UInt16) : Ipv4 :=
  ⟨(high >>> 8).toUInt8, high.toUInt8, (low >>> 8).toUInt8, low.toUInt8⟩

end Ipv4

end RelayKeeper.Net
