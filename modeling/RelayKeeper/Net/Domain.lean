import RelayKeeper.Net.Ipv6
import RelayKeeper.Net.Punycode
import RelayKeeper.Text.Utf8

/-!
# Hosts in URLs

A host of a special scheme is percent-decoded and mapped to its ASCII form; if its last label is a
number, the host has to be an IPv4 address in one of its loose spellings. A host of any other scheme
is opaque, and only some characters are refused. `[...]` is an IPv6 address in both.

Of the map to the ASCII form, UTS 46, only a part is here: case, full width forms, ideographic dots
and what vanishes. Other compatibility forms, the characters that are not allowed, normalisation and
the validity of a label that is decoded are left out, so that an international name may be taken here
and refused by UTS 46, or the other way round.
-/

namespace RelayKeeper.Net

inductive UrlError where
  | relativeWithoutBase
  | emptyHost
  | invalidPort
  | invalidIpv4
  | invalidIpv6
  | invalidInternationalName
  | invalidDomainCharacter
  deriving DecidableEq, Repr

def UrlError.message : UrlError → String
  | .relativeWithoutBase => "relative URL without a base"
  | .emptyHost => "empty host"
  | .invalidPort => "invalid port number"
  | .invalidIpv4 => "invalid IPv4 address"
  | .invalidIpv6 => "invalid IPv6 address"
  | .invalidInternationalName => "invalid international domain name"
  | .invalidDomainCharacter => "invalid domain character"

namespace Domain

def percentDecode : List UInt8 → List UInt8
  | 37 :: a :: b :: rest =>
    match Text.digitValue? 16 (Char.ofNat a.toNat), Text.digitValue? 16 (Char.ofNat b.toNat) with
    | some x, some y => UInt8.ofNat (16 * x + y) :: percentDecode rest
    | _, _ => 37 :: percentDecode (a :: b :: rest)
  | b :: rest => b :: percentDecode rest
  | [] => []

def isDenied (c : Char) : Bool :=
  c ≤ ' ' || c == '\x7f' || "%#/:<>?@[\\]^|".toList.contains c || c.toNat == 0xFFFD

/-- Letters become lower case, full width forms plain and ideographic dots a dot; soft hyphens, zero
width characters and variation selectors vanish. UTS 46 maps many more. -/
def mapChar (c : Char) : List Char :=
  let n := c.toNat
  if 0xFF01 ≤ n && n ≤ 0xFF5E then [(Char.ofNat (n - 0xFEE0)).toLower]
  else if n == 0x3002 || n == 0xFF61 then ['.']
  else if n == 0xAD || n == 0x200B || n == 0x2060 || n == 0xFEFF || (0xFE00 ≤ n && n ≤ 0xFE0F)
  then []
  else [c.toLower]

/-- A label that starts with `xn--` has to stand for one that is not all ASCII. UTS 46 asks more of
the label that it stands for. -/
def isEncodedWell (label : List Char) : Bool :=
  if "xn--".toList.isPrefixOf label then
    match Punycode.decode? (label.drop 4) with
    | some cs => cs.any (·.toNat ≥ 0x80)
    | none => false
  else true

/-- A number of an IPv4 address: decimal, octal after `0`, hexadecimal after `0x`. -/
def looseNumber? (cs : List Char) : Option Nat :=
  match cs with
  | [] => none
  | '0' :: 'x' :: rest | '0' :: 'X' :: rest =>
    if rest.isEmpty then some 0 else Text.number? 16 rest
  | '0' :: d :: rest => Text.number? 8 (d :: rest)
  | _ => Text.number? 10 cs

/-- The pieces between dots, without an empty last one. -/
def labelsOf (cs : List Char) : List (List Char) :=
  let labels := Text.splitAt '.' cs
  if 1 < labels.length && labels.getLast? = some [] then labels.dropLast else labels

def endsInNumber (cs : List Char) : Bool :=
  match (labelsOf cs).getLast? with
  | none => false
  | some label => (!label.isEmpty && label.all Char.isDigit) || (looseNumber? label).isSome

/-- Up to four numbers; all but the last fit a byte and the last fills what is left. -/
def isLooseIpv4 (cs : List Char) : Bool :=
  let labels := labelsOf cs
  match labels.mapM looseNumber? with
  | none => false
  | some numbers =>
    labels.length ≤ 4 && numbers.dropLast.all (· ≤ 255) &&
      numbers.getLastD 0 < Nat.pow 256 (5 - numbers.length)

def checkBracketed (cs : List Char) : Except UrlError Unit :=
  if cs.getLast? = some ']' && (Ipv6.parse? cs.dropLast).isSome then .ok ()
  else .error .invalidIpv6

def check (cs : List Char) : Except UrlError (List Char) :=
  match cs with
  | '[' :: rest => do checkBracketed rest; .ok cs
  | _ =>
    let bytes := percentDecode (String.ofList cs).toUTF8.data.toList
    let mapped := (Text.decode bytes).flatMap mapChar
    if mapped.any isDenied || !(Text.splitAt '.' mapped).all isEncodedWell then
      .error .invalidInternationalName
    else if mapped.isEmpty then .error .emptyHost
    else if endsInNumber mapped && !isLooseIpv4 mapped then .error .invalidIpv4
    else .ok mapped

def checkOpaque (cs : List Char) : Except UrlError Unit :=
  match cs with
  | '[' :: rest => checkBracketed rest
  | _ =>
    if cs.any ("\x00\t\n\r #/:<>?@[\\]^|".toList.contains ·) then .error .invalidDomainCharacter
    else .ok ()

end Domain

end RelayKeeper.Net
