import RelayKeeper.Net.Ipv4

/-!
# IPv6 addresses

Eight groups of sixteen bits. When reading, `::` stands for one or more zero groups and the last two
groups may be a dotted IPv4 address. When printing, the first longest run of at least two zero groups
is written `::`, and an address of the mapped range `::ffff:0:0/96` has a dotted tail.
-/

namespace RelayKeeper.Net

structure Ipv6 where
  groups : Vector UInt16 8
  deriving DecidableEq, Repr

namespace Ipv6

def ofList? (groups : List UInt16) : Option Ipv6 :=
  if h : groups.length = 8 then some ⟨⟨groups.toArray, by simpa using h⟩⟩ else none

def toList (ip : Ipv6) : List UInt16 :=
  ip.groups.toList

def group? (cs : List Char) : Option UInt16 :=
  if cs.length ≤ 4 then (Text.number? 16 cs).map UInt16.ofNat else none

/-- The groups of the pieces between colons; if `dotted`, the last piece may be an IPv4 address. -/
def groupsOf? (dotted : Bool) : List (List Char) → Option (List UInt16)
  | [] => some []
  | [piece] =>
    match if dotted then Ipv4.parse? piece else none with
    | some ip => some ip.groups
    | none => (group? piece).map ([·])
  | piece :: pieces => do some ((← group? piece) :: (← groupsOf? dotted pieces))

def side? (dotted : Bool) (cs : List Char) : Option (List UInt16) :=
  if cs.isEmpty then some [] else groupsOf? dotted (Text.splitAt ':' cs)

def cutDouble? : List Char → Option (List Char × List Char)
  | ':' :: ':' :: rest => some ([], rest)
  | c :: rest => (cutDouble? rest).map fun (a, b) => (c :: a, b)
  | [] => none

def parse? (cs : List Char) : Option Ipv6 :=
  match cutDouble? cs with
  | none => do ofList? (← groupsOf? true (Text.splitAt ':' cs))
  | some (left, right) => do
    let before ← side? false left
    let after ← side? true right
    if before.length + after.length ≤ 7 then
      ofList? (before ++ List.replicate (8 - before.length - after.length) 0 ++ after)
    else none

def zerosAtStart : List UInt16 → Nat
  | [] => 0
  | g :: gs => if g = 0 then zerosAtStart gs + 1 else 0

/-- Where the first longest run of zero groups starts, and its length. -/
def longestZeros : List UInt16 → Nat × Nat
  | [] => (0, 0)
  | g :: gs =>
    let here := zerosAtStart (g :: gs)
    let (start, length) := longestZeros gs
    if length ≤ here then (0, here) else (start + 1, length)

def groupChars (g : UInt16) : List Char :=
  Nat.toDigits 16 g.toNat

def groupsChars (gs : List UInt16) : List Char :=
  Text.joinWith [':'] (gs.map groupChars)

/-- The hexadecimal form, with the longest run of zeros left out. -/
def hexChars (gs : List UInt16) : List Char :=
  let (start, length) := longestZeros gs
  if 2 ≤ length then
    groupsChars (gs.take start) ++ ':' :: ':' :: groupsChars (gs.drop (start + length))
  else groupsChars gs

def mapped? (ip : Ipv6) : Option Ipv4 :=
  match ip.toList with
  | [0, 0, 0, 0, 0, 0xffff, high, low] => some (.ofGroups high low)
  | _ => none

def chars (ip : Ipv6) : List Char :=
  match ip.mapped? with
  | some v4 => "::ffff:".toList ++ v4.chars
  | none => hexChars ip.toList

end Ipv6

end RelayKeeper.Net
