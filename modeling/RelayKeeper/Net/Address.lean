import RelayKeeper.Net.Ipv6
import RelayKeeper.Text.Blank

/-!
# Bind addresses

The address at which clients reach the relay: an IP address or a host name. A host name is kept in
lower case and otherwise as written, with the trailing dot if it has one.
-/

namespace RelayKeeper.Net

/-- A label of a host name: letters, digits and hyphens, with no hyphen at either end. -/
def isLabel (cs : List Char) : Bool :=
  !cs.isEmpty && cs.length ≤ 63 && cs.head? != some '-' && cs.getLast? != some '-' &&
    cs.all fun c => c.isAlphanum || c == '-'

def dropRootDot (cs : List Char) : List Char :=
  if cs.getLast? = some '.' then cs.dropLast else cs

/-- Labels separated by dots, at most 253 characters in all, with an optional dot at the end. -/
def isHostname (cs : List Char) : Bool :=
  let name := dropRootDot cs
  !name.isEmpty && name.length ≤ 253 && (Text.splitAt '.' name).all isLabel

inductive Address where
  | ipv4 (ip : Ipv4)
  | ipv6 (ip : Ipv6)
  | hostname (name : List Char)
  deriving DecidableEq, Repr

structure InvalidAddress where
  value : String
  deriving DecidableEq, Repr

def InvalidAddress.message (e : InvalidAddress) : String :=
  s!"invalid bind address '{e.value}': expected an IP address or hostname"

namespace Address

/-- Reads an address from trimmed text; an IP address comes before a host name. -/
def ofChars? (cs : List Char) : Option Address :=
  match Ipv4.parse? cs with
  | some ip => some (.ipv4 ip)
  | none =>
    match Ipv6.parse? cs with
    | some ip => some (.ipv6 ip)
    | none => if isHostname cs then some (.hostname (cs.map Char.toLower)) else none

def parse (text : String) : Except InvalidAddress Address :=
  let cs := Text.trimChars text.toList
  match ofChars? cs with
  | some address => .ok address
  | none => .error ⟨String.ofList cs⟩

def chars : Address → List Char
  | .ipv4 ip => ip.chars
  | .ipv6 ip => ip.chars
  | .hostname name => name

def text (address : Address) : String :=
  String.ofList address.chars

end Address

end RelayKeeper.Net
