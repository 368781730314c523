import RelayKeeper.Net.Domain

/-!
# URLs

The WHATWG rules for an absolute URL, as far as they decide whether a text is a URL and whether the
URL has a host. Control characters and spaces at both ends are left out first, and tabs and line
breaks everywhere.

This is what proxies are checked with when nothing else is given. `State.ofInputsBy` takes any
function in its place, since which international names are hosts depends on tables that are not part
of it; nothing is proved of those names, and results about proxies name the rules that they need.
-/

namespace RelayKeeper.Net.Url

inductive SchemeKind where
  | web
  | file
  | other
  deriving DecidableEq, Repr

def SchemeKind.ofName (name : List Char) : SchemeKind :=
  if ["http", "https", "ws", "wss", "ftp"].any (·.toList == name) then .web
  else if name = "file".toList then .file
  else .other

def SchemeKind.isSpecial (kind : SchemeKind) : Bool :=
  kind != .other

/-- The characters that are read: nothing below or at a space at the ends, no tabs, no breaks. -/
def readable (cs : List Char) : List Char :=
  let inner := ((cs.dropWhile (· ≤ ' ')).reverse.dropWhile (· ≤ ' ')).reverse
  inner.filter fun c => c != '\t' && c != '\n' && c != '\r'

def cutScheme? (cs : List Char) : Option (List Char × List Char) :=
  match cs with
  | first :: _ =>
    if first.isAlpha then do
      let (name, rest) ← Text.cutAt? ':' cs
      if name.all fun c => c.isAlphanum || c == '+' || c == '-' || c == '.' then
        some (name.map Char.toLower, rest)
      else none
    else none
  | [] => none

def endsAuthority (special : Bool) (c : Char) : Bool :=
  c == '/' || c == '?' || c == '#' || (special && c == '\\')

/-- Cuts an authority, with what follows it, after its last `@`. -/
def cutUserinfo (special : Bool) (cs : List Char) : Option (List Char × List Char) :=
  let authority := cs.takeWhile (!endsAuthority special ·)
  let host := (authority.reverse.takeWhile (· != '@')).reverse
  if host.length = authority.length then none
  else some (authority.take (authority.length - host.length - 1),
    cs.drop (authority.length - host.length))

/-- The host part of an authority; a colon inside brackets does not end it. -/
def takeHost (special : Bool) : Bool → List Char → List Char
  | _, [] => []
  | bracketed, c :: cs =>
    if endsAuthority special c || (c == ':' && !bracketed) then []
    else c :: takeHost special (c == '[' || (bracketed && c != ']')) cs

/-- Checks the port after a host: digits up to 65535, then the end of the authority. -/
def checkPort : Nat → List Char → Except UrlError Unit
  | _, [] => .ok ()
  | port, c :: cs =>
    match Text.digitValue? 10 c with
    | some d => if 65535 < 10 * port + d then .error .invalidPort else checkPort (10 * port + d) cs
    | none => if endsAuthority true c then .ok () else .error .invalidPort

def checkPortAfter : List Char → Except UrlError Unit
  | ':' :: rest => checkPort 0 rest
  | _ => .ok ()

/-- Whether the authority that `cs` starts with has a host. User information that is empty, or is a
mere colon, leaves no trace; any other needs a host. -/
def authorityHasHost (special : Bool) (cs : List Char) : Except UrlError Bool := do
  let (user, rest) := (cutUserinfo special cs).getD ([], cs)
  if (cutUserinfo special cs).isSome && user.isEmpty && rest.head?.any (endsAuthority special) then
    .error .emptyHost
  let host := takeHost special false rest
  let after := rest.drop host.length
  if special then
    if host.isEmpty then .error .emptyHost
    let _ ← Domain.check host
    checkPortAfter after
    .ok true
  else
    Domain.checkOpaque host
    if host.isEmpty && after.head? = some ':' then .error .emptyHost
    checkPortAfter after
    if host.isEmpty && !user.isEmpty && user != [':'] then .error .emptyHost
    .ok !host.isEmpty

def isDriveLetter : List Char → Bool
  | [letter, mark] => letter.isAlpha && (mark == ':' || mark == '|')
  | _ => false

def isSingleDot (segment : List Char) : Bool :=
  segment == ".".toList || segment.map Char.toLower == "%2e".toList

def isDoubleDot (segment : List Char) : Bool :=
  ["..", ".%2e", "%2e.", "%2e%2e"].any (·.toList == segment.map Char.toLower)

/-- Whether the first segment that stays in a path, with `depth` segments before, is a drive
letter. -/
def startsWithDrive : Nat → List (List Char) → Bool
  | _, [] => false
  | depth, segment :: segments =>
    if isSingleDot segment then startsWithDrive depth segments
    else if isDoubleDot segment then startsWithDrive (depth - 1) segments
    else (depth = 0 && isDriveLetter segment) || startsWithDrive (depth + 1) segments

/-- Whether a file URL has a host, which stands after two slashes. A drive letter is a path, and it
removes the host when a path starts with it. -/
def fileHasHost (cs : List Char) : Except UrlError Bool :=
  match cs with
  | a :: b :: rest =>
    if (a == '/' || a == '\\') && (b == '/' || b == '\\') then do
      let host := rest.takeWhile (!endsAuthority true ·)
      if isDriveLetter host || host.isEmpty then .ok false
      else
        let mapped ← Domain.check host
        let path := (rest.drop host.length).takeWhile fun c => c != '?' && c != '#'
        let segments := Text.splitAt '/' ((path.drop 1).map fun c => if c = '\\' then '/' else c)
        .ok (mapped != "localhost".toList && !startsWithDrive 0 segments)
    else .ok false
  | _ => .ok false

/-- Whether the URL that a text spells has a host. -/
def hasHost (text : String) : Except UrlError Bool :=
  match cutScheme? (readable text.toList) with
  | none => .error .relativeWithoutBase
  | some (name, rest) =>
    match SchemeKind.ofName name with
    | .web => authorityHasHost true (rest.dropWhile fun c => c == '/' || c == '\\')
    | .file => fileHasHost rest
    | .other =>
      match rest with
      | '/' :: '/' :: rest => authorityHasHost false rest
      | _ => .ok false

end RelayKeeper.Net.Url
