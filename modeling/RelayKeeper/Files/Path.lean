import RelayKeeper.Text.Split

/-!
# Paths

A path is kept and shown as it was written. Its components are its segments between slashes without
the empty ones and without `.`, except for a `.` that a relative path starts with. `parent?` drops
the last component and whatever follows it.
-/

namespace RelayKeeper

structure Path where
  text : String
  deriving DecidableEq, Repr, Inhabited, Ord

namespace Path

def chars (p : Path) : List Char :=
  p.text.toList

def isAbsolute (p : Path) : Bool :=
  p.chars.head? = some '/'

/-- Appends a relative path after a slash, unless there is one; an absolute one replaces `p`. -/
def join (p : Path) (right : String) : Path :=
  if right.toList.head? = some '/' then ⟨right⟩
  else if p.chars.isEmpty || p.chars.getLast? = some '/' then ⟨p.text ++ right⟩
  else ⟨p.text ++ "/" ++ right⟩

def segments (p : Path) : List (List Char) :=
  Text.splitAt '/' p.chars

def isComponent (before : List (List Char)) (segment : List Char) : Bool :=
  !segment.isEmpty && (segment != ['.'] || before.isEmpty)

/-- The components that follow the segments `before`, each with the text that ends with it. -/
def stems (before : List (List Char)) : List (List Char) → List (List Char × List Char)
  | [] => []
  | segment :: rest =>
    let here := before ++ [segment]
    if isComponent before segment then (segment, Text.joinWith ['/'] here) :: stems here rest
    else stems here rest

def components (p : Path) : List String :=
  (stems [] p.segments).map fun (component, _) => String.ofList component

/-- Whether two paths have the same components; repeated and trailing slashes do not matter. -/
def same (p q : Path) : Bool :=
  p.isAbsolute = q.isAbsolute && p.components = q.components

def base (p : Path) : Path :=
  if p.isAbsolute then ⟨"/"⟩ else ⟨""⟩

/-- The paths that contain this one, the nearest first. -/
def parents (p : Path) : List Path :=
  match (stems [] p.segments).reverse with
  | [] => []
  | _ :: above => above.map (fun (_, stem) => ⟨String.ofList stem⟩) ++ [p.base]

/-- The path without its last component. The root and the empty path have no parent. -/
def parent? (p : Path) : Option Path :=
  p.parents.head?

end Path

end RelayKeeper
