import Std.Data.ExtTreeMap
import RelayKeeper.Files.Fault
import RelayKeeper.Files.Path

/-!
# File trees

A tree maps places, which are lists of names from the root, to files and directories. A path is
walked name by name, so `..` and faults are those of a directory walk. An operation gives its answer
and the tree afterwards; one that fails leaves the files as they were.
-/

namespace RelayKeeper

inductive Node where
  /-- A file with its permission bits. -/
  | file (content : ByteArray) (mode : Nat)
  | directory
  deriving Inhabited

instance : DecidableEq Node
  | .file content mode, .file other otherMode =>
    decidable_of_decidable_of_iff (p := content.data = other.data ∧ mode = otherMode)
      (by rw [Node.file.injEq, ByteArray.ext_iff])
  | .file .., .directory => isFalse Node.noConfusion
  | .directory, .file .. => isFalse Node.noConfusion
  | .directory, .directory => isTrue rfl

abbrev Place := List String

structure FileTree where
  nodes : Std.ExtTreeMap Place Node
  /-- Where relative paths start. -/
  current : Place

namespace FileTree

def empty : FileTree := ⟨∅, []⟩

/-- What stands at a place. The root is always a directory. -/
def node? (t : FileTree) (place : Place) : Option Node :=
  if place = [] then some .directory else t.nodes[place]?

def put (t : FileTree) (place : Place) (node : Node) : FileTree :=
  { t with nodes := t.nodes.insert place node }

def longestName : Nat := 255

def enter (t : FileTree) (place : Place) (name : String) : Except Fault Place :=
  if t.node? place != some .directory then .error .notDirectory
  else if name = "." then .ok place
  else if name = ".." then .ok place.dropLast
  else if longestName < name.utf8ByteSize then .error .nameTooLong
  else .ok (place ++ [name])

def walk (t : FileTree) (place : Place) : List String → Except Fault Place
  | [] => .ok place
  | name :: names => do
    let next ← t.enter place name
    if (t.node? next).isNone then .error .notFound
    t.walk next names

/-- The names that a walk along a path takes, `.` included. -/
def stepsOf (p : Path) : List String :=
  (p.segments.filter (!·.isEmpty)).map String.ofList

def start (t : FileTree) (p : Path) : Place :=
  if p.isAbsolute then [] else t.current

def checkPath (p : Path) : Except Fault Unit :=
  if p.chars.contains '\x00' then .error .nulInName
  else if p.chars.isEmpty then .error .notFound
  else .ok ()

def endsInSlash (p : Path) : Bool :=
  p.chars.getLast? = some '/'

def find (t : FileTree) (p : Path) : Except Fault (Place × Node) := do
  checkPath p
  let place ← t.walk (t.start p) (stepsOf p)
  match t.node? place with
  | none => .error .notFound
  | some (.file content mode) =>
    if endsInSlash p then .error .notDirectory else .ok (place, .file content mode)
  | some .directory => .ok (place, .directory)

/-- Where a path leads to if its last name may be missing, and that name; `none` if the path ends
at a directory by `.`, `..` or the root. -/
def findParent (t : FileTree) (p : Path) : Except Fault (Option (Place × String)) := do
  checkPath p
  let steps := stepsOf p
  match steps.getLast? with
  | none => .ok none
  | some last =>
    let place ← t.walk (t.start p) steps.dropLast
    let _ ← t.enter place last
    if last = "." || last = ".." then .ok none else .ok (some (place, last))

def contains (t : FileTree) (p : Path) : Bool :=
  (t.find p).isOk

def isDirectory (t : FileTree) (p : Path) : Bool :=
  match t.find p with
  | .ok (_, .directory) => true
  | _ => false

def read (t : FileTree) (p : Path) : Except Fault ByteArray := do
  match ← t.find p with
  | (_, .file content _) => .ok content
  | (_, .directory) => .error .isDirectory

def readText (t : FileTree) (p : Path) : Except Fault String := do
  match String.fromUTF8? (← t.read p) with
  | some text => .ok text
  | none => .error .invalidText

def newFileMode : Nat := 0o644

/-- Replaces the content of a file, which keeps its permission bits, or makes a new one. -/
def write (t : FileTree) (p : Path) (content : ByteArray) : Except Fault FileTree := do
  match ← t.findParent p with
  | none => .error .isDirectory
  | some (place, name) =>
    if endsInSlash p then .error .isDirectory
    else
      match t.node? (place ++ [name]) with
      | some .directory => .error .isDirectory
      | some (.file _ mode) => .ok (t.put (place ++ [name]) (.file content mode))
      | none => .ok (t.put (place ++ [name]) (.file content newFileMode))

def writeText (t : FileTree) (p : Path) (text : String) : Except Fault FileTree :=
  t.write p text.toUTF8

def append (t : FileTree) (p : Path) (content : ByteArray) : Except Fault FileTree :=
  match t.find p with
  | .ok (place, .file old mode) => .ok (t.put place (.file (old ++ content) mode))
  | _ => t.write p content

def setMode (t : FileTree) (p : Path) (mode : Nat) : Except Fault FileTree := do
  match ← t.find p with
  | (place, .file content _) => .ok (t.put place (.file content mode))
  | (_, .directory) => .ok t

def makeDirectory (t : FileTree) (p : Path) : Except Fault FileTree := do
  match ← t.findParent p with
  | none => .error .alreadyExists
  | some (place, name) =>
    if (t.node? (place ++ [name])).isSome then .error .alreadyExists
    else .ok (t.put (place ++ [name]) .directory)

/-- Makes the first path a directory after those behind it, each of which contains the one before.
What is made stays, also when a later step fails. -/
def makeChain (t : FileTree) : List Path → Except Fault Unit × FileTree
  | [] => (.error .notFound, t)
  | p :: above =>
    if p.chars.isEmpty then (.ok (), t)
    else
      match t.makeDirectory p with
      | .ok made => (.ok (), made)
      | .error .notFound =>
        match t.makeChain above with
        | (.error fault, t) => (.error fault, t)
        | (.ok (), t) =>
          match t.makeDirectory p with
          | .ok made => (.ok (), made)
          | .error fault => (if t.isDirectory p then .ok () else .error fault, t)
      | .error fault => (if t.isDirectory p then .ok () else .error fault, t)

def makeDirectories (t : FileTree) (p : Path) : Except Fault Unit × FileTree :=
  t.makeChain (p :: p.parents)

def list (t : FileTree) (p : Path) : Except Fault (List String) := do
  match ← t.find p with
  | (_, .file ..) => .error .notDirectory
  | (place, .directory) =>
    .ok (t.nodes.keys.filterMap fun other =>
      if other.length = place.length + 1 && place.isPrefixOf other then other.getLast? else none)

def erase (t : FileTree) (place : Place) : FileTree :=
  { t with nodes := t.nodes.filter fun other _ => !place.isPrefixOf other }

def remove (t : FileTree) (p : Path) : FileTree :=
  match t.find p with
  | .ok (place, _) => t.erase place
  | .error _ => t

end FileTree

end RelayKeeper
