import RelayKeeper.Files.Tree
import RelayKeeper.Host.Session
import RelayKeeper.Json.Printer
import RelayKeeper.Json.Reader
import RelayKeeper.Record.Written

/-!
# The record on disk

The unit's record as files below a root: `status.json`, `ports.json` and one file for each consumer
in `relations`. What is absent reads as nothing; what cannot be read is an error and stays as it is.
An id names a file, so it must not lead anywhere else.
-/

namespace RelayKeeper.Record

structure Store where
  root : Path
  deriving DecidableEq, Repr

namespace Store

abbrev Outcome (α : Type) := Except StoreError α × FileTree

def statusPath (s : Store) : Path :=
  s.root.join "status.json"

def portsPath (s : Store) : Path :=
  s.root.join "ports.json"

def relationsPath (s : Store) : Path :=
  s.root.join "relations"

def isValidId (id : String) : Bool :=
  let cs := id.toList
  !cs.isEmpty && !cs.contains '/' && !cs.contains '\\' && !cs.contains '\x00' &&
    !Text.contains cs ['.', '.']

def bagPath (s : Store) (id : String) : Except StoreError Path :=
  if isValidId id then .ok (s.relationsPath.join (id ++ ".json")) else .error (.invalidId id)

def readJson (decode : Json → Option α) (path : Path) (t : FileTree) :
    Except StoreError (Option α) :=
  match t.readText path with
  | .ok text =>
    match (Json.parse? text.toList).bind decode with
    | some value => .ok (some value)
    | none => .error (.malformed path)
  | .error .notFound => .ok none
  | .error fault => .error (.io path fault)

def makeParent (path : Path) (t : FileTree) : Outcome Unit :=
  match path.parent? with
  | none => (.ok (), t)
  | some parent => ((t.makeDirectories parent).1.mapError (.io path), (t.makeDirectories parent).2)

def writeJson (path : Path) (value : Json) (t : FileTree) : Outcome Unit :=
  match makeParent path t with
  | (.error error, t) => (.error error, t)
  | (.ok (), t) =>
    match t.writeText path (String.ofList value.pretty) with
    | .ok t => (.ok (), t)
    | .error fault => (.error (.io path fault), t)

def status (s : Store) (t : FileTree) : Except StoreError (Option Status) :=
  readJson Status.ofJson? s.statusPath t

def setStatus (s : Store) (status : Status) (t : FileTree) : Outcome Unit :=
  writeJson s.statusPath status.toJson t

def openedPorts (s : Store) (t : FileTree) : Except StoreError Ports :=
  (readJson Ports.ofJson? s.portsPath t).map (·.getD ∅)

/-- Adds a port; the file is written only if the port is new. -/
def openPort (s : Store) (port : UInt16) (t : FileTree) : Outcome Unit :=
  match s.openedPorts t with
  | .error error => (.error error, t)
  | .ok ports =>
    if port ∈ ports then (.ok (), t) else writeJson s.portsPath (Ports.toJson (ports.insert port)) t

/-- The id of a file name that ends in `.json` after at least one character. -/
def idOfName? (name : String) : Option String :=
  let cs := name.toList
  let stem := cs.take (cs.length - 5)
  if !stem.isEmpty && cs.drop (cs.length - 5) = ".json".toList then some (String.ofList stem)
  else none

def idsOfNames (names : List String) : List String :=
  (names.filterMap idOfName?).mergeSort

def relations (s : Store) (t : FileTree) : Except StoreError (List String) :=
  match t.list s.relationsPath with
  | .ok names => .ok (idsOfNames names)
  | .error .notFound => .ok []
  | .error fault => .error (.io s.relationsPath fault)

/-- The bag of a consumer, empty if there is none. -/
def relationData (s : Store) (id : String) (t : FileTree) : Except StoreError Bag := do
  let path ← s.bagPath id
  (readJson Bag.ofJson? path t).map (·.getD ∅)

/-- Adds a consumer with an empty bag, unless its file is there. -/
def joinRelation (s : Store) (id : String) (t : FileTree) : Outcome Unit :=
  match s.bagPath id with
  | .error error => (.error error, t)
  | .ok path => if t.contains path then (.ok (), t) else writeJson path (Bag.toJson ∅) t

def updateRelation (s : Store) (id : String) (data : Bag) (t : FileTree) : Outcome Unit :=
  match s.bagPath id with
  | .error error => (.error error, t)
  | .ok path =>
    match readJson Bag.ofJson? path t with
    | .error error => (.error error, t)
    | .ok bag => writeJson path (Bag.toJson ((bag.getD ∅).overlay data)) t

def component : String := "tmate_operator::model"

def remark (message : String) : Log.Entry :=
  ⟨.info, component, message, none⟩

def remarkJoined (id : String) : Log.Entry :=
  ⟨.info, component, "Consumer joined", some id⟩

def answer (s : Store) : (call : Call) → FileTree → Turn call.Reply FileTree
  | .setStatus status, t =>
    let (reply, after) := s.setStatus status t
    ⟨reply, after, [remark "Unit status"]⟩
  | .openPort port, t =>
    let (reply, after) := s.openPort port t
    let isNew := match s.openedPorts t with
      | .ok ports => !ports.contains port
      | .error _ => false
    ⟨reply, after, if reply.isOk && isNew then [remark "Opened port"] else []⟩
  | .relations, t => ⟨s.relations t, t, []⟩
  | .updateRelation id data, t =>
    let (reply, after) := s.updateRelation id data t
    ⟨reply, after, []⟩

/-- A site where the record is on disk and everything asked of the host succeeds. -/
def site (s : Store) : Site FileTree where
  host call t := ⟨call.success, t, []⟩
  record call t := s.answer call t
  files t := t

def join (s : Store) (id : String) (t : FileTree) : Turn (Except StoreError Unit) FileTree :=
  let (reply, after) := s.joinRelation id t
  let isNew := match s.bagPath id with
    | .ok path => !t.contains path
    | .error _ => false
  ⟨reply, after, if reply.isOk && isNew then [remarkJoined id] else []⟩

end Store

end RelayKeeper.Record
