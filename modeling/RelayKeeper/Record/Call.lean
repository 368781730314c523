import Std.Data.ExtTreeMap
import RelayKeeper.Files.Fault
import RelayKeeper.Files.Path
import RelayKeeper.Record.Status

/-!
# Calls to the unit's record

The record holds the unit's status, its opened ports and one data bag for each consumer. Hooks reach
it by four calls.
-/

namespace RelayKeeper.Record

abbrev Bag := Std.ExtTreeMap String String

def Bag.overlay (bag data : Bag) : Bag :=
  bag ∪ data

inductive StoreError where
  | io (path : Path) (cause : Fault)
  /-- The file does not hold what it should. -/
  | malformed (path : Path)
  | invalidId (id : String)
  deriving DecidableEq, Repr

namespace StoreError

/-- The message; of a malformed file it names the file, and says no more. -/
def message : StoreError → String
  | .io path cause => s!"unit state I/O error at {path.text}: {cause.message}"
  | .malformed path => s!"invalid unit state in {path.text}"
  | .invalidId id => s!"invalid relation id '{id}'"

def causes : StoreError → List String
  | .io _ cause => [cause.message]
  | _ => []

end StoreError

inductive Call where
  | setStatus (status : Status)
  | openPort (port : UInt16)
  | relations
  | updateRelation (id : String) (data : Bag)
  deriving DecidableEq

abbrev Call.Reply : Call → Type
  | .setStatus _ => Except StoreError Unit
  | .openPort _ => Except StoreError Unit
  | .relations => Except StoreError (List String)
  | .updateRelation .. => Except StoreError Unit

end RelayKeeper.Record
