/-!
# The status of the unit
-/

namespace RelayKeeper.Record

inductive Status where
  | maintenance (message : String)
  | active
  | blocked (message : String)
  | waiting (message : String)
  deriving DecidableEq, Repr

namespace Status

def state : Status → String
  | .maintenance _ => "maintenance"
  | .active => "active"
  | .blocked _ => "blocked"
  | .waiting _ => "waiting"

def message? : Status → Option String
  | .maintenance message => some message
  | .active => none
  | .blocked message => some message
  | .waiting message => some message

/-- The status of a state and a message; `none` for an unknown state, and unless a message is given
exactly to the states that have one. -/
def ofParts? (state : String) (message : Option String) : Option Status :=
  match state, message with
  | "maintenance", some m => some (.maintenance m)
  | "active", none => some .active
  | "blocked", some m => some (.blocked m)
  | "waiting", some m => some (.waiting m)
  | _, _ => none

end Status

end RelayKeeper.Record
