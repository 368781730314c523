/-!
# Log entries
-/

namespace RelayKeeper.Log

inductive Level where
  | error
  | warn
  | info
  | debug
  | trace
  deriving DecidableEq, Repr, Inhabited

/-- The rank of a level; a filter of a rank lets smaller ranks pass. -/
def Level.rank : Level → Nat
  | .error => 1
  | .warn => 2
  | .info => 3
  | .debug => 4
  | .trace => 5

def Level.name : Level → String
  | .error => "ERROR"
  | .warn => "WARN"
  | .info => "INFO"
  | .debug => "DEBUG"
  | .trace => "TRACE"

structure Entry where
  level : Level
  component : String
  message : String
  /-- The consumer that it is about. -/
  consumer : Option String
  deriving DecidableEq, Repr

def Entry.text (e : Entry) : String :=
  e.level.name ++ " " ++ e.message

end RelayKeeper.Log
