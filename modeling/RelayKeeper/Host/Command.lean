import RelayKeeper.Files.Fault
import RelayKeeper.Text.Blank

/-!
# Commands and their failures

What running a program gives, and what can go wrong. Each failure has a message and the messages of
its causes, the nearest first; a message includes that of the nearest cause.
-/

namespace RelayKeeper.Host

/-- The end of a program's run; one that a signal ended has no exit code. -/
structure CommandOutput where
  code : Option Int
  stdout : String
  stderr : String
  deriving DecidableEq, Repr, Inhabited

def CommandOutput.succeeded (o : CommandOutput) : Bool :=
  o.code = some 0

inductive CommandError where
  /-- The program did not start. -/
  | spawn (program : String) (cause : Fault)
  | failed (program : String) (code : Option Int) (stderr : String)
  deriving DecidableEq, Repr

def codeText : Option Int → String
  | some code => s!"Some({code})"
  | none => "None"

namespace CommandError

def message : CommandError → String
  | .spawn program cause => s!"failed to run {program}: {cause.message}"
  | .failed program code stderr => s!"{program} exited with {codeText code}: {stderr}"

def causes : CommandError → List String
  | .spawn _ cause => [cause.message]
  | .failed .. => []

end CommandError

def CommandOutput.check (program : String) (o : CommandOutput) : Except CommandError CommandOutput :=
  if o.succeeded then .ok o else .error (.failed program o.code (Text.trim o.stderr))

inductive PackageError where
  | notFound (package : String)
  | installation (package : String) (cause : CommandError)
  | update (cause : CommandError)
  deriving DecidableEq, Repr

namespace PackageError

def message : PackageError → String
  | .notFound package => s!"package {package} not found"
  | .installation package cause => s!"package error for {package}: {cause.message}"
  | .update cause => s!"failed to update package index: {cause.message}"

def causes : PackageError → List String
  | .notFound _ => []
  | .installation _ cause => cause.message :: cause.causes
  | .update cause => cause.message :: cause.causes

end PackageError

end RelayKeeper.Host
