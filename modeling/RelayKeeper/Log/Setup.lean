import RelayKeeper.Files.Tree
import RelayKeeper.Files.UserDirectories
import RelayKeeper.Log.Filter

/-!
# Where the log goes

The log goes to standard output, or to a file in the user's log directory. If that file cannot be
opened a warning is given and standard output takes its place. The variable `RUST_LOG` refines what is
logged.
-/

namespace RelayKeeper.Log

inductive Setup where
  /-- To standard output. -/
  | standard
  /-- To standard output, with one component telling more than the others. -/
  | focused (component : String)
  /-- To the log file of an application. -/
  | file (app : String)
  deriving DecidableEq, Repr

inductive Sink where
  | standardOutput
  | file (path : Path)
  deriving DecidableEq, Repr

structure Writer where
  sink : Sink
  filter : Filter
  warnings : List String
  deriving DecidableEq, Repr

def filterVariable : String := "RUST_LOG"

def filePath (env : Lookup) (app : String) : Path :=
  (env.logDirectory app).join (app ++ ".log")

def openFile (env : Lookup) (app : String) (t : FileTree) : Except Fault Unit × FileTree :=
  match t.makeDirectories (env.logDirectory app) with
  | (.error fault, t) => (.error fault, t)
  | (.ok (), t) =>
    match t.append (filePath env app) ByteArray.empty with
    | .error fault => (.error fault, t)
    | .ok t => (.ok (), t)

def fileWarning (fault : Fault) : String :=
  s!"Warning: failed to set up file logging: {fault.message}"

def Setup.start (setup : Setup) (env : Lookup) (t : FileTree) : Writer × FileTree :=
  let text := (env filterVariable).getD ""
  match setup with
  | .standard => (⟨.standardOutput, .general text, []⟩, t)
  | .focused component => (⟨.standardOutput, .focused text component, []⟩, t)
  | .file app =>
    match openFile env app t with
    | (.ok (), t) => (⟨.file (filePath env app), .general text, []⟩, t)
    | (.error fault, t) => (⟨.standardOutput, .general text, [fileWarning fault]⟩, t)

def line (e : Entry) : String :=
  e.level.name ++ " " ++ e.component ++ ": " ++ e.message ++ "\n"

/-- Writes the entries that pass the filter; those for standard output are given back. -/
def Writer.write (writer : Writer) (entries : List Entry) (t : FileTree) : List Entry × FileTree :=
  let passed := entries.filter (writer.filter.allows ·)
  match writer.sink with
  | .standardOutput => (passed, t)
  | .file path => ([], (t.append path (String.join (passed.map line)).toUTF8).toOption.getD t)

end RelayKeeper.Log
