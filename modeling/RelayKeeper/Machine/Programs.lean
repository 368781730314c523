import RelayKeeper.Host.Command
import RelayKeeper.Log.Entry
import RelayKeeper.Rehearsal.Checks
import RelayKeeper.Rehearsal.Worktree
import RelayKeeper.Text.Utf8

/-!
# Programs

A machine with files and programs. What a program does is given by rules: the first rule whose words
start the command line gives its next reaction, the last of which repeats, and a command line without
a rule ends well and says nothing. Programs are known by name, scripts by the path of their file.
-/

namespace RelayKeeper

namespace Machine

/-- The end of a run: output as bytes, no code if a signal ended it, and files it left. -/
structure Reaction where
  code : Option Int := some 0
  stdout : List UInt8 := []
  stderr : List UInt8 := []
  files : List (Path × Option ByteArray) := []

structure Rule where
  words : List String
  /-- The reactions that are still to come. -/
  reactions : List Reaction

structure Run where
  /-- Whether the run was told not to ask questions. -/
  noninteractive : Bool
  words : List String
  deriving DecidableEq, Repr

end Machine

structure Machine where
  files : FileTree
  rules : List Machine.Rule := []
  /-- The programs that are found by name. -/
  programs : List String := []
  missing : List String := []
  notExecutable : List String := []
  /-- The name under which rules know every script; without one it is that of the script's file. -/
  scriptName : Option String := none
  runs : List Machine.Run := []
  log : List Log.Entry := []

namespace Machine

abbrev Work (ε : Type) := ExceptT ε (StateM Machine)

def usualPrograms : List String :=
  ["apt-get", "dpkg-query", "getent", "groupadd", "usermod", "systemctl", "docker", "chown"]

def react (words : List String) : List Rule → Reaction × List Rule
  | [] => ({}, [])
  | rule :: rules =>
    if rule.words.isPrefixOf words then
      let (reaction, rest) := Rehearsal.takeNext rule.reactions
      (reaction.getD {}, { rule with reactions := rest } :: rules)
    else
      let (reaction, rest) := react words rules
      (reaction, rule :: rest)

def isExecutable (mode : Nat) : Bool :=
  mode / 64 % 2 = 1

/-- The name that rules know a script by, if it can be run. -/
def findScript (m : Machine) (path : Path) : Except Fault String := do
  match ← m.files.find path with
  | (_, .directory) => .error .permissionDenied
  | (place, .file _ mode) =>
    if isExecutable mode then .ok (m.scriptName.getD (place.getLastD ""))
    else .error .permissionDenied

def findProgram (m : Machine) (program : String) : Except Fault String := do
  let name ←
    if program.toList.contains '/' then m.findScript ⟨program⟩
    else if m.programs.contains program then .ok program
    else .error .notFound
  if m.missing.contains name then .error .notFound
  else if m.notExecutable.contains name then .error .permissionDenied
  else .ok name

def note (level : Log.Level) (component message : String) : Work ε Unit := fun m =>
  (.ok (), { m with log := m.log ++ [⟨level, component, message, none⟩] })

def start (program : String) (arguments : List String) (noninteractive : Bool) : Work Fault Reaction :=
  fun m =>
    if (program :: arguments).any (·.toList.contains '\x00') then (.error .nulInCommand, m)
    else
      match m.findProgram program with
      | .error fault => (.error fault, m)
      | .ok name =>
        let (reaction, rules) := react (name :: arguments) m.rules
        let files := reaction.files.foldl (fun t (path, content) => t.provide path content) m.files
        (.ok reaction,
          { m with
            files := files
            rules := rules
            runs := m.runs ++ [⟨noninteractive, name :: arguments⟩] })

def outputText (bytes : List UInt8) : String :=
  String.ofList (Text.decode bytes)

def run (program : String) (arguments : List String) (noninteractive : Bool) :
    Work Host.CommandError Host.CommandOutput := do
  note .debug "tmate_operator::host::command" "Running command"
  let reaction ← (start program arguments noninteractive).adapt (.spawn program)
  return ⟨reaction.code, outputText reaction.stdout, outputText reaction.stderr⟩

def runChecked (program : String) (arguments : List String) :
    Work Host.CommandError Host.CommandOutput := do
  let output ← run program arguments false
  ExceptT.mk (pure (output.check program))

end Machine

end RelayKeeper
