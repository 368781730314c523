import RelayKeeper.Host.Call
import RelayKeeper.Host.Session
import RelayKeeper.Machine.Programs

/-!
# Calls carried out

How a machine carries out each call to the host: by programs and file operations.
-/

namespace RelayKeeper.Machine

open Host (CommandError CommandOutput PackageError)

def systemComponent : String := "tmate_operator::host::system"

def refreshIndex : Work PackageError Unit :=
  ExceptT.adapt .update do
    let output ← Machine.run "apt-get" ["update", "-q"] true
    let _ ← ExceptT.mk (pure (output.check "apt-get"))

def installedText : String := "install ok installed"

def isInstalled (output : CommandOutput) : Bool :=
  output.succeeded && Text.contains output.stdout.toList installedText.toList

def unknownPackageTexts : List String :=
  ["Unable to locate package", "has no installation candidate"]

def isUnknownPackage (output : CommandOutput) : Bool :=
  !output.succeeded &&
    unknownPackageTexts.any fun text => Text.contains output.stderr.toList text.toList

/-- Whether a package is installed; not, if the package database cannot be asked. -/
def queryInstalled (package : String) : Work PackageError Bool := fun m =>
  match Machine.run "dpkg-query" ["-W", "-f=$\x7bStatus\x7d", package] false m with
  | (.ok output, m) => (.ok (isInstalled output), m)
  | (.error _, m) => (.ok false, m)

/-- The arguments with which a package is installed; existing configuration files are kept. -/
def installArguments (package : String) : List String :=
  ["install", "-y", "-q", "--option=Dpkg::Options::=--force-confold", package]

def installPackage (package : String) : Work PackageError Unit := do
  if ← queryInstalled package then
    Machine.note .debug systemComponent "Package already installed"
  else
    let output ← (Machine.run "apt-get" (installArguments package) true).adapt
      (.installation package)
    if isUnknownPackage output then
      throw (.notFound package)
    let _ ← ExceptT.mk (pure ((output.check "apt-get").mapError (.installation package)))
    Machine.note .info systemComponent "Installed package"

def ensureGroup (group : String) : Work CommandError Unit := do
  if (← Machine.run "getent" ["group", group] false).succeeded then return
  let _ ← Machine.runChecked "groupadd" ["--system", group]
  Machine.note .info systemComponent "Created group"

def perform (program : String) (arguments : List String) : Work CommandError Unit := do
  let _ ← Machine.runChecked program arguments

def pruneContainers : Work CommandError Unit := do
  let _ ← Machine.runChecked "docker" ["container", "prune", "--force"]
  Machine.note .debug systemComponent "Pruned stopped containers"

def isWritable (mode : Nat) : Bool :=
  mode / 128 % 2 = 1

def checkWritable (t : FileTree) (path : Path) : Except Fault Unit :=
  match t.find path with
  | .ok (_, .file _ mode) => if isWritable mode then .ok () else .error .permissionDenied
  | _ => .ok ()

def writeFile (path : Path) (contents : String) (mode : Nat) (t : FileTree) :
    Except Fault Unit × FileTree :=
  match (do checkWritable t path; t.writeText path contents) with
  | .error fault => (.error fault, t)
  | .ok written =>
    match written.setMode path mode with
    | .error fault => (.error fault, written)
    | .ok t => (.ok (), t)

def onFiles (f : FileTree → Except Fault Unit × FileTree) : Work Fault Unit := fun m =>
  ((f m.files).1, { m with files := (f m.files).2 })

def carryOut : (call : Host.Call) → StateM Machine call.Reply
  | .refreshIndex => refreshIndex.run
  | .installPackage package => (installPackage package).run
  | .ensureGroup group => (ensureGroup group).run
  | .addToGroup user group => (perform "usermod" ["--append", "--groups", group, user]).run
  | .reloadSupervisor => (perform "systemctl" ["daemon-reload"]).run
  | .enableUnit unit => (perform "systemctl" ["enable", unit]).run
  | .restartUnit unit => (perform "systemctl" ["restart", unit]).run
  | .queryStatus unit => (Machine.run "systemctl" ["status", "--no-pager", unit] false).run
  | .pruneContainers => pruneContainers.run
  | .createDirectories path => (onFiles (·.makeDirectories path)).run
  | .writeFile path contents mode => (onFiles (writeFile path contents mode)).run
  | .changeOwner path user group => (perform "chown" [user ++ ":" ++ group, path.text]).run
  | .runScript path => (Machine.runChecked path.text []).run

def answer (call : Host.Call) (m : Machine) : Turn call.Reply Machine :=
  let (reply, after) := carryOut call { m with log := [] }
  ⟨reply, { after with log := [] }, after.log⟩

end RelayKeeper.Machine
