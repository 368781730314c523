import RelayKeeper.Files.Path
import RelayKeeper.Host.Command

/-!
# Calls to the host

What provisioning asks of the machine: packages, accounts, the service supervisor, the container
runtime, files and scripts. Each call has its own type of reply.
-/

namespace RelayKeeper.Host

inductive Call where
  | refreshIndex
  | installPackage (package : String)
  | ensureGroup (group : String)
  | addToGroup (user group : String)
  | reloadSupervisor
  | enableUnit (unit : String)
  | restartUnit (unit : String)
  | queryStatus (unit : String)
  | pruneContainers
  | createDirectories (path : Path)
  | writeFile (path : Path) (contents : String) (mode : Nat)
  | changeOwner (path : Path) (user group : String)
  | runScript (path : Path)
  deriving DecidableEq, Repr

abbrev Call.Reply : Call → Type
  | .refreshIndex => Except PackageError Unit
  | .installPackage _ => Except PackageError Unit
  | .ensureGroup _ => Except CommandError Unit
  | .addToGroup .. => Except CommandError Unit
  | .reloadSupervisor => Except CommandError Unit
  | .enableUnit _ => Except CommandError Unit
  | .restartUnit _ => Except CommandError Unit
  | .queryStatus _ => Except CommandError CommandOutput
  | .pruneContainers => Except CommandError Unit
  | .createDirectories _ => Except Fault Unit
  | .writeFile .. => Except Fault Unit
  | .changeOwner .. => Except CommandError Unit
  | .runScript _ => Except CommandError CommandOutput

def quietSuccess : CommandOutput := ⟨some 0, "", ""⟩

def Call.success : (call : Call) → call.Reply
  | .refreshIndex => .ok ()
  | .installPackage _ => .ok ()
  | .ensureGroup _ => .ok ()
  | .addToGroup .. => .ok ()
  | .reloadSupervisor => .ok ()
  | .enableUnit _ => .ok ()
  | .restartUnit _ => .ok ()
  | .queryStatus _ => .ok quietSuccess
  | .pruneContainers => .ok ()
  | .createDirectories _ => .ok ()
  | .writeFile .. => .ok ()
  | .changeOwner .. => .ok ()
  | .runScript _ => .ok quietSuccess

end RelayKeeper.Host
