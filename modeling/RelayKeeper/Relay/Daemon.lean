import RelayKeeper.Config.Settings
import RelayKeeper.Document.ServiceUnit
import RelayKeeper.Net.Address
import RelayKeeper.Time.Poll

/-!
# The relay's daemon

Starting the daemon writes its unit file, restarts the unit and waits until the supervisor says that
it runs. A status query that ends with code 0 means that it runs and one with code 3 that it does
not; after any other end nothing is known.
-/

namespace RelayKeeper.Relay

inductive DaemonError where
  | writeUnit (path : Path) (cause : Fault)
  | reload (cause : Host.CommandError)
  | enable (unit : String) (cause : Host.CommandError)
  | start (unit : String) (cause : Host.CommandError)
  | timedOut (timeout : Duration)
  /-- A status query ended in a way that says nothing about the unit. -/
  | statusCheck (unit : String) (code : Option Int)
  | statusCommand (unit : String) (cause : Host.CommandError)
  deriving DecidableEq, Repr

def describeExit : Option Int → String
  | some code => s!"exit code {code}"
  | none => "terminated by signal"

namespace DaemonError

def message : DaemonError → String
  | .writeUnit path cause => s!"failed to write unit file {path.text}: {cause.message}"
  | .reload cause => s!"failed to start: {cause.message}"
  | .enable unit cause => s!"failed to enable {unit}: {cause.message}"
  | .start unit cause => s!"failed to start {unit}: {cause.message}"
  | .timedOut timeout => s!"timed out waiting for service to start after {timeout.text}"
  | .statusCheck unit code => s!"failed to check status of {unit}: {describeExit code}"
  | .statusCommand unit cause => s!"failed to check status of {unit}: {cause.message}"

def causes : DaemonError → List String
  | .writeUnit _ cause => [cause.message]
  | .reload cause => cause.message :: cause.causes
  | .enable _ cause => cause.message :: cause.causes
  | .start _ cause => cause.message :: cause.causes
  | .timedOut _ => []
  | .statusCheck .. => []
  | .statusCommand _ cause => cause.message :: cause.causes

end DaemonError

def pruneMessage (cause : Host.CommandError) : String :=
  s!"failed to remove stopped containers: {cause.message}"

structure DaemonStatus where
  running : Bool
  text : String
  deriving DecidableEq, Repr

def inactiveCode : Int := 3

def DaemonStatus.of? (output : Host.CommandOutput) : Option DaemonStatus :=
  if output.code = some 0 then some ⟨true, output.stdout⟩
  else if output.code = some inactiveCode then some ⟨false, output.stdout⟩
  else none

def unitFileMode : Nat := 0o644

def daemonComponent : String := "tmate_operator::daemon"

def serviceUnit (settings : Settings) (address : Net.Address) : Document.ServiceUnit :=
  ⟨settings.serviceName, settings.image, settings.workDir, settings.keysPath, settings.port,
    address.text⟩

variable {ω : Type} (site : Site ω) (settings : Settings)

def writeUnit (address : Net.Address) : Hook ω DaemonError Unit := do
  Hook.require (.writeUnit settings.unitPath)
    (← Hook.host site
      (.writeFile settings.unitPath (serviceUnit settings address).render unitFileMode))
  Hook.log .debug daemonComponent "Wrote unit file"

def daemonStatus : Hook ω DaemonError DaemonStatus := do
  let unit := settings.serviceName
  let output ← Hook.require (.statusCommand unit) (← Hook.host site (.queryStatus unit))
  match DaemonStatus.of? output with
  | some status => return status
  | none =>
    Hook.log .error daemonComponent "Status check failed"
    Hook.fail (.statusCheck unit output.code)

def isRunning : Hook ω DaemonError Bool := do
  return (← daemonStatus site settings).running

def startDaemon (address : Net.Address) : Hook ω DaemonError Unit := do
  let unit := settings.serviceName
  writeUnit site settings address
  Hook.require .reload (← Hook.host site .reloadSupervisor)
  Hook.require (.enable unit) (← Hook.host site (.enableUnit unit))
  Hook.require (.start unit) (← Hook.host site (.restartUnit unit))
  Hook.log .info daemonComponent "Started daemon, waiting for it to run"
  match ← Hook.poll (isRunning site settings) settings.startupTimeout settings.checkInterval with
  | .met => Hook.log .info daemonComponent "Daemon is running"
  | .timedOut timeout => Hook.fail (.timedOut timeout)

def removeStoppedContainers : Hook ω Host.CommandError Unit := do
  Hook.require id (← Hook.host site .pruneContainers)

end RelayKeeper.Relay
