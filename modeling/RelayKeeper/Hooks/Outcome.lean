import RelayKeeper.Query.ServerConfig
import RelayKeeper.Relay.Announce
import RelayKeeper.Relay.Dependencies
import RelayKeeper.Relay.Keys
import RelayKeeper.Relay.Reconcile

/-!
# Hooks: outcomes and errors

A hook completes, or puts its work off until something that is missing is there, or fails in one of
its parts.
-/

namespace RelayKeeper.Hooks

inductive Outcome where
  | completed
  | deferred (reason : String)
  deriving DecidableEq, Repr

inductive HookError where
  | dependencies (cause : Relay.DependencyError)
  | keys (cause : Relay.KeyInstallError)
  | daemon (cause : Relay.DaemonError)
  | key (cause : Key.KeyError)
  | record (cause : Record.StoreError)
  deriving DecidableEq, Repr

namespace HookError

def message : HookError → String
  | .dependencies cause => cause.message
  | .keys cause => cause.message
  | .daemon cause => cause.message
  | .key cause => cause.message
  | .record cause => cause.message

def causes : HookError → List String
  | .dependencies cause => cause.causes
  | .keys cause => cause.causes
  | .daemon cause => cause.causes
  | .key cause => cause.causes
  | .record cause => cause.causes

end HookError

def component : String := "tmate_operator::lifecycle"

variable {ω : Type} (site : Site ω) (settings : Settings)

def setStatus (status : Record.Status) : Hook ω HookError Unit := do
  Hook.require .record (← Hook.record site (.setStatus status))

def enterMaintenance (message : String) : Hook ω HookError Unit := do
  Hook.log .info component message
  setStatus site (.maintenance message)

/-- Publishes the connection details if the keys are ready. Nothing that goes wrong here is a
failure of the hook. -/
def publishIfReady (address : Net.Address) : Hook ω HookError Unit := do
  match Relay.fingerprints settings (← Hook.files site) with
  | .ok (.ready fingerprints) =>
    let _ ← Relay.publish site (.of address settings.port fingerprints)
  | .ok (.notReady _) =>
    Hook.log .warn component "Keys not ready, publishing on a later trigger"
  | .error _ =>
    Hook.log .error component "Failed to read fingerprints, not publishing"

end RelayKeeper.Hooks
