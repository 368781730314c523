import RelayKeeper.Relay.Daemon

/-!
# Reconciliation

A daemon that is known not to run is started again, and only then. Containers that stopped are
cleaned up afterwards; that this fails does not matter.
-/

namespace RelayKeeper.Relay

inductive Reconciled where
  | unbound
  | running
  | restarted
  deriving DecidableEq, Repr

def reconcileComponent : String := "tmate_operator::reconcile"

variable {ω : Type} (site : Site ω) (settings : Settings)

def reconcile : Option Net.Address → Hook ω DaemonError Reconciled
  | none => do
    Hook.log .debug reconcileComponent "No bound address, skipping reconciliation"
    return .unbound
  | some address => do
    if (← daemonStatus site settings).running then return .running
    Hook.log .warn reconcileComponent "Daemon not running, restarting"
    startDaemon site settings address
    match ← Hook.attempt (removeStoppedContainers site) with
    | .ok _ => return .restarted
    | .error _ =>
      Hook.log .error reconcileComponent "Failed to clean up stopped containers"
      return .restarted

end RelayKeeper.Relay
