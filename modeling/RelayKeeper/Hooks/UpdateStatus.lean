import RelayKeeper.Hooks.Outcome

/-!
# The update-status hook

Reconciles the daemon and says how the unit is. Without an address the unit waits.
-/

namespace RelayKeeper.Hooks

variable {ω : Type} (site : Site ω) (settings : Settings)

def updateStatus (state : Provision.State) : Hook ω HookError Outcome := do
  let reconciled ← Hook.onFailure component "Reconciliation failed" <|
    Hook.mapError .daemon (Relay.reconcile site settings state.address)
  match state.address with
  | none =>
    setStatus site (.waiting Query.addressNotReady)
    return .completed
  | some address =>
    if reconciled = .restarted then Hook.log .info component "Daemon recovered"
    publishIfReady site settings address
    setStatus site .active
    return .completed

end RelayKeeper.Hooks
