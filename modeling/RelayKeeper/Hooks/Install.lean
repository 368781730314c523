import RelayKeeper.Hooks.Outcome

/-!
# The install hook

Dependencies, keys and daemon, in this order; then the port is opened, the consumers are told and the
unit becomes active. Without an address there is nothing to do yet.
-/

namespace RelayKeeper.Hooks

variable {ω : Type} (site : Site ω) (settings : Settings)

def install (state : Provision.State) : Hook ω HookError Outcome := do
  match state.address with
  | none =>
    Hook.log .warn component "Bind address not ready, deferring install"
    return .deferred Query.addressNotReady
  | some address =>
    enterMaintenance site "Installing packages."
    Hook.onFailure component "Failed to install dependencies" <|
      Hook.mapError .dependencies (Relay.installDependencies site settings state.proxy)
    enterMaintenance site "Generating keys."
    Hook.onFailure component "Failed to generate keys" <|
      Hook.mapError .keys (Relay.installKeys site settings address)
    enterMaintenance site "Starting tmate-ssh-server daemon."
    Hook.onFailure component "Failed to start daemon" <|
      Hook.mapError .daemon (Relay.startDaemon site settings address)
    Hook.require .record (← Hook.record site (.openPort settings.port))
    publishIfReady site settings address
    setStatus site .active
    Hook.log .info component "Install complete"
    return .completed

end RelayKeeper.Hooks
