import RelayKeeper.Hooks.Outcome

/-!
# The consumer-joined hook

Tells the consumers where the relay is, as soon as there is an address and the keys are ready.
-/

namespace RelayKeeper.Hooks

variable {ω : Type} (site : Site ω) (settings : Settings)

def consumerJoined (state : Provision.State) : Hook ω HookError Outcome := do
  match state.address with
  | none =>
    Hook.log .warn component "Bind address not ready, deferring consumer"
    return .deferred Query.addressNotReady
  | some address =>
    match Relay.fingerprints settings (← Hook.files site) with
    | .error cause =>
      Hook.log .error component "Error generating fingerprints"
      Hook.fail (.key cause)
    | .ok (.ready fingerprints) =>
      let _ ← Relay.publish site (.of address settings.port fingerprints)
      return .completed
    | .ok (.notReady missing) =>
      Hook.log .warn component "tmate keys not yet fully initialized, deferring"
      return .deferred missing.message

end RelayKeeper.Hooks
