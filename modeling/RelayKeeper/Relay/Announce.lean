import RelayKeeper.Host.Session
import RelayKeeper.Record.Profile
import RelayKeeper.Relay.Fingerprints

/-!
# Telling the consumers

`publish` puts a profile into the bag of every consumer. A consumer whose bag cannot be changed is
logged and passed over; nothing of this is a failure.
-/

namespace RelayKeeper.Relay

def publishComponent : String := "tmate_operator::publish"

def notTold (id : String) : Log.Entry :=
  ⟨.error, publishComponent, "Failed to publish to consumer", some id⟩

variable {ω ε : Type} (site : Site ω)

def updateAll (data : Record.Bag) : List String → Hook ω ε Nat
  | [] => pure 0
  | id :: ids => do
    match ← Hook.record site (.updateRelation id data) with
    | .ok _ => return (← updateAll data ids) + 1
    | .error _ =>
      Hook.logAll [notTold id]
      updateAll data ids

def publish (profile : Record.Profile) : Hook ω ε Nat := do
  match ← Hook.record site .relations with
  | .error _ =>
    Hook.log .error publishComponent "Failed to list consumers, not publishing"
    return 0
  | .ok [] =>
    Hook.log .warn publishComponent "No consumers to publish connection details to"
    return 0
  | .ok ids =>
    let published ← updateAll site profile.bag ids
    Hook.log .info publishComponent "Published connection details"
    return published

end RelayKeeper.Relay
