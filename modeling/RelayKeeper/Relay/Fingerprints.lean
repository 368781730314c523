import RelayKeeper.Config.Settings

/-!
# The relay's fingerprints
-/

namespace RelayKeeper.Relay

inductive FingerprintError where
  | notInitialized (missing : Key.Missing)
  | key (cause : Key.KeyError)
  deriving DecidableEq, Repr

namespace FingerprintError

def causeMessage : FingerprintError → String
  | .notInitialized missing => missing.message
  | .key cause => cause.message

def message (e : FingerprintError) : String :=
  s!"failed to generate fingerprints: {e.causeMessage}"

end FingerprintError

def fingerprints (settings : Settings) (files : FileTree) : Except Key.KeyError Key.Readiness :=
  settings.keyMaterial.fingerprints files

def requireFingerprints (settings : Settings) (files : FileTree) :
    Except FingerprintError Key.Fingerprints :=
  match fingerprints settings files with
  | .ok (.ready fingerprints) => .ok fingerprints
  | .ok (.notReady missing) => .error (.notInitialized missing)
  | .error cause => .error (.key cause)

end RelayKeeper.Relay
