import RelayKeeper.Config.Settings
import RelayKeeper.Document.KeyScript
import RelayKeeper.Host.Session
import RelayKeeper.Net.Address

/-!
# Making the host keys

The key script is written where the settings want it, handed to the relay's user, and run.
-/

namespace RelayKeeper.Relay

inductive KeyInstallError where
  | writeScript (path : Path) (cause : Fault)
  | ownership (path : Path) (cause : Host.CommandError)
  | generate (cause : Host.CommandError)
  deriving DecidableEq, Repr

namespace KeyInstallError

def message : KeyInstallError → String
  | .writeScript path cause => s!"failed to write key script {path.text}: {cause.message}"
  | .ownership path cause => s!"failed to set ownership of {path.text}: {cause.message}"
  | .generate cause => s!"failed to generate keys: {cause.message}"

def causes : KeyInstallError → List String
  | .writeScript _ cause => [cause.message]
  | .ownership _ cause => cause.message :: cause.causes
  | .generate cause => cause.message :: cause.causes

end KeyInstallError

def keyScript (settings : Settings) (address : Net.Address) : Document.KeyScript :=
  ⟨settings.keysPath, address.text, settings.port⟩

def scriptMode : Nat := 0o755

variable {ω : Type} (site : Site ω)

def installKeys (settings : Settings) (address : Net.Address) : Hook ω KeyInstallError Unit := do
  let script := settings.scriptPath
  if let some parent := script.parent? then
    Hook.require (.writeScript script) (← Hook.host site (.createDirectories parent))
  Hook.require (.writeScript script)
    (← Hook.host site (.writeFile script (keyScript settings address).render scriptMode))
  Hook.require (.ownership script)
    (← Hook.host site (.changeOwner script settings.user settings.group))
  let _ ← Hook.require .generate (← Hook.host site (.runScript script))
  Hook.log .debug "tmate_operator::keys" "Key script output"
  Hook.log .info "tmate_operator::keys" "Host keys generated"

end RelayKeeper.Relay
