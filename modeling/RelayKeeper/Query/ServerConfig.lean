import RelayKeeper.Document.ClientConfig
import RelayKeeper.Log.Entry
import RelayKeeper.Provision.State
import RelayKeeper.Relay.Fingerprints

/-!
# The server configuration that a client asks for
-/

namespace RelayKeeper.Query

def addressNotReady : String :=
  "Host address not ready yet."

/-- What is said when the configuration cannot be made, whatever the cause. -/
def generationFailed : String :=
  "Failed to generate .tmate.conf. See debug-log output."

def connectionConfig (settings : Settings) (files : FileTree) (host : Net.Address) :
    Except Relay.FingerprintError String :=
  (Relay.requireFingerprints settings files).map fun f =>
    (Document.ClientConfig.mk host.text settings.port f.rsa f.ed25519).render

structure Answer where
  result : Except String String
  log : List Log.Entry

def serverConfig (settings : Settings) (files : FileTree) (state : Provision.State) : Answer :=
  match state.address with
  | none => ⟨.error addressNotReady, []⟩
  | some host =>
    match connectionConfig settings files host with
    | .ok config => ⟨.ok config, []⟩
    | .error _ =>
      ⟨.error generationFailed,
        [⟨.error, "tmate_operator::action", "Failed to generate client config", none⟩]⟩

end RelayKeeper.Query
