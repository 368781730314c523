import RelayKeeper.Key.Material
import RelayKeeper.Net.Address
import RelayKeeper.Record.Call

/-!
# Connection profiles

What a consumer is told about the relay.
-/

namespace RelayKeeper.Record

structure Profile where
  host : String
  port : UInt16
  rsa : String
  ed25519 : String
  deriving DecidableEq, Repr

def Profile.of (address : Net.Address) (port : UInt16) (fingerprints : Key.Fingerprints) : Profile :=
  ⟨address.text, port, fingerprints.rsa, fingerprints.ed25519⟩

def Profile.bag (p : Profile) : Bag :=
  .ofList
    [ ("host", p.host),
      ("port", toString p.port),
      ("rsa_fingerprint", p.rsa),
      ("ed25519_fingerprint", p.ed25519) ]

end RelayKeeper.Record
