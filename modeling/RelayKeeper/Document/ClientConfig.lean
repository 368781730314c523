import RelayKeeper.Document.Lines

/-!
# The client configuration

The settings that a client needs to reach the relay, after an empty line.
-/

namespace RelayKeeper.Document

structure ClientConfig where
  host : String
  port : UInt16
  rsa : String
  ed25519 : String
  deriving DecidableEq, Repr

def ClientConfig.lines (d : ClientConfig) : List String :=
  [ "",
    "set -g tmate-server-host " ++ d.host,
    "set -g tmate-server-port " ++ toString d.port,
    "set -g tmate-server-rsa-fingerprint " ++ d.rsa,
    "set -g tmate-server-ed25519-fingerprint " ++ d.ed25519 ]

def ClientConfig.render (d : ClientConfig) : String :=
  ofLines d.lines

end RelayKeeper.Document
