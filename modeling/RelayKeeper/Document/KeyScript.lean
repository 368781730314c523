import RelayKeeper.Document.Lines
import RelayKeeper.Files.Path

/-!
# The key script

A shell script that makes the host keys which are not there yet and prints the settings that a
client needs.
-/

namespace RelayKeeper.Document

structure KeyScript where
  keysDir : Path
  host : String
  port : UInt16
  deriving DecidableEq, Repr

def KeyScript.lines (d : KeyScript) : List String :=
  [ "#!/bin/bash",
    "set -eu",
    "",
    "KEYS_DIR=\"" ++ d.keysDir.text ++ "\"",
    "mkdir -p \"$KEYS_DIR\"",
    "",
    "gen_key() \x7b",
    "    keytype=$1",
    "    key=\"$KEYS_DIR/ssh_host_$\x7bkeytype\x7d_key\"",
    "    if [ ! -e \"$key\" ]; then",
    "        ssh-keygen -t \"$keytype\" -f \"$key\" -N '' -q",
    "    fi",
    "    ssh-keygen -l -E SHA256 -f \"$key.pub\" | cut -d ' ' -f 2",
    "\x7d",
    "",
    "RSA_SIG=$(gen_key rsa)",
    "ED25519_SIG=$(gen_key ed25519)",
    "",
    "echo \"set -g tmate-server-host " ++ d.host ++ "\"",
    "echo \"set -g tmate-server-port " ++ toString d.port ++ "\"",
    "echo \"set -g tmate-server-rsa-fingerprint $RSA_SIG\"",
    "echo \"set -g tmate-server-ed25519-fingerprint $ED25519_SIG\"" ]

def KeyScript.render (d : KeyScript) : String :=
  ofLines d.lines

end RelayKeeper.Document
