import RelayKeeper.Key.Material
import RelayKeeper.Time.Duration

/-!
# Settings

Where the relay is provisioned and how. Every field has a default; the keys and the script that
makes them lie in the working directory unless they are given a place of their own.
-/

namespace RelayKeeper

structure Settings where
  serviceName : String := "tmate-ssh-server"
  port : UInt16 := 10022
  workDir : Path := ⟨"/srv/tmate-ssh-server"⟩
  keysDir : Option Path := none
  createKeysScript : Option Path := none
  unitPath : Path := ⟨"/etc/systemd/system/tmate-ssh-server.service"⟩
  dockerDaemonConfig : Path := ⟨"/etc/docker/daemon.json"⟩
  user : String := "_daemon_"
  group : String := "_daemon_"
  runtimeGroup : String := "docker"
  packages : List String := ["openssh-client", "docker.io"]
  image : String := "ghcr.io/canonical/tmate-ssh-server:latest"
  startupTimeoutSecs : UInt64 := 600
  checkIntervalSecs : UInt64 := 10
  stateDir : Path := ⟨"/var/lib/tmate-operator"⟩
  deriving DecidableEq, Repr

namespace Settings

def keysPath (s : Settings) : Path :=
  s.keysDir.getD (s.workDir.join "keys")

def scriptPath (s : Settings) : Path :=
  s.createKeysScript.getD (s.workDir.join "create_keys.sh")

def keyMaterial (s : Settings) : Key.Material :=
  ⟨s.keysPath⟩

def startupTimeout (s : Settings) : Duration :=
  .ofSeconds s.startupTimeoutSecs.toNat

def checkInterval (s : Settings) : Duration :=
  .ofSeconds s.checkIntervalSecs.toNat

end Settings

end RelayKeeper
