import RelayKeeper.Key.Fingerprint

/-!
# Host keys

The relay has an RSA and an Ed25519 key, whose public halves lie in one directory. They are ready
when that directory and both files exist and neither file is empty.
-/

namespace RelayKeeper.Key

structure Material where
  directory : Path
  deriving DecidableEq, Repr

structure Fingerprints where
  rsa : String
  ed25519 : String
  deriving DecidableEq, Repr

/-- What is missing, or empty, before the keys are ready. -/
structure Missing where
  path : Path
  deriving DecidableEq, Repr

def Missing.message (m : Missing) : String :=
  s!"tmate keys not yet initialized: {m.path.text} is missing or empty"

inductive Readiness where
  | ready (fingerprints : Fingerprints)
  | notReady (missing : Missing)
  deriving DecidableEq, Repr

namespace Material

def rsaPublicKey (m : Material) : Path :=
  m.directory.join "ssh_host_rsa_key.pub"

def ed25519PublicKey (m : Material) : Path :=
  m.directory.join "ssh_host_ed25519_key.pub"

def isFilled (files : FileTree) (path : Path) : Bool :=
  match files.find path with
  | .ok (_, .file content _) => content.size != 0
  | _ => false

def missing? (m : Material) (files : FileTree) : Option Missing :=
  if !files.isDirectory m.directory then some ⟨m.directory⟩
  else if !isFilled files m.rsaPublicKey then some ⟨m.rsaPublicKey⟩
  else if !isFilled files m.ed25519PublicKey then some ⟨m.ed25519PublicKey⟩
  else none

/-- The fingerprints, if the keys are ready; keys that are ready but cannot be read are an error. -/
def fingerprints (m : Material) (files : FileTree) : Except KeyError Readiness :=
  match m.missing? files with
  | some missing => .ok (.notReady missing)
  | none => do
    let rsa ← fingerprintFile files m.rsaPublicKey
    let ed25519 ← fingerprintFile files m.ed25519PublicKey
    .ok (.ready ⟨rsa, ed25519⟩)

end Material

end RelayKeeper.Key
