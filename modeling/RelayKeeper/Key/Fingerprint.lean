import RelayKeeper.Digest.Sha256
import RelayKeeper.Encoding.Base64
import RelayKeeper.Files.Tree
import RelayKeeper.Key.PublicKey

/-!
# Fingerprints

The fingerprint of a key is the SHA-256 digest of its bytes, in base64 without padding.
-/

namespace RelayKeeper.Key

inductive KeyError where
  | unreadable (path : Path) (cause : Fault)
  | noAlgorithm (path : Path)
  | noBlob (path : Path)
  | unknownAlgorithm (path : Path) (name : String)
  | undecodable (path : Path) (cause : Base64.DecodeError)
  deriving DecidableEq, Repr

namespace KeyError

def labelMessage (name : String) : String :=
  s!"invalid label: '{name}'"

def message : KeyError → String
  | .unreadable path cause => s!"failed to read public key from {path.text}: {cause.message}"
  | .noAlgorithm path => s!"malformed public key in {path.text}: file is empty"
  | .noBlob path => s!"malformed public key in {path.text}: missing key blob"
  | .unknownAlgorithm path name => s!"unknown key algorithm in {path.text}: {labelMessage name}"
  | .undecodable path cause =>
    s!"failed to decode public key blob in {path.text}: {cause.message}"

def causes : KeyError → List String
  | .unreadable _ cause => [cause.message]
  | .unknownAlgorithm _ name => [labelMessage name]
  | .undecodable _ cause => [cause.message]
  | _ => []

def ofLine (path : Path) : PublicKeyError → KeyError
  | .noAlgorithm => .noAlgorithm path
  | .noBlob => .noBlob path
  | .unknownAlgorithm name => .unknownAlgorithm path name

end KeyError

def asciiText (bytes : List UInt8) : String :=
  String.ofList (bytes.map fun b => Char.ofNat b.toNat)

def fingerprintOf (key : List UInt8) : String :=
  "SHA256:" ++ asciiText (Base64.encodeUnpadded (Sha256.hash key))

/-- The fingerprint of a key in base64; blanks around the text do not matter. -/
def fingerprint (blob : String) : Except Base64.DecodeError String :=
  (Base64.decode (Text.trim blob).toUTF8.data.toList).map fingerprintOf

def fingerprintFile (files : FileTree) (path : Path) : Except KeyError String := do
  let content ← (files.readText path).mapError (.unreadable path)
  let line ← (PublicKey.parse content).mapError (.ofLine path)
  (fingerprint line.blob).mapError (.undecodable path)

end RelayKeeper.Key
