import RelayKeeper.Key.Algorithm
import RelayKeeper.Text.Blank

/-!
# Public key lines

A public key file holds an algorithm name, the key in base64 and perhaps a comment, separated by
blanks. Only the first three words count.
-/

namespace RelayKeeper.Key

structure PublicKey where
  algorithm : Algorithm
  blob : String
  comment : Option String
  deriving DecidableEq, Repr

inductive PublicKeyError where
  | noAlgorithm
  | noBlob
  | unknownAlgorithm (name : String)
  deriving DecidableEq, Repr

/-- Reads a line. The key has to be there before the algorithm is looked at. -/
def PublicKey.parse (content : String) : Except PublicKeyError PublicKey :=
  match Text.words content with
  | [] => .error .noAlgorithm
  | [_] => .error .noBlob
  | name :: blob :: rest =>
    match Algorithm.ofName? name with
    | some algorithm => .ok ⟨algorithm, blob, rest.head?⟩
    | none => .error (.unknownAlgorithm name)

end RelayKeeper.Key
