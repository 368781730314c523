/-!
# Key algorithms

The names that a public key line may start with: those of the standard, and names of the form
`name@domain` that others have made.
-/

namespace RelayKeeper.Key

inductive Algorithm where
  | dss
  | rsa
  | rsaSha256
  | rsaSha512
  | ecdsaP256
  | ecdsaP384
  | ecdsaP521
  | ed25519
  | securityKeyEcdsaP256
  | securityKeyEd25519
  /-- A name of the form `name@domain`. -/
  | other (name : String)
  deriving DecidableEq, Repr

namespace Algorithm

def name : Algorithm → String
  | .dss => "ssh-dss"
  | .rsa => "ssh-rsa"
  | .rsaSha256 => "rsa-sha2-256"
  | .rsaSha512 => "rsa-sha2-512"
  | .ecdsaP256 => "ecdsa-sha2-nistp256"
  | .ecdsaP384 => "ecdsa-sha2-nistp384"
  | .ecdsaP521 => "ecdsa-sha2-nistp521"
  | .ed25519 => "ssh-ed25519"
  | .securityKeyEcdsaP256 => "sk-ecdsa-sha2-nistp256@openssh.com"
  | .securityKeyEd25519 => "sk-ssh-ed25519@openssh.com"
  | .other name => name

def standard : List Algorithm :=
  [.dss, .rsa, .rsaSha256, .rsaSha512, .ecdsaP256, .ecdsaP384, .ecdsaP521, .ed25519,
    .securityKeyEcdsaP256, .securityKeyEd25519]

/-- At most sixty-four ASCII characters, one of them an `@` that is neither first nor last. -/
def isDomainName (cs : List Char) : Bool :=
  cs.all (·.toNat < 0x80) && cs.length ≤ 64 && cs.count '@' == 1 && cs.head? != some '@' &&
    cs.getLast? != some '@'

def ofName? (name : String) : Option Algorithm :=
  match standard.find? (·.name == name) with
  | some algorithm => some algorithm
  | none => if isDomainName name.toList then some (.other name) else none

end Algorithm

end RelayKeeper.Key
