/-!
# JSON values

A value keeps what its text says: numbers keep their literal, and members their order and their
repetitions. A string literal may hold an unpaired surrogate escape, and then it denotes no text.
-/

namespace RelayKeeper

inductive Json where
  | null
  | bool (value : Bool)
  /-- A number with its literal. -/
  | number (literal : List Char)
  /-- A string; `none` if the literal has an unpaired surrogate and denotes no text. -/
  | string (text : Option String)
  | array (items : List Json)
  | object (members : List (Option String × Json))
  deriving Repr, Inhabited

namespace Json

def text (s : String) : Json :=
  .string (some s)

/-- An object whose member names all denote texts. -/
def record (members : List (String × Json)) : Json :=
  .object (members.map fun (name, value) => (some name, value))

def text? : Json → Option String
  | .string s => s
  | _ => none

/-- The literal of a natural number: digits without a leading zero. -/
def nat (n : Nat) : Json :=
  .number (Nat.toDigits 10 n)

end Json

end RelayKeeper
