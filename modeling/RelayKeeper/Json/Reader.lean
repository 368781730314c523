import RelayKeeper.Json.Basic
import RelayKeeper.Json.Token

/-!
# Reading JSON

`ofTokens?` reads one value. It keeps the arrays and objects that are open on a stack and reads one
token at a time, so it needs no bound on the depth. `parse?` reads a text.
-/

namespace RelayKeeper.Json

/-- An array or object that is not closed yet, with its items in reverse. An object that waits for
a value knows the name. -/
inductive Frame where
  | array (items : List Json)
  | object (members : List (Option String × Json)) (name : Option String)
  deriving Repr

inductive Reader where
  | atValue (stack : List Frame)
  /-- An item or the end of the array that was just opened. -/
  | atFirstItem (stack : List Frame)
  /-- A member's name or the end of the object that was just opened. -/
  | atFirstName (stack : List Frame)
  | atName (members : List (Option String × Json)) (stack : List Frame)
  | atColon (members : List (Option String × Json)) (name : Option String) (stack : List Frame)
  /-- A comma or the end of the array or object. -/
  | after (frame : Frame) (stack : List Frame)
  | done (value : Json)
  deriving Repr

def Reader.put (value : Json) : List Frame → Reader
  | [] => .done value
  | .array items :: stack => .after (.array (value :: items)) stack
  | .object members name :: stack => .after (.object ((name, value) :: members) name) stack

def Reader.start? (stack : List Frame) : Token → Option Reader
  | .null => some (put .null stack)
  | .bool b => some (put (.bool b) stack)
  | .number literal => some (put (.number literal) stack)
  | .string text => some (put (.string text) stack)
  | .openArray => some (.atFirstItem stack)
  | .openObject => some (.atFirstName stack)
  | _ => none

def Reader.step? (reader : Reader) (token : Token) : Option Reader :=
  match reader with
  | .atValue stack => start? stack token
  | .atFirstItem stack =>
    match token with
    | .closeArray => some (put (.array []) stack)
    | _ => start? (.array [] :: stack) token
  | .atFirstName stack =>
    match token with
    | .closeObject => some (put (.object []) stack)
    | .string name => some (.atColon [] name stack)
    | _ => none
  | .atName members stack =>
    match token with
    | .string name => some (.atColon members name stack)
    | _ => none
  | .atColon members name stack =>
    match token with
    | .colon => some (.atValue (.object members name :: stack))
    | _ => none
  | .after (.array items) stack =>
    match token with
    | .comma => some (.atValue (.array items :: stack))
    | .closeArray => some (put (.array items.reverse) stack)
    | _ => none
  | .after (.object members _) stack =>
    match token with
    | .comma => some (.atName members stack)
    | .closeObject => some (put (.object members.reverse) stack)
    | _ => none
  | .done _ => none

def Reader.run? (reader : Reader) : List Token → Option Json
  | [] =>
    match reader with
    | .done value => some value
    | _ => none
  | token :: tokens => do run? (← reader.step? token) tokens

def ofTokens? (tokens : List Token) : Option Json :=
  Reader.run? (.atValue []) tokens

def parse? (cs : List Char) : Option Json := do
  ofTokens? (← scan? cs)

end RelayKeeper.Json
