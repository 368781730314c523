/-!
# TOML values

A float and a date-time keep their literal; nothing here computes with them.
-/

namespace RelayKeeper.Toml

inductive Value where
  | string (text : String)
  | integer (value : Int)
  | float (literal : List Char)
  | boolean (value : Bool)
  | dateTime (literal : List Char)
  | array (items : List Value)
  | table (entries : List (String × Value))
  deriving Repr, Inhabited

end RelayKeeper.Toml
