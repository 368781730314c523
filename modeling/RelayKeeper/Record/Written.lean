import Std.Data.ExtTreeSet
import RelayKeeper.Json.Basic
import RelayKeeper.Record.Call

/-!
# The written form of the record

How a status, the opened ports and a bag are written as JSON, and which JSON is read as one.
-/

namespace RelayKeeper.Record

abbrev Ports := Std.ExtTreeSet UInt16

namespace Status

def toJson (s : Status) : Json :=
  .record (("state", .text s.state) :: (s.message?.map fun m => ("message", .text m)).toList)

/-- The name of a state, which may also be written as an object with the name over a null. -/
def stateName? : Json → Option String
  | .string name => name
  | .object [(name, .null)] => name
  | _ => none

def ofValues? (state : Json) (message : Option Json) : Option Status := do
  let name ← stateName? state
  match message with
  | none | some .null => ofParts? name none
  | some value => ofParts? name (some (← value.text?))

/-- The value of a member that occurs at most once. -/
def single? (members : List (String × Json)) (name : String) : Option (Option Json) :=
  match members.filter (·.1 == name) with
  | [] => some none
  | [(_, value)] => some (some value)
  | _ => none

/-- Reads an object with a state and perhaps a message, or a pair of the two. Other members do not
matter. -/
def ofJson? : Json → Option Status
  | .object members => do
    let named ← members.mapM fun (name, value) => name.map (·, value)
    ofValues? (← ← single? named "state") (← single? named "message")
  | .array [state, message] => ofValues? state (some message)
  | _ => none

end Status

namespace Ports

def toJson (ports : Ports) : Json :=
  .array (ports.toList.map fun port => .nat port.toNat)

def ofLiteral? (literal : List Char) : Option UInt16 :=
  if literal.all Char.isDigit then
    let n := Nat.ofDigitChars 10 literal 0
    if n < UInt16.size then some (UInt16.ofNat n) else none
  else none

def ofJson? : Json → Option Ports
  | .array items => do
    let ports ← items.mapM fun
      | .number literal => ofLiteral? literal
      | _ => none
    some (.ofList ports)
  | _ => none

end Ports

namespace Bag

def toJson (bag : Bag) : Json :=
  .record (bag.toList.map fun (name, value) => (name, .text value))

/-- Reads an object of strings; of a repeated name the last value counts. -/
def ofJson? : Json → Option Bag
  | .object members => do
    let entries ← members.mapM fun (name, value) => do some (← name, ← value.text?)
    some (.ofList entries)
  | _ => none

end Bag

end RelayKeeper.Record
