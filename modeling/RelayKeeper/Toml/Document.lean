import RelayKeeper.Toml.Statement

/-!
# Documents

The statements of a text build a tree of tables. A key is assigned once, and a table is opened by one
header; a table that only headers below it have named may still get its own header, and one that
dotted keys have made can get further dotted keys.
-/

namespace RelayKeeper.Toml

inductive Origin where
  /-- By its own header, or as an element of an array of tables. -/
  | header
  /-- By the header of a table below it. -/
  | below
  /-- By a dotted key. -/
  | dotted
  deriving DecidableEq, Repr

inductive Item where
  | value (value : Value)
  | table (origin : Origin) (entries : List (String × Item))
  /-- The elements of an array of tables, the last one first. -/
  | elements (last : List (String × Item)) (before : List (List (String × Item)))
  deriving Repr

abbrev Entries := List (String × Item)

namespace Entries

def get? (entries : Entries) (key : String) : Option Item :=
  (entries.find? (·.1 == key)).map (·.2)

def set (entries : Entries) (key : String) (item : Item) : Entries :=
  match entries with
  | [] => [(key, item)]
  | (k, old) :: rest => if k = key then (key, item) :: rest else (k, old) :: set rest key item

/-- Changes the table that a path leads to from a table of some origin, and makes the tables on the
way that are not there. A dotted key does not lead into a table that has a header. -/
def under (dotted : Bool) (change : Origin → Entries → Option Entries) :
    List String → Origin → Entries → Option Entries
  | [], origin, entries => change origin entries
  | key :: path, _, entries =>
    match get? entries key with
    | none =>
      let made := if dotted then Origin.dotted else Origin.below
      (under dotted change path made []).map fun inner => set entries key (.table made inner)
    | some (.value _) => none
    | some (.table origin inner) =>
      if dotted && origin = .header then none
      else (under dotted change path origin inner).map fun inner =>
        set entries key (.table origin inner)
    | some (.elements last before) =>
      (under dotted change path .header last).map fun last => set entries key (.elements last before)

/-- Adds a value under a key that is still free. Only a key without dots adds to a table that dotted
keys have not made, and only one with dots to a table that they have. -/
def assign (key : KeyPath) (value : Value) (origin : Origin) (entries : Entries) : Option Entries :=
  under true
    (fun origin entries =>
      if (origin == .dotted) == key.above.isEmpty then none
      else
        match get? entries key.last with
        | none => some (set entries key.last (.value value))
        | some _ => none)
    key.above origin entries

def openTable (path : KeyPath) (entries : Entries) : Option Entries :=
  under false
    (fun _ entries =>
      match get? entries path.last with
      | none => some (set entries path.last (.table .header []))
      | some (.table .below inner) => some (set entries path.last (.table .header inner))
      | some _ => none)
    path.above .header entries

def openElement (path : KeyPath) (entries : Entries) : Option Entries :=
  under false
    (fun _ entries =>
      match get? entries path.last with
      | none => some (set entries path.last (.elements [] []))
      | some (.elements last before) =>
        some (set entries path.last (.elements [] (last :: before)))
      | some _ => none)
    path.above .header entries

end Entries

mutual
def Item.toValue : Item → Value
  | .value value => value
  | .table _ entries => .table (entriesValue entries)
  | .elements last before => .array ((elementsValue before).reverse ++ [.table (entriesValue last)])

def entriesValue : List (String × Item) → List (String × Value)
  | [] => []
  | (key, item) :: rest => (key, item.toValue) :: entriesValue rest

def elementsValue : List (List (String × Item)) → List Value
  | [] => []
  | entries :: rest => .table (entriesValue entries) :: elementsValue rest
end

def inlineTable? (assignments : List (KeyPath × Value)) : Option Value := do
  let entries ← assignments.foldlM
    (fun entries (key, value) => Entries.assign key value .header entries) []
  some (.table (entriesValue entries))

/-- The document as far as it is read, and the header that the next assignments stand under. -/
structure Document where
  root : Entries := []
  open_ : List String := []
  deriving Repr

def Document.step (d : Document) : Statement → Option Document
  | .assign key value =>
    (Entries.under false (Entries.assign key value) d.open_ .header d.root).map fun root =>
      { d with root := root }
  | .table path =>
    (Entries.openTable path d.root).map fun root => ⟨root, path.above ++ [path.last]⟩
  | .element path =>
    (Entries.openElement path d.root).map fun root => ⟨root, path.above ++ [path.last]⟩

def document? (statements : List Statement) : Option (List (String × Value)) :=
  (statements.foldlM Document.step {}).map fun d => entriesValue d.root

def parse? (text : String) : Option (List (String × Value)) := do
  document? (← statements? inlineTable? text.toList)

end RelayKeeper.Toml
