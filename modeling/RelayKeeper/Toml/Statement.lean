import RelayKeeper.Toml.Quoted
import RelayKeeper.Toml.Scalar

/-!
# Statements

A TOML text is a list of statements, one a line: a value under a dotted key, or the header of a table
or of an element of an array of tables. Readers give what they read and what follows it.
-/

namespace RelayKeeper.Toml

structure KeyPath where
  above : List String
  last : String
  deriving DecidableEq, Repr

inductive Statement where
  | assign (key : KeyPath) (value : Value)
  | table (path : KeyPath)
  | element (path : KeyPath)
  deriving Repr

abbrev Reader (α : Type) := List Char → Option (α × List Char)

def isBlank (c : Char) : Bool :=
  c == ' ' || c == '\t'

def skipBlanks (cs : List Char) : List Char :=
  cs.dropWhile isBlank

def isBareKeyChar (c : Char) : Bool :=
  c.isAlphanum || c == '_' || c == '-'

def name? : Reader String := fun cs =>
  match cs with
  | '"' :: _ | '\'' :: _ => (lineString? cs).map fun (text, rest) => (String.ofList text, rest)
  | _ =>
    let bare := cs.takeWhile isBareKeyChar
    if bare.isEmpty then none else some (String.ofList bare, cs.dropWhile isBareKeyChar)

/-- The longest dotted key, in names. -/
def longestKey : Nat := 79

def names? : Nat → Reader (List String)
  | 0, _ => none
  | limit + 1, cs => do
    let (first, rest) ← name? (skipBlanks cs)
    match skipBlanks rest with
    | '.' :: rest =>
      let (others, rest) ← names? limit rest
      some (first :: others, rest)
    | rest => some ([first], rest)

def key? : Reader KeyPath := fun cs => do
  let (names, rest) ← names? longestKey cs
  some (⟨names.dropLast, names.getLastD ""⟩, rest)

/-- Drops a comment up to the end of its line; control characters may not stand in it. -/
def dropComment? (cs : List Char) : Option (List Char) :=
  match cs with
  | '#' :: _ =>
    match cs.dropWhile isPlain with
    | [] => some []
    | rest@('\n' :: _) => some rest
    | rest@('\r' :: '\n' :: _) => some rest
    | _ => none
  | _ => some cs

/-- Drops blanks, line breaks and comments, of which there are at most `fuel`. -/
def skipLines? : Nat → List Char → Option (List Char)
  | 0, cs => some cs
  | fuel + 1, cs =>
    match skipBlanks cs with
    | '\n' :: rest => skipLines? fuel rest
    | '\r' :: '\n' :: rest => skipLines? fuel rest
    | '#' :: rest =>
      match dropComment? ('#' :: rest) with
      | some (c :: rest) => skipLines? fuel (c :: rest)
      | _ => none
    | rest => some rest

def skipAll? (cs : List Char) : Option (List Char) :=
  skipLines? (2 * cs.length + 1) cs

/-- The items of an array after its bracket, and what follows the closing one. A comma may stand
before the closing bracket. -/
def items? (item : Reader α) : Nat → Reader (List α)
  | 0, _ => none
  | fuel + 1, cs => do
    match ← skipAll? cs with
    | ']' :: rest => some ([], rest)
    | cs =>
      let (first, rest) ← item cs
      match ← skipAll? rest with
      | ']' :: rest => some ([first], rest)
      | ',' :: rest =>
        let (others, rest) ← items? item fuel rest
        some (first :: others, rest)
      | _ => none

def assignment? (value : Reader Value) : Reader (KeyPath × Value) := fun cs => do
  let (key, rest) ← key? cs
  match rest with
  | '=' :: rest =>
    let (v, rest) ← value (skipBlanks rest)
    some ((key, v), rest)
  | _ => none

def inlineEntries? (value : Reader Value) : Nat → Reader (List (KeyPath × Value))
  | 0, _ => none
  | fuel + 1, cs => do
    let (first, rest) ← assignment? value cs
    match skipBlanks rest with
    | '\x7d' :: rest => some ([first], rest)
    | ',' :: rest =>
      let (others, rest) ← inlineEntries? value fuel rest
      some (first :: others, rest)
    | _ => none

def isScalarChar (c : Char) : Bool :=
  c.isAlphanum || c == '+' || c == '-' || c == '_' || c == '.' || c == ':'

/-- A literal without quotes. A date may be followed by a blank and a time. -/
def scalarValue? : Reader Value := fun cs =>
  let literal := cs.takeWhile isScalarChar
  let rest := cs.dropWhile isScalarChar
  match isDate literal, rest with
  | true, ' ' :: d :: more =>
    if d.isDigit then
      let time := (d :: more).takeWhile isScalarChar
      (scalar? (literal ++ ' ' :: time)).map (·, (d :: more).dropWhile isScalarChar)
    else (scalar? literal).map (·, rest)
  | _, _ => (scalar? literal).map (·, rest)

abbrev InlineTable := List (KeyPath × Value) → Option Value

/-- A value with at most so many arrays and inline tables inside each other. -/
def value? (inlineTable : InlineTable) : Nat → Reader Value
  | depth, cs =>
    match cs with
    | '"' :: _ | '\'' :: _ =>
      (anyString? cs).map fun (text, rest) => (.string (String.ofList text), rest)
    | '[' :: rest =>
      match depth with
      | 0 => none
      | depth + 1 => do
        let (items, rest) ← items? (value? inlineTable depth) (rest.length + 1) rest
        some (.array items, rest)
    | '\x7b' :: rest =>
      match depth with
      | 0 => none
      | depth + 1 =>
        match skipBlanks rest with
        | '\x7d' :: rest => some (.table [], rest)
        | rest => do
          let (entries, rest) ←
            inlineEntries? (value? inlineTable depth) (rest.length + 1) rest
          some (← inlineTable entries, rest)
    | _ => scalarValue? cs

def deepest : Nat := 79

def endLine? (cs : List Char) : Option (List Char) := do
  match ← dropComment? (skipBlanks cs) with
  | [] => some []
  | '\n' :: rest => some rest
  | '\r' :: '\n' :: rest => some rest
  | _ => none

def header? : Reader Statement := fun cs =>
  match cs with
  | '[' :: rest => do
    match ← key? rest with
    | (key, ']' :: ']' :: rest) => some (.element key, rest)
    | _ => none
  | _ => do
    match ← key? cs with
    | (key, ']' :: rest) => some (.table key, rest)
    | _ => none

def statement? (inlineTable : InlineTable) : Reader Statement := fun cs =>
  match cs with
  | '[' :: rest => header? rest
  | _ => do
    let ((key, value), rest) ← assignment? (value? inlineTable deepest) cs
    some (.assign key value, rest)

def statementsOf? (inlineTable : InlineTable) : Nat → List Char → Option (List Statement)
  | 0, _ => none
  | lines + 1, cs =>
    match skipBlanks cs with
    | [] => some []
    | '\n' :: rest => statementsOf? inlineTable lines rest
    | '\r' :: '\n' :: rest => statementsOf? inlineTable lines rest
    | '#' :: rest => do statementsOf? inlineTable lines (← endLine? ('#' :: rest))
    | rest => do
      let (statement, rest) ← statement? inlineTable rest
      let others ← statementsOf? inlineTable lines (← endLine? rest)
      some (statement :: others)

def statements? (inlineTable : InlineTable) (cs : List Char) : Option (List Statement) :=
  let cs := if cs.head? = some '\uFEFF' then cs.drop 1 else cs
  statementsOf? inlineTable (cs.length + 1) cs

end RelayKeeper.Toml
