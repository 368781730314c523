import RelayKeeper.Files.Tree
import RelayKeeper.Files.UserDirectories
import RelayKeeper.Text.Blank

/-!
# Environment files

A file `.env` in the current directory, or the nearest one above, gives variables that the
environment does not have. It holds lines `KEY=value`, perhaps after `export`, with comments, quotes,
escapes and substitutions. Reading stops at the first line that is not well formed; the lines before
it count.
-/

namespace RelayKeeper.Dotenv

/-! ## Logical lines -/

inductive LineState where
  | plain
  | blank
  | escape
  | strong
  | strongEscape
  | weak
  | weakEscape
  | comment
  deriving DecidableEq, Repr

/-- Reads one character. A comment starts at a `#` after a blank. -/
def LineState.step : LineState → Char → LineState
  | .blank, c =>
    if c == '#' then .comment
    else if c == '\\' then .escape
    else if c == '"' then .weak
    else if c == '\'' then .strong
    else .plain
  | .plain, c =>
    if Text.isBlank c && c != '\n' && c != '\r' then .blank
    else if c == '\\' then .escape
    else if c == '"' then .weak
    else if c == '\'' then .strong
    else .plain
  | .escape, _ => .plain
  | .weak, c => if c == '\\' then .weakEscape else if c == '"' then .plain else .weak
  | .weakEscape, _ => .weak
  | .strong, c => if c == '\\' then .strongEscape else if c == '\'' then .plain else .strong
  | .strongEscape, _ => .strong
  | .comment, _ => .comment

/-- Reads a line from a state: what stands before a comment, and the state at the end. -/
def readLine : LineState → List Char → List Char × LineState
  | state, [] => ([], state)
  | state, c :: cs =>
    let next := state.step c
    if next = .comment then ([], .comment)
    else
      let (text, final) := readLine next cs
      (c :: text, final)

def dropLineBreak (cs : List Char) : List Char :=
  if cs.getLast? = some '\n' then
    let cs := cs.dropLast
    if cs.getLast? = some '\r' then cs.dropLast else cs
  else cs

/-- Joins physical lines to logical ones. `none` stands for the end that cuts a logical line short,
or for a physical line that is no text. -/
def logicalLines (read : List Char) (state : LineState) :
    List (Option (List Char)) → List (Option (List Char))
  | [] => if state = .plain then [] else [none]
  | none :: _ => [none]
  | some line :: lines =>
    if ((read ++ line).dropWhile Text.isBlank).head? = some '#' then
      some [] :: logicalLines [] .plain lines
    else
      let (text, final) := readLine state line
      let read := read ++ text
      if final = .plain then some (dropLineBreak read) :: logicalLines [] .plain lines
      else if final = .comment then some read :: logicalLines [] .plain lines
      else logicalLines read final lines

def physicalLines : List UInt8 → List (List UInt8)
  | [] => []
  | b :: rest =>
    if b = 10 then [b] :: physicalLines rest
    else
      match physicalLines rest with
      | [] => [[b]]
      | line :: lines => (b :: line) :: lines

/-! ## Assignments -/

inductive Substitution where
  | none
  /-- After `$`. -/
  | name
  /-- After `$` and an opening brace. -/
  | braced
  deriving DecidableEq, Repr

structure Value where
  output : List Char := []
  strong : Bool := false
  weak : Bool := false
  escaped : Bool := false
  /-- Only blanks and a comment may follow. -/
  ended : Bool := false
  substitution : Substitution := .none
  name : List Char := []
  deriving Repr

def Value.substitute (v : Value) (lookup : Lookup) : Value :=
  { v with
    output := v.output ++ ((lookup (String.ofList v.name)).getD "").toList
    name := [] }

def escape? (c : Char) : Option Char :=
  if c == '\\' || c == '\'' || c == '"' || c == '$' || c == ' ' then some c
  else if c == 'n' then some '\n'
  else none

def Value.stepPlain (v : Value) (c : Char) : Value :=
  if c == '$' then { v with substitution := .name }
  else if v.weak then
    if c == '"' then { v with weak := false }
    else if c == '\\' then { v with escaped := true }
    else { v with output := v.output ++ [c] }
  else if c == '\'' then { v with strong := true }
  else if c == '"' then { v with weak := true }
  else if c == '\\' then { v with escaped := true }
  else if c == ' ' || c == '\t' then { v with ended := true }
  else { v with output := v.output ++ [c] }

/-- Reads a character of a substitution. A character that ends a name without braces is put out,
whatever it is, unless it starts the next substitution. -/
def Value.stepName (v : Value) (lookup : Lookup) (c : Char) : Value :=
  if Text.isAlphanumeric c then { v with name := v.name ++ [c] }
  else if v.substitution = .braced then
    if c == '\x7d' then { v.substitute lookup with substitution := .none }
    else { v with name := v.name ++ [c] }
  else if c == '\x7b' && v.name.isEmpty then { v with substitution := .braced }
  else if c == '$' then v.substitute lookup
  else
    let v := v.substitute lookup
    { v with substitution := .none, output := v.output ++ [c] }

def readValue? (lookup : Lookup) : Value → List Char → Option Value
  | v, [] => some v
  | v, c :: cs =>
    if v.ended then
      if c == ' ' || c == '\t' then readValue? lookup v cs
      else if c == '#' then some v
      else none
    else if v.escaped then
      match escape? c with
      | some e => readValue? lookup { v with output := v.output ++ [e], escaped := false } cs
      | none => none
    else if v.strong then
      if c == '\'' then readValue? lookup { v with strong := false } cs
      else readValue? lookup { v with output := v.output ++ [c] } cs
    else if v.substitution ≠ .none then readValue? lookup (v.stepName lookup c) cs
    else readValue? lookup (v.stepPlain c) cs

def value? (lookup : Lookup) (cs : List Char) : Option String := do
  let v ← readValue? lookup {} cs
  if v.substitution = .braced || v.strong || v.weak then none
  else some (String.ofList (v.substitute lookup).output)

def isKeyStart (c : Char) : Bool :=
  c.isAlpha || c == '_'

def isKeyChar (c : Char) : Bool :=
  c.isAlphanum || c == '_' || c == '.'

def key? (cs : List Char) : Option (List Char × List Char) :=
  if cs.head?.any isKeyStart then
    some (cs.takeWhile isKeyChar, (cs.dropWhile isKeyChar).dropWhile Text.isBlank)
  else none

/-- A key and what follows its equals sign; `export` may stand before the key. -/
def assignment? (cs : List Char) : Option (List Char × List Char) := do
  let (key, rest) ← key? cs
  match rest with
  | '=' :: rest => some (key, rest)
  | _ =>
    if key = "export".toList then
      let (key, rest) ← key? rest
      match rest with
      | '=' :: rest => some (key, rest)
      | _ => none
    else none

def line? (lookup : Lookup) (cs : List Char) : Option (Option (String × String)) :=
  let cs := (Text.trimEndChars cs).dropWhile Text.isBlank
  if cs.isEmpty || cs.head? = some '#' then some none
  else do
    let (key, rest) ← assignment? cs
    let rest := rest.dropWhile Text.isBlank
    if rest.isEmpty || rest.head? = some '#' then some (some (String.ofList key, ""))
    else some (some (String.ofList key, ← value? lookup rest))

/-- The variables that lines add to an environment, the last one first. The first bad line ends the
reading. -/
def assignments (env : Lookup) (added : List (String × String)) :
    List (Option (List Char)) → List (String × String)
  | [] => added
  | none :: _ => added
  | some line :: lines =>
    let lookup : Lookup := fun name => (env name).or ((added.find? (·.1 == name)).map (·.2))
    match line? lookup line with
    | none => added
    | some none => assignments env added lines
    | some (some (key, value)) => assignments env ((key, value) :: added) lines

/-! ## Environments -/

/-- The nearest file at or above a directory. Anything in the way but its absence ends the search. -/
def find? (t : FileTree) : List Path → Option Path
  | [] => none
  | directory :: above =>
    let candidate := directory.join ".env"
    match t.find candidate with
    | .ok (_, .file ..) => some candidate
    | .ok (_, .directory) => find? t above
    | .error .notFound => find? t above
    | .error _ => none

def currentDirectory (t : FileTree) : Path :=
  ⟨"/" ++ "/".intercalate t.current⟩

def dropMark : List UInt8 → List UInt8
  | 0xEF :: 0xBB :: 0xBF :: rest => rest
  | bytes => bytes

/-- The environment with what the nearest file adds to it. A variable that is set stays; of a
repeated key the first value counts. -/
def extend (t : FileTree) (env : Lookup) : Lookup :=
  let directory := currentDirectory t
  match find? t (directory :: directory.parents) with
  | none => env
  | some path =>
    match t.read path with
    | .error _ => env
    | .ok content =>
      let lines := (physicalLines (dropMark content.data.toList)).map fun line =>
        (String.fromUTF8? ⟨line.toArray⟩).map String.toList
      let added := assignments env [] (logicalLines [] .plain lines)
      fun name => (env name).or ((added.reverse.find? (·.1 == name)).map (·.2))

end RelayKeeper.Dotenv
