import RelayKeeper.Text.Numeral

/-!
# JSON tokens

`scan?` cuts a text into tokens. It reads one character at a time, and its state says inside which
token it is; so scanning a text and then another goes on from the state that the first leaves.
-/

namespace RelayKeeper.Json

inductive Token where
  | openArray
  | closeArray
  | openObject
  | closeObject
  | colon
  | comma
  | null
  | bool (value : Bool)
  | number (literal : List Char)
  | string (text : Option String)
  deriving DecidableEq, Repr

def dropDigits? (cs : List Char) : Option (List Char) :=
  match cs with
  | c :: _ => if c.isDigit then some (cs.dropWhile Char.isDigit) else none
  | [] => none

def isExponent : List Char → Bool
  | [] => true
  | e :: rest =>
    (e == 'e' || e == 'E') &&
      match rest with
      | sign :: digits =>
        dropDigits? (if sign == '+' || sign == '-' then digits else rest) == some []
      | [] => false

def isNumberTail : List Char → Bool
  | '.' :: rest => (dropDigits? rest).any isExponent
  | rest => isExponent rest

/-- A number literal: no plus sign, no leading zero, digits on both sides of a point. -/
def isNumber (cs : List Char) : Bool :=
  match if cs.head? = some '-' then cs.drop 1 else cs with
  | '0' :: rest => isNumberTail rest
  | rest => (dropDigits? rest).any isNumberTail

def word? (cs : List Char) : Option Token :=
  if cs = "null".toList then some .null
  else if cs = "true".toList then some (.bool true)
  else if cs = "false".toList then some (.bool false)
  else none

/-- The text of a string literal so far, in reverse, with a high surrogate that waits for its
partner. -/
structure Partial where
  text : Option (List Char)
  high : Option Nat
  deriving DecidableEq, Repr

namespace Partial

def empty : Partial := ⟨some [], none⟩

/-- Adds a character. A waiting surrogate has then no partner. -/
def push (p : Partial) (c : Char) : Partial :=
  ⟨if p.high.isSome then none else p.text.map (c :: ·), none⟩

def pushUnit (p : Partial) (u : Nat) : Partial :=
  if 0xD800 ≤ u && u < 0xDC00 then ⟨if p.high.isSome then none else p.text, some u⟩
  else if 0xDC00 ≤ u && u < 0xE000 then
    match p.high with
    | some high =>
      ⟨p.text.map (Char.ofNat (0x10000 + (high - 0xD800) * 1024 + (u - 0xDC00)) :: ·), none⟩
    | none => ⟨none, none⟩
  else p.push (Char.ofNat u)

def result (p : Partial) : Option String :=
  if p.high.isSome then none else p.text.map fun cs => String.ofList cs.reverse

end Partial

/-- Where the scanner is. Words and numbers are kept in reverse. -/
inductive Scanner where
  | between
  | word (read : List Char)
  | number (read : List Char)
  | string (read : Partial)
  | escape (read : Partial)
  /-- Inside `\uXXXX`, with the digits read so far and their value. -/
  | unit (read : Partial) (digits value : Nat)
  deriving DecidableEq, Repr

/-- Spaces, tabs and line breaks stand between tokens. -/
def isSpace (c : Char) : Bool :=
  c == ' ' || c == '\t' || c == '\n' || c == '\r'

def isNumberChar (c : Char) : Bool :=
  c.isDigit || c == '-' || c == '+' || c == '.' || c == 'e' || c == 'E'

def shortEscape? : Char → Option Char
  | '"' => some '"'
  | '\\' => some '\\'
  | '/' => some '/'
  | 'b' => some '\x08'
  | 'f' => some '\x0c'
  | 'n' => some '\n'
  | 'r' => some '\r'
  | 't' => some '\t'
  | _ => none

def Scanner.start? (c : Char) : Option (Scanner × List Token) :=
  if isSpace c then some (.between, [])
  else if c == '[' then some (.between, [.openArray])
  else if c == ']' then some (.between, [.closeArray])
  else if c == '\x7b' then some (.between, [.openObject])
  else if c == '\x7d' then some (.between, [.closeObject])
  else if c == ':' then some (.between, [.colon])
  else if c == ',' then some (.between, [.comma])
  else if c == '"' then some (.string .empty, [])
  else if c == '-' || c.isDigit then some (.number [c], [])
  else if c.isLower then some (.word [c], [])
  else none

/-- The tokens that end where the text ends or another token starts. -/
def Scanner.finish? : Scanner → Option (List Token)
  | .between => some []
  | .word read => (word? read.reverse).map ([·])
  | .number read => if isNumber read.reverse then some [.number read.reverse] else none
  | _ => none

def Scanner.step? (scanner : Scanner) (c : Char) : Option (Scanner × List Token) :=
  match scanner with
  | .string read =>
    if c == '"' then some (.between, [.string read.result])
    else if c == '\\' then some (.escape read, [])
    else if c < ' ' then none
    else some (.string (read.push c), [])
  | .escape read =>
    if c == 'u' then some (.unit read 0 0, [])
    else (shortEscape? c).map fun e => (.string (read.push e), [])
  | .unit read digits value =>
    match Text.digitValue? 16 c with
    | some d =>
      if digits = 3 then some (.string (read.pushUnit (16 * value + d)), [])
      else some (.unit read (digits + 1) (16 * value + d), [])
    | none => none
  | .word read =>
    if c.isLower then some (.word (c :: read), [])
    else do
      let ended ← Scanner.finish? (.word read)
      let (next, started) ← Scanner.start? c
      some (next, ended ++ started)
  | .number read =>
    if isNumberChar c then some (.number (c :: read), [])
    else do
      let ended ← Scanner.finish? (.number read)
      let (next, started) ← Scanner.start? c
      some (next, ended ++ started)
  | .between => Scanner.start? c

def Scanner.run? (scanner : Scanner) : List Char → Option (List Token)
  | [] => scanner.finish?
  | c :: cs => do
    let (next, tokens) ← scanner.step? c
    let rest ← run? next cs
    some (tokens ++ rest)

def scan? (cs : List Char) : Option (List Token) :=
  Scanner.run? .between cs

end RelayKeeper.Json
