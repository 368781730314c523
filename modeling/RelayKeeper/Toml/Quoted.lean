import RelayKeeper.Text.Numeral

/-!
# Quoted strings

Basic strings have escapes, literal strings do not. Both have a form over several lines, where a line
break is read as a line feed, one right after the opening quotes is left out, and up to two quotes may
stand before the closing ones. In a basic string over several lines a backslash at the end of a line
removes the break and all blanks that follow.
-/

namespace RelayKeeper.Toml

/-- A character that may stand for itself: not a control character, but for the tab. -/
def isPlain (c : Char) : Bool :=
  c == '\t' || (' ' ≤ c && c != '\x7f')

def shortEscape? : Char → Option Char
  | 'b' => some '\x08'
  | 't' => some '\t'
  | 'n' => some '\n'
  | 'f' => some '\x0c'
  | 'r' => some '\r'
  | '"' => some '"'
  | '\\' => some '\\'
  | _ => none

def codePoint? (digits : List Char) : Option Char := do
  let n ← Text.number? 16 digits
  if n < 0xD800 || (0xDFFF < n && n ≤ 0x10FFFF) then some (Char.ofNat n) else none

def consRead (c : Char) (read : Option (List Char × List Char)) : Option (List Char × List Char) :=
  read.map fun (text, rest) => (c :: text, rest)

def basicRest : List Char → Option (List Char × List Char)
  | [] => none
  | '"' :: rest => some ([], rest)
  | '\\' :: 'u' :: a :: b :: c :: d :: rest =>
    match codePoint? [a, b, c, d] with
    | some x => consRead x (basicRest rest)
    | none => none
  | '\\' :: 'U' :: a :: b :: c :: d :: e :: f :: g :: h :: rest =>
    match codePoint? [a, b, c, d, e, f, g, h] with
    | some x => consRead x (basicRest rest)
    | none => none
  | '\\' :: c :: rest =>
    match shortEscape? c with
    | some x => consRead x (basicRest rest)
    | none => none
  | c :: rest => if isPlain c then consRead c (basicRest rest) else none

def literalRest : List Char → Option (List Char × List Char)
  | [] => none
  | '\'' :: rest => some ([], rest)
  | c :: rest => if isPlain c then consRead c (literalRest rest) else none

/-- What a backslash at the end of a line has removed so far. -/
inductive Folding where
  | none
  /-- Blanks after the backslash; a line break has to follow. -/
  | beforeBreak
  /-- The line break; more blanks and breaks may follow. -/
  | afterBreak
  deriving DecidableEq, Repr

def basicLinesRest : Folding → List Char → Option (List Char × List Char)
  | _, [] => none
  | .beforeBreak, '\r' :: '\n' :: rest => basicLinesRest .afterBreak rest
  | .beforeBreak, c :: rest =>
    if c == ' ' || c == '\t' then basicLinesRest .beforeBreak rest
    else if c == '\n' then basicLinesRest .afterBreak rest
    else none
  | .afterBreak, ' ' :: rest => basicLinesRest .afterBreak rest
  | .afterBreak, '\t' :: rest => basicLinesRest .afterBreak rest
  | .afterBreak, '\n' :: rest => basicLinesRest .afterBreak rest
  | .afterBreak, '\r' :: '\n' :: rest => basicLinesRest .afterBreak rest
  | _, '"' :: '"' :: '"' :: '"' :: '"' :: rest => some (['"', '"'], rest)
  | _, '"' :: '"' :: '"' :: '"' :: rest => some (['"'], rest)
  | _, '"' :: '"' :: '"' :: rest => some ([], rest)
  | _, '\r' :: '\n' :: rest => consRead '\n' (basicLinesRest .none rest)
  | _, '\n' :: rest => consRead '\n' (basicLinesRest .none rest)
  | _, '\\' :: 'u' :: a :: b :: c :: d :: rest =>
    match codePoint? [a, b, c, d] with
    | some x => consRead x (basicLinesRest .none rest)
    | none => none
  | _, '\\' :: 'U' :: a :: b :: c :: d :: e :: f :: g :: h :: rest =>
    match codePoint? [a, b, c, d, e, f, g, h] with
    | some x => consRead x (basicLinesRest .none rest)
    | none => none
  | _, '\\' :: '\r' :: '\n' :: rest => basicLinesRest .afterBreak rest
  | _, '\\' :: c :: rest =>
    if c == '\n' then basicLinesRest .afterBreak rest
    else if c == ' ' || c == '\t' then basicLinesRest .beforeBreak rest
    else
      match shortEscape? c with
      | some x => consRead x (basicLinesRest .none rest)
      | none => none
  | _, c :: rest => if isPlain c && c != '\\' then consRead c (basicLinesRest .none rest) else none

def literalLinesRest : List Char → Option (List Char × List Char)
  | [] => none
  | '\'' :: '\'' :: '\'' :: '\'' :: '\'' :: rest => some (['\'', '\''], rest)
  | '\'' :: '\'' :: '\'' :: '\'' :: rest => some (['\''], rest)
  | '\'' :: '\'' :: '\'' :: rest => some ([], rest)
  | '\r' :: '\n' :: rest => consRead '\n' (literalLinesRest rest)
  | '\n' :: rest => consRead '\n' (literalLinesRest rest)
  | c :: rest => if isPlain c then consRead c (literalLinesRest rest) else none

def dropBreak : List Char → List Char
  | '\r' :: '\n' :: rest => rest
  | '\n' :: rest => rest
  | cs => cs

def lineString? : List Char → Option (List Char × List Char)
  | '"' :: rest => basicRest rest
  | '\'' :: rest => literalRest rest
  | _ => none

def anyString? : List Char → Option (List Char × List Char)
  | '"' :: '"' :: '"' :: rest => basicLinesRest .none (dropBreak rest)
  | '\'' :: '\'' :: '\'' :: rest => literalLinesRest (dropBreak rest)
  | cs => lineString? cs

end RelayKeeper.Toml
