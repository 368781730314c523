import RelayKeeper.Json.Basic

/-!
# Printing JSON

`pretty` writes each item and member on a line of its own, two spaces deeper than the brackets; an
empty array or object is written without a break. Strings escape quotes, backslashes and control
characters, and nothing else.
-/

namespace RelayKeeper.Json

def escapeChar (c : Char) : List Char :=
  if c = '"' then ['\\', '"']
  else if c = '\\' then ['\\', '\\']
  else if c = '\x08' then ['\\', 'b']
  else if c = '\x0c' then ['\\', 'f']
  else if c = '\n' then ['\\', 'n']
  else if c = '\r' then ['\\', 'r']
  else if c = '\t' then ['\\', 't']
  else if c < ' ' then
    ['\\', 'u', '0', '0', (c.toNat / 16).digitChar, (c.toNat % 16).digitChar]
  else [c]

/-- A string literal. A string that denotes no text is written as one unpaired surrogate. -/
def quoted : Option String → List Char
  | some s => '"' :: s.toList.flatMap escapeChar ++ ['"']
  | none => "\"\\ud800\"".toList

def lineBreak (depth : Nat) : List Char :=
  '\n' :: List.replicate (2 * depth) ' '

mutual
def prettyAt (depth : Nat) : Json → List Char
  | .null => "null".toList
  | .bool true => "true".toList
  | .bool false => "false".toList
  | .number literal => literal
  | .string text => quoted text
  | .array [] => ['[', ']']
  | .array (item :: items) =>
    '[' :: lineBreak (depth + 1) ++ prettyAt (depth + 1) item ++ prettyItems depth items
  | .object [] => ['\x7b', '\x7d']
  | .object ((name, value) :: members) =>
    '\x7b' :: lineBreak (depth + 1) ++ quoted name ++ [':', ' '] ++ prettyAt (depth + 1) value ++
      prettyMembers depth members

def prettyItems (depth : Nat) : List Json → List Char
  | [] => lineBreak depth ++ [']']
  | item :: items =>
    ',' :: lineBreak (depth + 1) ++ prettyAt (depth + 1) item ++ prettyItems depth items

def prettyMembers (depth : Nat) : List (Option String × Json) → List Char
  | [] => lineBreak depth ++ ['\x7d']
  | (name, value) :: members =>
    ',' :: lineBreak (depth + 1) ++ quoted name ++ [':', ' '] ++ prettyAt (depth + 1) value ++
      prettyMembers depth members
end

def pretty (value : Json) : List Char :=
  prettyAt 0 value

end RelayKeeper.Json
