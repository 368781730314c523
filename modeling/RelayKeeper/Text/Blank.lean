/-!
# Blank characters

Trimming and splitting at blank characters, which are those of the Unicode property `White_Space`.
Both work on lists of characters; `trim` and `words` are the same on strings.
-/

namespace RelayKeeper.Text

/-- The property `White_Space`. Zero width characters and the information separators
U+001C to U+001F are not in it. -/
def isBlank (c : Char) : Bool :=
  let n := c.toNat
  (0x09 ≤ n && n ≤ 0x0D) || n == 0x20 || n == 0x85 || n == 0xA0 || n == 0x1680 ||
    (0x2000 ≤ n && n ≤ 0x200A) || n == 0x2028 || n == 0x2029 || n == 0x202F || n == 0x205F ||
    n == 0x3000

/-- A letter or a digit. Beyond ASCII every character that is not blank counts as one. -/
def isAlphanumeric (c : Char) : Bool :=
  c.isAlphanum || (0x80 ≤ c.toNat && !isBlank c)

def trimEndChars (cs : List Char) : List Char :=
  (cs.reverse.dropWhile isBlank).reverse

def trimChars (cs : List Char) : List Char :=
  trimEndChars (cs.dropWhile isBlank)

def wordsOf : List Char → List (List Char)
  | [] => []
  | c :: cs =>
    if isBlank c then wordsOf cs
    else
      match cs with
      | [] => [[c]]
      | d :: _ =>
        if isBlank d then [c] :: wordsOf cs
        else
          match wordsOf cs with
          | [] => [[c]]
          | w :: ws => (c :: w) :: ws

def trim (s : String) : String :=
  String.ofList (trimChars s.toList)

def words (s : String) : List String :=
  (wordsOf s.toList).map String.ofList

end RelayKeeper.Text
