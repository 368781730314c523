/-!
# Splitting at a separator

`splitAt sep cs` cuts `cs` at every `sep` and keeps empty pieces, so that joining the pieces with the
separator gives `cs` back. A text has always at least one piece.
-/

namespace RelayKeeper.Text

def consFirst (c : Char) : List (List Char) → List (List Char)
  | [] => [[c]]
  | piece :: pieces => (c :: piece) :: pieces

/-- Cuts at every separator, keeping empty pieces. -/
def splitAt (sep : Char) : List Char → List (List Char)
  | [] => [[]]
  | c :: cs => if c = sep then [] :: splitAt sep cs else consFirst c (splitAt sep cs)

def joinWith (sep : List Char) : List (List Char) → List Char
  | [] => []
  | [piece] => piece
  | piece :: pieces => piece ++ sep ++ joinWith sep pieces

def cutAt? (sep : Char) : List Char → Option (List Char × List Char)
  | [] => none
  | c :: cs => if c = sep then some ([], cs) else (cutAt? sep cs).map fun (a, b) => (c :: a, b)

theorem splitAt_ne_nil (sep : Char) (cs : List Char) : splitAt sep cs ≠ [] := by
  induction cs with
  | nil => simp [splitAt]
  | cons c cs ih =>
    by_cases h : c = sep
    · simp [splitAt, h]
    · cases hs : splitAt sep cs <;> simp [splitAt, h, hs, consFirst]

theorem joinWith_splitAt (sep : Char) (cs : List Char) : joinWith [sep] (splitAt sep cs) = cs := by
  induction cs with
  | nil => rfl
  | cons c cs ih =>
    cases hs : splitAt sep cs with
    | nil => exact absurd hs (splitAt_ne_nil sep cs)
    | cons p ps =>
      rw [hs] at ih
      by_cases h : c = sep
      · subst h
        rw [splitAt, if_pos rfl, hs, joinWith, ih]
        · rfl
        · simp
      · rw [splitAt, if_neg h, hs, consFirst]
        cases ps with
        | nil => simpa [joinWith] using ih
        | cons q qs => simpa [joinWith] using ih

def contains (cs piece : List Char) : Bool :=
  piece.isPrefixOf cs || match cs with
    | [] => false
    | _ :: rest => contains rest piece

end RelayKeeper.Text
