/-!
# UTF-8

`decode` reads bytes as UTF-8 and puts U+FFFD for each maximal piece that cannot be part of a
character: for a lead byte, as many of the bytes after it as still fit. `decode?` refuses such bytes.
The two agree on the text of valid bytes.
-/

namespace RelayKeeper.Text

/-- The number of continuation bytes that a lead byte asks for, its own bits, and the range of the
first continuation byte: the range leaves out overlong forms, surrogates and what is above
U+10FFFF. -/
def leadByte? (b : UInt8) : Option (Nat × Nat × UInt8 × UInt8) :=
  if b < 0x80 then some (0, b.toNat, 0x80, 0xBF)
  else if b < 0xC2 then none
  else if b < 0xE0 then some (1, b.toNat % 32, 0x80, 0xBF)
  else if b = 0xE0 then some (2, 0, 0xA0, 0xBF)
  else if b = 0xED then some (2, 13, 0x80, 0x9F)
  else if b < 0xF0 then some (2, b.toNat % 16, 0x80, 0xBF)
  else if b = 0xF0 then some (3, 0, 0x90, 0xBF)
  else if b < 0xF4 then some (3, b.toNat % 8, 0x80, 0xBF)
  else if b = 0xF4 then some (3, 4, 0x80, 0x8F)
  else none

/-- Reads the continuation bytes that are still due, `none` where one is missing. The second
component holds the bytes after those that fit. -/
def readContinuation : Nat → Nat → UInt8 → UInt8 → List UInt8 → Option Nat × List UInt8
  | 0, value, _, _, rest => (some value, rest)
  | _ + 1, _, _, _, [] => (none, [])
  | due + 1, value, low, high, b :: rest =>
    if low ≤ b && b ≤ high then
      readContinuation due (64 * value + b.toNat % 64) 0x80 0xBF rest
    else (none, b :: rest)

/-- Reads the first character of non-empty bytes, `none` for a piece that is none. -/
def readChar (b : UInt8) (rest : List UInt8) : Option Char × List UInt8 :=
  match leadByte? b with
  | none => (none, rest)
  | some (due, value, low, high) =>
    let (value?, rest) := readContinuation due value low high rest
    (value?.map Char.ofNat, rest)

theorem length_readContinuation (due value : Nat) (low high : UInt8) (bytes : List UInt8) :
    (readContinuation due value low high bytes).2.length ≤ bytes.length := by
  induction due generalizing value low high bytes with
  | zero => simp [readContinuation]
  | succ due ih =>
    cases bytes with
    | nil => simp [readContinuation]
    | cons b rest =>
      simp only [readContinuation]
      split
      · exact Nat.le_succ_of_le (ih ..)
      · simp

theorem length_readChar (b : UInt8) (rest : List UInt8) :
    (readChar b rest).2.length ≤ rest.length := by
  simp only [readChar]
  split
  · simp
  · exact length_readContinuation ..

def decodePieces : List UInt8 → List (Option Char)
  | [] => []
  | b :: rest => (readChar b rest).1 :: decodePieces (readChar b rest).2
termination_by bytes => bytes.length
decreasing_by exact Nat.lt_succ_of_le (length_readChar b rest)

/-- Decodes with U+FFFD for each piece that is no character. -/
def decode (bytes : List UInt8) : List Char :=
  (decodePieces bytes).map fun c => c.getD (Char.ofNat 0xFFFD)

def decode? (bytes : List UInt8) : Option (List Char) :=
  (decodePieces bytes).mapM id

end RelayKeeper.Text
