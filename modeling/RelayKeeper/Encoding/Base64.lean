/-!
# Base64

The standard alphabet. `encode` writes the padded form and `encodeUnpadded` the same without the
padding signs. `decode` accepts the padded canonical form alone, and says of any other text what is
wrong with it and where; offsets count bytes from the start of the text.
-/

namespace RelayKeeper.Base64

inductive DecodeError where
  | invalidSymbol (byte : UInt8) (offset : Nat)
  | invalidLength (length : Nat)
  | invalidLastSymbol (byte : UInt8) (offset : Nat)
  | invalidPadding
  deriving DecidableEq, Repr

def DecodeError.message : DecodeError → String
  | .invalidSymbol byte offset => s!"Invalid symbol {byte.toNat}, offset {offset}."
  | .invalidLength length => s!"Invalid input length: {length}"
  | .invalidLastSymbol byte offset => s!"Invalid last symbol {byte.toNat}, offset {offset}."
  | .invalidPadding => "Invalid padding"

def paddingSign : UInt8 := 61

/-- The symbol of a six bit value, as the byte that is written; larger values are reduced. -/
def symbol (value : UInt8) : UInt8 :=
  let v := value &&& 0x3F
  if v < 26 then v + 65
  else if v < 52 then v + 71
  else if v < 62 then v - 4
  else if v = 62 then 43
  else 47

def value? (byte : UInt8) : Option UInt8 :=
  if 65 ≤ byte && byte ≤ 90 then some (byte - 65)
  else if 97 ≤ byte && byte ≤ 122 then some (byte - 71)
  else if 48 ≤ byte && byte ≤ 57 then some (byte + 4)
  else if byte = 43 then some 62
  else if byte = 47 then some 63
  else none

def encode : List UInt8 → List UInt8
  | [] => []
  | [a] => [symbol (a >>> 2), symbol (a <<< 4), paddingSign, paddingSign]
  | [a, b] =>
    [symbol (a >>> 2), symbol (a <<< 4 ||| b >>> 4), symbol (b <<< 2), paddingSign]
  | a :: b :: c :: rest =>
    symbol (a >>> 2) :: symbol (a <<< 4 ||| b >>> 4) :: symbol (b <<< 2 ||| c >>> 6) ::
      symbol c :: encode rest

def encodeUnpadded : List UInt8 → List UInt8
  | [] => []
  | [a] => [symbol (a >>> 2), symbol (a <<< 4)]
  | [a, b] => [symbol (a >>> 2), symbol (a <<< 4 ||| b >>> 4), symbol (b <<< 2)]
  | a :: b :: c :: rest =>
    symbol (a >>> 2) :: symbol (a <<< 4 ||| b >>> 4) :: symbol (b <<< 2 ||| c >>> 6) ::
      symbol c :: encodeUnpadded rest

def symbolAt (byte : UInt8) (offset : Nat) : Except DecodeError UInt8 :=
  match value? byte with
  | some v => .ok v
  | none => .error (.invalidSymbol byte offset)

/-- The values of the last group, which starts at `start` and of which `index` bytes are read, and
the number of padding signs after them. Padding is possible from the third place on, and nothing
else follows it. -/
def lastSymbols (start index : Nat) : List UInt8 → Except DecodeError (List UInt8 × Nat)
  | [] => .ok ([], 0)
  | byte :: rest =>
    if byte = paddingSign then
      if 2 ≤ index && rest.all (· == paddingSign) then .ok ([], rest.length + 1)
      else .error (.invalidSymbol paddingSign (start + index))
    else do
      let v ← symbolAt byte (start + index)
      let (vs, padding) ← lastSymbols start (index + 1) rest
      .ok (v :: vs, padding)

/-- The bytes of the last group's values. The low bits that carry no data have to be zero. -/
def lastBytes (start padding : Nat) (group : List UInt8) :
    List UInt8 → Except DecodeError (List UInt8)
  | [a, b] =>
    if padding ≠ 2 then .error .invalidPadding
    else if b &&& 0x0F ≠ 0 then .error (.invalidLastSymbol (group.getD 1 0) (start + 1))
    else .ok [a <<< 2 ||| b >>> 4]
  | [a, b, c] =>
    if padding ≠ 1 then .error .invalidPadding
    else if c &&& 0x03 ≠ 0 then .error (.invalidLastSymbol (group.getD 2 0) (start + 2))
    else .ok [a <<< 2 ||| b >>> 4, b <<< 4 ||| c >>> 2]
  | [a, b, c, d] => .ok [a <<< 2 ||| b >>> 4, b <<< 4 ||| c >>> 2, c <<< 6 ||| d]
  | values => .error (.invalidLength (start + values.length))

def decodeLast (start : Nat) (group : List UInt8) : Except DecodeError (List UInt8) := do
  let (values, padding) ← lastSymbols start 0 group
  lastBytes start padding group values

/-- Decodes the groups from `start` on; every group but the last has four symbols. -/
def decodeFrom (start : Nat) : List UInt8 → Except DecodeError (List UInt8)
  | [] => .ok []
  | a :: b :: c :: d :: e :: rest => do
    let va ← symbolAt a start
    let vb ← symbolAt b (start + 1)
    let vc ← symbolAt c (start + 2)
    let vd ← symbolAt d (start + 3)
    let tail ← decodeFrom (start + 4) (e :: rest)
    .ok ((va <<< 2 ||| vb >>> 4) :: (vb <<< 4 ||| vc >>> 2) :: (vc <<< 6 ||| vd) :: tail)
  | group => decodeLast start group

/-- Decodes the padded canonical form. A single byte too many at the end that is no symbol at all
is reported first. -/
def decode (bytes : List UInt8) : Except DecodeError (List UInt8) :=
  match bytes.getLast? with
  | none => .ok []
  | some last =>
    if bytes.length % 4 = 1 && last != paddingSign && (value? last).isNone then
      .error (.invalidSymbol last (bytes.length - 1))
    else decodeFrom 0 bytes

end RelayKeeper.Base64
