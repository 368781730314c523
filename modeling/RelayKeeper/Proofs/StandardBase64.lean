import RelayKeeper.Key.Fingerprint
import RelayKeeper.Proofs.CanonicalBase64
import RelayKeeper.Proofs.TrimmedText

/-! # The standard's text of some bytes

The text that the standard gives to bytes, said of the number that three bytes make. What is written
is this text, and a text that is read is this text of the bytes that it is read as. -/
namespace RelayKeeper

namespace Base64

def alphabet : List Char :=
  "ABCDEFGHIJKLMNOPQRSTUVWXYZabcdefghijklmnopqrstuvwxyz0123456789+/".toList

/-- The symbol of a group of twenty-four bits that `behind` symbols follow. -/
def symbolIn (group behind : Nat) : Char :=
  alphabet.getD (group / 64 ^ behind % 64) '='

def groupOf (a b c : UInt8) : Nat :=
  65536 * a.toNat + 256 * b.toNat + c.toNat

/-- The padded text of the standard: four symbols for three bytes. What is missing of a last group
counts as zero, and symbols for nothing but that are signs of padding. -/
def standardText : List UInt8 → List Char
  | [] => []
  | [a] => [symbolIn (groupOf a 0 0) 3, symbolIn (groupOf a 0 0) 2, '=', '=']
  | [a, b] =>
    [symbolIn (groupOf a b 0) 3, symbolIn (groupOf a b 0) 2, symbolIn (groupOf a b 0) 1, '=']
  | a :: b :: c :: rest =>
    symbolIn (groupOf a b c) 3 :: symbolIn (groupOf a b c) 2 :: symbolIn (groupOf a b c) 1 ::
      symbolIn (groupOf a b c) 0 :: standardText rest

def unpaddedText (bytes : List UInt8) : List Char :=
  (standardText bytes).filter (· != '=')

def charOf (byte : UInt8) : Char := Char.ofNat byte.toNat

theorem charOf_paddingSign : charOf paddingSign = '=' := rfl

/-- The alphabet in the order of the values. -/
theorem alphabet_eq : alphabet = (List.range 64).map fun n => Char.ofNat (symbolNumber n) := by
  rfl

theorem charOf_symbol {v : UInt8} {group behind : Nat}
    (h : v.toNat % 64 = group / 64 ^ behind % 64) : charOf (symbol v) = symbolIn group behind := by
  have hlt : group / 64 ^ behind % 64 < 64 := Nat.mod_lt _ (by omega)
  rw [charOf, toNat_symbol, h, symbolIn, alphabet_eq]
  simp [List.getD_eq_getElem?_getD, hlt]

/-- The symbols of three bytes are those of their number. -/
theorem symbols_eq (a b c : UInt8) :
    charOf (symbol (a >>> 2)) = symbolIn (groupOf a b c) 3 ∧
      charOf (symbol (a <<< 4 ||| b >>> 4)) = symbolIn (groupOf a b c) 2 ∧
      charOf (symbol (b <<< 2 ||| c >>> 6)) = symbolIn (groupOf a b c) 1 ∧
      charOf (symbol c) = symbolIn (groupOf a b c) 0 := by
  have ha := a.toNat_lt
  have hb := b.toNat_lt
  have hc := c.toNat_lt
  refine ⟨charOf_symbol ?_, charOf_symbol ?_, charOf_symbol ?_, charOf_symbol ?_⟩
  · rw [toNat_shiftRight (by decide), groupOf]
    change _ / 4 % 64 = _ / 262144 % 64
    omega
  · rw [toNat_join (by decide) (by decide) (by change _ / 16 < 16; omega), groupOf]
    change (16 * _ + _ / 16) % 256 % 64 = _ / 4096 % 64
    omega
  · rw [toNat_join (by decide) (by decide) (by change _ / 64 < 4; omega), groupOf]
    change (4 * _ + _ / 64) % 256 % 64 = _ / 64 % 64
    omega
  · rw [groupOf]
    change _ = _ / 1 % 64
    omega

/-- What is written is the text of the standard. -/
theorem map_charOf_encode (bytes : List UInt8) : (encode bytes).map charOf = standardText bytes := by
  fun_induction encode bytes with
  | case1 => rfl
  | case2 a =>
    obtain ⟨h1, h2, -⟩ := symbols_eq a 0 0
    -- a byte that is missing counts as zero
    have hnone : a <<< 4 ||| (0 : UInt8) >>> 4 = a <<< 4 := by simp
    rw [hnone] at h2
    simp only [List.map_cons, List.map_nil, h1, h2, charOf_paddingSign, standardText]
  | case3 a b =>
    obtain ⟨h1, h2, h3, -⟩ := symbols_eq a b 0
    have hnone : b <<< 2 ||| (0 : UInt8) >>> 6 = b <<< 2 := by simp
    rw [hnone] at h3
    simp only [List.map_cons, List.map_nil, h1, h2, h3, charOf_paddingSign, standardText]
  | case4 a b c rest ih =>
    obtain ⟨h1, h2, h3, h4⟩ := symbols_eq a b c
    simp only [List.map_cons, h1, h2, h3, h4, ih, standardText]

theorem charOf_symbol_ne (v : UInt8) : charOf (symbol v) ≠ '=' := by
  have hall : ∀ n < 64, Char.ofNat (symbolNumber n) ≠ '=' := by decide
  rw [charOf, toNat_symbol]
  exact hall _ (Nat.mod_lt _ (by omega))

theorem map_charOf_encodeUnpadded (bytes : List UInt8) :
    (encodeUnpadded bytes).map charOf = unpaddedText bytes := by
  rw [unpaddedText, ← map_charOf_encode]
  fun_induction encodeUnpadded bytes with
  | case1 => rfl
  | case2 a | case3 a b => simp [encode, charOf_symbol_ne, charOf_paddingSign]
  | case4 a b c rest ih => simp [encode, charOf_symbol_ne, ih]

theorem length_encodeUnpadded (bytes : List UInt8) :
    (encodeUnpadded bytes).length = (4 * bytes.length + 2) / 3 := by
  fun_induction encodeUnpadded bytes with
  | case1 | case2 a | case3 a b => simp
  | case4 a b c rest ih =>
    simp only [List.length_cons, ih]
    omega

theorem length_unpaddedText (bytes : List UInt8) :
    (unpaddedText bytes).length = (4 * bytes.length + 2) / 3 := by
  rw [← map_charOf_encodeUnpadded, List.length_map, length_encodeUnpadded]

theorem symbolIn_mem (group behind : Nat) : symbolIn group behind ∈ alphabet := by
  have hlt : group / 64 ^ behind % 64 < alphabet.length := Nat.mod_lt _ (by decide)
  rw [symbolIn, List.getD_eq_getElem _ _ hlt]
  exact List.getElem_mem hlt

theorem mem_standardText {bytes : List UInt8} :
    ∀ c ∈ standardText bytes, c ∈ alphabet ∨ c = '=' := by
  fun_induction standardText bytes with
  | case1 => simp
  | case2 a | case3 a b => simp [symbolIn_mem]
  | case4 a b c rest ih => simpa [symbolIn_mem] using ih

theorem mem_unpaddedText {bytes : List UInt8} {c : Char} (h : c ∈ unpaddedText bytes) :
    c ∈ alphabet ∧ c ≠ '=' := by
  obtain ⟨hmem, hne⟩ := List.mem_filter.mp h
  have hc : c ≠ '=' := by simpa using hne
  exact ⟨(mem_standardText c hmem).resolve_right hc, hc⟩

/-- Nothing in the text is blank, so that trimming leaves it as it is. -/
theorem trimmed_standardText (bytes : List UInt8) : Text.Trimmed (standardText bytes) := by
  have hall : ∀ c ∈ standardText bytes, Text.isBlank c = false := by
    intro c hc
    have halphabet : alphabet.all (!Text.isBlank ·) = true := by decide
    rcases mem_standardText c hc with h | rfl
    · simpa using List.all_eq_true.mp halphabet c h
    · decide
  exact ⟨fun c hc => hall c (List.mem_of_head? hc), fun c hc => hall c (List.mem_of_getLast? hc)⟩

/-! ## Text without the padding -/

/-- What is written without padding lacks the signs that fill the last group. -/
theorem encode_eq (bytes : List UInt8) :
    encode bytes = encodeUnpadded bytes ++
      List.replicate ((4 - (encodeUnpadded bytes).length % 4) % 4) paddingSign := by
  fun_induction encodeUnpadded bytes with
  | case1 | case2 a | case3 a b => simp [encode]
  | case4 a b c rest ih =>
    rw [encode, ih]
    simp only [List.length_cons, List.cons_append, Nat.add_assoc, Nat.add_mod_right]

def decodeUnpadded (text : List UInt8) : Except DecodeError (List UInt8) :=
  decode (text ++ List.replicate ((4 - text.length % 4) % 4) paddingSign)

theorem decodeUnpadded_encodeUnpadded (bytes : List UInt8) :
    decodeUnpadded (encodeUnpadded bytes) = .ok bytes := by
  rw [decodeUnpadded, ← encode_eq, decode_encode]

/-! ## Bytes of a text -/

def bytesOf (text : String) : List UInt8 := text.toUTF8.data.toList

theorem bytesOf_inj {s t : String} (h : bytesOf s = bytesOf t) : s = t := by
  apply String.toByteArray_inj.mp
  exact ByteArray.ext (Array.toList_inj.mp h)

theorem utf8EncodeChar_charOf {b : UInt8} (h : b.toNat < 128) :
    String.utf8EncodeChar (charOf b) = [b] := by
  have hall : ∀ n < 128, String.utf8EncodeChar (charOf (UInt8.ofNat n)) = [UInt8.ofNat n] := by
    decide +kernel
  have hb := hall b.toNat h
  rwa [UInt8.ofNat_toNat] at hb

/-- A text of ASCII characters has their numbers as its bytes. -/
theorem bytesOf_ofList {bytes : List UInt8} (h : ∀ b ∈ bytes, b.toNat < 128) :
    bytesOf (String.ofList (bytes.map charOf)) = bytes := by
  have hflat : (bytes.map charOf).flatMap String.utf8EncodeChar = bytes := by
    induction bytes with
    | nil => rfl
    | cons b bytes ih =>
      rw [List.map_cons, List.flatMap_cons, utf8EncodeChar_charOf (h b (by simp)),
        ih fun c hc => h c (by simp [hc])]
      rfl
  change (String.ofList (bytes.map charOf)).toByteArray.data.toList = bytes
  rw [String.toByteArray_ofList, List.utf8Encode, hflat, List.toList_data_toByteArray]

theorem isAscii_encode (bytes : List UInt8) : ∀ b ∈ encode bytes, b.toNat < 128 := by
  have hall : ∀ v, (symbol v).toNat < 128 := fun v => (toNat_symbol_range v).2
  fun_induction encode bytes with
  | case1 => simp
  | case2 a | case3 a b => simp [hall, paddingSign]
  | case4 a b c rest ih => simpa [hall] using ih

theorem bytesOf_standardText (bytes : List UInt8) :
    bytesOf (String.ofList (standardText bytes)) = encode bytes := by
  rw [← map_charOf_encode, bytesOf_ofList (isAscii_encode bytes)]

theorem bytesOf_unpaddedText (bytes : List UInt8) :
    bytesOf (String.ofList (unpaddedText bytes)) = encodeUnpadded bytes := by
  rw [← map_charOf_encodeUnpadded, bytesOf_ofList]
  intro b hb
  apply isAscii_encode bytes
  rw [encode_eq]
  exact List.mem_append_left _ hb

/-- The texts that can be read are those of the standard. -/
theorem decode_bytesOf_eq_ok_iff {text : String} {bytes : List UInt8} :
    decode (bytesOf text) = .ok bytes ↔ text = String.ofList (standardText bytes) := by
  rw [decode_eq_ok_iff, ← bytesOf_standardText]
  exact ⟨bytesOf_inj, fun h => h ▸ rfl⟩

end Base64

end RelayKeeper
