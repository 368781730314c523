import RelayKeeper.Proofs.StandardBase64

/-! # The text of a fingerprint

A blob has a fingerprint if it is, blanks around it apart, the standard's padded text of some bytes,
which are those that are hashed. The fingerprint is the standard's text of the digest without the
padding, from which the digest can be read back. -/
namespace RelayKeeper.Key

open Base64 (standardText unpaddedText alphabet bytesOf decodeUnpadded)
open Text (Blanks trim)

def keyOf (blob : String) : Except Base64.DecodeError (List UInt8) :=
  Base64.decode (bytesOf (trim blob))

theorem fingerprint_eq (blob : String) : fingerprint blob = (keyOf blob).map fingerprintOf := rfl

theorem fingerprintOf_eq (key : List UInt8) :
    fingerprintOf key = "SHA256:" ++ String.ofList (unpaddedText (Sha256.hash key)) := by
  rw [← Base64.map_charOf_encodeUnpadded]
  rfl

theorem keyOf_eq_ok_iff {blob : String} {key : List UInt8} :
    keyOf blob = .ok key ↔ trim blob = String.ofList (standardText key) :=
  Base64.decode_bytesOf_eq_ok_iff

theorem fingerprint_eq_ok_iff {blob print : String} :
    fingerprint blob = .ok print ↔ ∃ key, keyOf blob = .ok key ∧ fingerprintOf key = print := by
  rw [fingerprint_eq]
  cases keyOf blob with
  | error e => simp [Except.map]
  | ok key => simp [Except.map]

/-- Blanks around the standard's text of a key do not matter. -/
theorem keyOf_standardText {before after : List Char} (hbefore : Blanks before)
    (hafter : Blanks after) (key : List UInt8) :
    keyOf (String.ofList (before ++ standardText key ++ after)) = .ok key := by
  rw [keyOf_eq_ok_iff, trim, String.toList_ofList,
    (Base64.trimmed_standardText key).trimChars_between hbefore hafter]

theorem length_unpaddedText_hash (key : List UInt8) :
    (unpaddedText (Sha256.hash key)).length = 43 := by
  rw [Base64.length_unpaddedText, Sha256.length_hash]

theorem length_fingerprintOf (key : List UInt8) : (fingerprintOf key).length = 50 := by
  have htext : (String.ofList (unpaddedText (Sha256.hash key))).length = 43 := by
    rw [String.length_ofList, length_unpaddedText_hash]
  rw [fingerprintOf_eq, String.length_append, htext]
  rfl

/-- The digest can be read from the fingerprint. -/
theorem decodeUnpadded_unpaddedText (digest : List UInt8) :
    decodeUnpadded (bytesOf (String.ofList (unpaddedText digest))) = .ok digest := by
  rw [Base64.bytesOf_unpaddedText, Base64.decodeUnpadded_encodeUnpadded]

theorem fingerprintOf_eq_iff {key other : List UInt8} :
    fingerprintOf key = fingerprintOf other ↔ Sha256.hash key = Sha256.hash other := by
  constructor
  · intro h
    rw [fingerprintOf_eq, fingerprintOf_eq, String.append_right_inj] at h
    have hread := decodeUnpadded_unpaddedText (Sha256.hash key)
    rw [h, decodeUnpadded_unpaddedText] at hread
    exact (Except.ok.inj hread).symm
  · intro h
    rw [fingerprintOf_eq, fingerprintOf_eq, h]

/-- The standard's text of a key has a fingerprint. A blob that has one is such a text, of no other
key, and its fingerprint tells the digest. -/
theorem fingerprint_canonical :
    (∀ before key after, Blanks before → Blanks after →
      fingerprint (String.ofList (before ++ standardText key ++ after)) =
        .ok ("SHA256:" ++ String.ofList (unpaddedText (Sha256.hash key)))) ∧
    ∀ blob print, fingerprint blob = .ok print →
      ∃ key, keyOf blob = .ok key ∧ trim blob = String.ofList (standardText key) ∧
        (∀ other, keyOf other = .ok key → trim other = trim blob) ∧
        (∃ text : List Char,
          print = "SHA256:" ++ String.ofList text ∧ print.length = 50 ∧ text.length = 43 ∧
            text = unpaddedText (Sha256.hash key) ∧ (∀ c ∈ text, c ∈ alphabet ∧ c ≠ '=') ∧
            decodeUnpadded (bytesOf (String.ofList text)) = .ok (Sha256.hash key) ∧
            (Sha256.hash key).length = 32) ∧
        ∀ other otherKey otherPrint, keyOf other = .ok otherKey →
          fingerprint other = .ok otherPrint →
            (otherPrint = print ↔ Sha256.hash otherKey = Sha256.hash key) := by
  constructor
  · intro before key after hbefore hafter
    rw [fingerprint_eq, keyOf_standardText hbefore hafter, ← fingerprintOf_eq]
    rfl
  · intro blob print h
    obtain ⟨key, hkey, rfl⟩ := fingerprint_eq_ok_iff.mp h
    refine ⟨key, hkey, keyOf_eq_ok_iff.mp hkey, ?_, ?_, ?_⟩
    · intro other hother
      rw [keyOf_eq_ok_iff.mp hother, keyOf_eq_ok_iff.mp hkey]
    · exact ⟨unpaddedText (Sha256.hash key), fingerprintOf_eq key, length_fingerprintOf key,
        length_unpaddedText_hash key, rfl, fun c hc => Base64.mem_unpaddedText hc,
        decodeUnpadded_unpaddedText _, Sha256.length_hash key⟩
    · intro other otherKey otherPrint hother hprint
      obtain ⟨read, hread, rfl⟩ := fingerprint_eq_ok_iff.mp hprint
      obtain rfl := Except.ok.inj (hread.symm.trans hother)
      exact fingerprintOf_eq_iff

theorem fingerprint_canonical_two_bytes :
    Blanks ['\t', ' '] ∧ Blanks ['\n'] ∧
      fingerprint "\t AQI=\n" =
        .ok ("SHA256:" ++ String.ofList (unpaddedText (Sha256.hash [1, 2]))) ∧
      ∃ key, keyOf "\t AQI=\n" = .ok key ∧ trim "\t AQI=\n" = String.ofList (standardText key) := by
  have hbefore : Blanks ['\t', ' '] := by decide
  have hafter : Blanks ['\n'] := by decide
  have hprint := fingerprint_canonical.1 ['\t', ' '] [1, 2] ['\n'] hbefore hafter
  have hblob : String.ofList (['\t', ' '] ++ standardText [1, 2] ++ ['\n']) = "\t AQI=\n" := by
    decide
  rw [hblob] at hprint
  obtain ⟨key, hkey, htrim, -⟩ := fingerprint_canonical.2 _ _ hprint
  exact ⟨hbefore, hafter, hprint, key, hkey, htrim⟩

end RelayKeeper.Key
