import Mathlib.Tactic.SplitIfs
import RelayKeeper.Text.Utf8

/-! # Decoded text

Decoding keeps every byte that is a character on its own, wherever it stands: no piece that is
replaced takes such a byte with it. -/
namespace RelayKeeper.Text

def IsSingle (b : UInt8) : Prop := b < 0x80

instance (b : UInt8) : Decidable (IsSingle b) :=
  inferInstanceAs (Decidable (_ < _))

theorem leadByte?_of_single {b : UInt8} (h : IsSingle b) :
    leadByte? b = some (0, b.toNat, 0x80, 0xBF) :=
  if_pos h

/-- The first continuation byte that a lead byte asks for is none that stands on its own. -/
theorem le_low_of_leadByte? {b low high : UInt8} {due value : Nat}
    (h : leadByte? b = some (due, value, low, high)) : 0x80 ≤ low := by
  unfold leadByte? at h
  split_ifs at h <;> cases h <;> decide

/-- The continuation of a character leaves the bytes that stand on their own. -/
theorem mem_readContinuation {b low high : UInt8} {due value : Nat} {bytes : List UInt8}
    (hsingle : IsSingle b) (hlow : 0x80 ≤ low) (h : b ∈ bytes) :
    b ∈ (readContinuation due value low high bytes).2 := by
  induction due generalizing value low high bytes with
  | zero => exact h
  | succ due ih =>
    cases bytes with
    | nil => cases h
    | cons a rest =>
      rw [readContinuation]
      split
      case isFalse => exact h
      case isTrue hfits =>
        rw [Bool.and_eq_true, decide_eq_true_eq] at hfits
        rcases List.mem_cons.mp h with rfl | h
        · rw [IsSingle, UInt8.lt_iff_toNat_lt] at hsingle
          rw [UInt8.le_iff_toNat_le] at hlow hfits
          omega
        · exact ih (by decide) h

theorem mem_readChar {a b : UInt8} {rest : List UInt8} (hsingle : IsSingle b) (h : b ∈ rest) :
    b ∈ (readChar a rest).2 := by
  unfold readChar
  cases hlead : leadByte? a with
  | none => exact h
  | some lead => exact mem_readContinuation hsingle (le_low_of_leadByte? hlead) h

theorem readChar_of_single {b : UInt8} (h : IsSingle b) (rest : List UInt8) :
    readChar b rest = (some (Char.ofNat b.toNat), rest) := by
  rw [readChar, leadByte?_of_single h]
  rfl

theorem decodePieces_cons_of_single {b : UInt8} (h : IsSingle b) (rest : List UInt8) :
    decodePieces (b :: rest) = some (Char.ofNat b.toNat) :: decodePieces rest := by
  rw [decodePieces, readChar_of_single h]

theorem mem_decodePieces {b : UInt8} (hsingle : IsSingle b) {bytes : List UInt8} (h : b ∈ bytes) :
    some (Char.ofNat b.toNat) ∈ decodePieces bytes := by
  induction bytes using decodePieces.induct with
  | case1 => cases h
  | case2 a rest ih =>
    rcases List.mem_cons.mp h with rfl | h
    · rw [decodePieces_cons_of_single hsingle]
      exact List.mem_cons_self
    · rw [decodePieces]
      exact List.mem_cons_of_mem _ (ih (mem_readChar hsingle h))

/-- A byte that is a character on its own is decoded to that character. -/
theorem mem_decode {b : UInt8} (hsingle : IsSingle b) {bytes : List UInt8} (h : b ∈ bytes) :
    Char.ofNat b.toNat ∈ decode bytes :=
  List.mem_map.mpr ⟨_, mem_decodePieces hsingle h, rfl⟩

/-- Bytes that are all characters on their own are decoded one by one. -/
theorem decode_of_singles {bytes : List UInt8} (h : ∀ b ∈ bytes, IsSingle b) :
    decode bytes = bytes.map fun b => Char.ofNat b.toNat := by
  induction bytes with
  | nil => simp [decode, decodePieces]
  | cons b rest ih =>
    have hrest := ih fun a ha => h a (List.mem_cons_of_mem _ ha)
    rw [decode] at hrest ⊢
    rw [decodePieces_cons_of_single (h b List.mem_cons_self), List.map_cons, hrest, List.map_cons]
    rfl

end RelayKeeper.Text
