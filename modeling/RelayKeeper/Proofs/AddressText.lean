import Mathlib
import RelayKeeper.Net.Address

/-! # The text of an address

An address that was read is written with few characters: small letters, digits, dots, colons and
hyphens. Nothing in it can end a line or a word. -/
namespace RelayKeeper

namespace Net

def isAddressChar (c : Char) : Bool :=
  c.isLower || c.isDigit || c == '.' || c == ':' || c == '-'

theorem toNat_of_isAddressChar {c : Char} (h : isAddressChar c = true) :
    45 ≤ c.toNat ∧ c.toNat ≤ 122 := by
  simp only [isAddressChar, Bool.or_eq_true, beq_iff_eq] at h
  rcases h with (((h | h) | rfl) | rfl) | rfl
  · simp only [Char.isLower, Bool.and_eq_true, decide_eq_true_eq] at h
    exact ⟨Nat.le_trans (by decide) h.1, h.2⟩
  · simp only [Char.isDigit, Bool.and_eq_true, decide_eq_true_eq] at h
    exact ⟨Nat.le_trans (by decide) h.1, Nat.le_trans h.2 (by decide)⟩
  · decide
  · decide
  · decide

/-! ## Numbers -/

theorem isAddressChar_digitChar {d : Nat} (h : d < 16) : isAddressChar d.digitChar = true := by
  have hall : ∀ d < 16, isAddressChar (Nat.digitChar d) = true := by decide
  exact hall d h

theorem isAddressChar_toDigits {base : Nat} (hlow : 1 < base) (hhigh : base ≤ 16) (n : Nat) :
    ∀ c ∈ Nat.toDigits base n, isAddressChar c = true := by
  induction n using Nat.strongRecOn with
  | ind n ih =>
    by_cases hn : n < base
    · rw [Nat.toDigits_of_lt_base hn]
      intro c hc
      obtain rfl := List.mem_singleton.mp hc
      exact isAddressChar_digitChar (by omega)
    · rw [Nat.toDigits_of_base_le hlow (by omega)]
      intro c hc
      rcases List.mem_append.mp hc with hc | hc
      · exact ih (n / base) (Nat.div_lt_self (by omega) hlow) c hc
      · obtain rfl := List.mem_singleton.mp hc
        have hmod := Nat.mod_lt n (show 0 < base by omega)
        exact isAddressChar_digitChar (by omega)

theorem Ipv4.isAddressChar_chars (ip : Ipv4) : ∀ c ∈ ip.chars, isAddressChar c = true := by
  have hoctet : ∀ (n : UInt8) (c : Char), c ∈ octetChars n → isAddressChar c = true :=
    fun n => isAddressChar_toDigits (by decide) (by decide) n.toNat
  intro c hc
  simp only [chars, List.mem_append, List.mem_cons, or_assoc] at hc
  rcases hc with h | rfl | h | rfl | h | rfl | h
  · exact hoctet _ c h
  · decide
  · exact hoctet _ c h
  · decide
  · exact hoctet _ c h
  · decide
  · exact hoctet _ c h

theorem mem_joinWith {sep : List Char} {c : Char} {pieces : List (List Char)}
    (h : c ∈ Text.joinWith sep pieces) : c ∈ sep ∨ ∃ piece ∈ pieces, c ∈ piece := by
  induction pieces with
  | nil => cases h
  | cons piece pieces ih =>
    cases pieces with
    | nil => exact .inr ⟨piece, by simp, h⟩
    | cons next pieces =>
      rw [Text.joinWith, List.append_assoc, List.mem_append, List.mem_append] at h
      · rcases h with h | h | h
        · exact .inr ⟨piece, by simp, h⟩
        · exact .inl h
        · rcases ih h with h | ⟨other, hm, h⟩
          · exact .inl h
          · exact .inr ⟨other, List.mem_cons_of_mem _ hm, h⟩
      · exact List.cons_ne_nil _ _

theorem Ipv6.isAddressChar_groupsChars (gs : List UInt16) :
    ∀ c ∈ groupsChars gs, isAddressChar c = true := by
  intro c hc
  rcases mem_joinWith hc with h | ⟨piece, hpiece, h⟩
  · obtain rfl := List.mem_singleton.mp h
    decide
  · obtain ⟨g, -, rfl⟩ := List.mem_map.mp hpiece
    exact isAddressChar_toDigits (by decide) (by decide) g.toNat c h

theorem Ipv6.isAddressChar_chars (ip : Ipv6) : ∀ c ∈ ip.chars, isAddressChar c = true := by
  intro c hc
  rw [chars] at hc
  cases hm : ip.mapped? with
  | some v4 =>
    rw [hm] at hc
    rcases List.mem_append.mp hc with h | h
    · have hmarker : "::ffff:".toList.all isAddressChar = true := by decide
      exact List.all_eq_true.mp hmarker c h
    · exact v4.isAddressChar_chars c h
  | none =>
    rw [hm] at hc
    simp only [hexChars] at hc
    by_cases hz : 2 ≤ (longestZeros ip.toList).2
    · rw [if_pos hz] at hc
      simp only [List.mem_append, List.mem_cons] at hc
      rcases hc with h | rfl | rfl | h
      · exact isAddressChar_groupsChars _ c h
      · decide
      · decide
      · exact isAddressChar_groupsChars _ c h
    · rw [if_neg hz] at hc
      exact isAddressChar_groupsChars _ c hc

/-! ## Host names -/

theorem mem_splitAt (sep : Char) {c : Char} {cs : List Char} (h : c ∈ cs) :
    c = sep ∨ ∃ piece ∈ Text.splitAt sep cs, c ∈ piece := by
  rw [← Text.joinWith_splitAt sep cs] at h
  rcases mem_joinWith h with h | h
  · exact .inl (List.mem_singleton.mp h)
  · exact .inr h

theorem mem_of_mem_dropRootDot {c : Char} {cs : List Char} (h : c ∈ cs) :
    c = '.' ∨ c ∈ dropRootDot cs := by
  rw [dropRootDot]
  by_cases hdot : cs.getLast? = some '.'
  · rw [if_pos hdot]
    obtain ⟨front, rfl⟩ := List.getLast?_eq_some_iff.mp hdot
    rw [List.dropLast_concat]
    rcases List.mem_append.mp h with h | h
    · exact .inr h
    · exact .inl (List.mem_singleton.mp h)
  · rw [if_neg hdot]
    exact .inr h

theorem of_isHostname {cs : List Char} (h : isHostname cs = true) :
    ∀ c ∈ cs, c.isAlphanum = true ∨ c = '.' ∨ c = '-' := by
  intro c hc
  simp only [isHostname, Bool.and_eq_true, List.all_eq_true] at h
  rcases mem_of_mem_dropRootDot hc with rfl | hc
  · exact .inr (.inl rfl)
  rcases mem_splitAt '.' hc with rfl | ⟨label, hlabel, hc⟩
  · exact .inr (.inl rfl)
  have hall := h.2 label hlabel
  simp only [isLabel, Bool.and_eq_true, List.all_eq_true, Bool.or_eq_true, beq_iff_eq] at hall
  rcases hall.2 c hc with h | h
  · exact .inl h
  · exact .inr (.inr h)

theorem toLower_of_not_isAlpha {c : Char} (h : c.isAlpha = false) : c.toLower = c := by
  rw [Char.isAlpha, Bool.or_eq_false_iff] at h
  apply Char.toLower_eq_of_not_isUpper
  simp [h.1]

theorem isAddressChar_toLower {c : Char} (h : c.isAlphanum = true ∨ c = '.' ∨ c = '-') :
    isAddressChar c.toLower = true := by
  rcases h with h | rfl | rfl
  · cases hc : c.isAlpha with
    | true => simp [isAddressChar, hc]
    | false =>
      have hdigit : c.isDigit = true := by simpa [Char.isAlphanum, hc] using h
      rw [toLower_of_not_isAlpha hc]
      simp [isAddressChar, hdigit]
  · decide
  · decide

namespace Address

/-- An IPv4 address comes first, then an IPv6 address, then a host name. -/
theorem ofChars?_cases {cs : List Char} {address : Address} (h : ofChars? cs = some address) :
    (∃ ip, Ipv4.parse? cs = some ip ∧ address = .ipv4 ip) ∨
      (∃ ip, Ipv4.parse? cs = none ∧ Ipv6.parse? cs = some ip ∧ address = .ipv6 ip) ∨
      (Ipv4.parse? cs = none ∧ Ipv6.parse? cs = none ∧ isHostname cs = true ∧
        address = .hostname (cs.map Char.toLower)) := by
  rw [ofChars?] at h
  cases h4 : Ipv4.parse? cs with
  | some ip =>
    rw [h4] at h
    exact .inl ⟨ip, rfl, (Option.some.inj h).symm⟩
  | none =>
    rw [h4] at h
    cases h6 : Ipv6.parse? cs with
    | some ip =>
      rw [h6] at h
      exact .inr (.inl ⟨ip, rfl, rfl, (Option.some.inj h).symm⟩)
    | none =>
      rw [h6] at h
      dsimp only at h
      by_cases hname : isHostname cs = true
      · rw [if_pos hname] at h
        exact .inr (.inr ⟨rfl, rfl, hname, (Option.some.inj h).symm⟩)
      · rw [if_neg hname] at h
        cases h

theorem isAddressChar_chars {cs : List Char} {address : Address}
    (h : ofChars? cs = some address) : ∀ c ∈ address.chars, isAddressChar c = true := by
  rcases ofChars?_cases h with ⟨ip, -, rfl⟩ | ⟨ip, -, -, rfl⟩ | ⟨-, -, hname, rfl⟩
  · exact ip.isAddressChar_chars
  · exact ip.isAddressChar_chars
  · intro c hc
    obtain ⟨d, hd, rfl⟩ := List.mem_map.mp hc
    exact isAddressChar_toLower (of_isHostname hname d hd)

def Read (address : Address) : Prop := ∃ cs, ofChars? cs = some address

theorem Read.isAddressChar_text {address : Address} (h : address.Read) :
    ∀ c ∈ address.text.toList, isAddressChar c = true := by
  obtain ⟨cs, hcs⟩ := h
  rw [text, String.toList_ofList]
  exact isAddressChar_chars hcs

theorem read_of_parse {text : String} {address : Address} (h : parse text = .ok address) :
    address.Read := by
  rw [parse] at h
  cases hcs : ofChars? (Text.trimChars text.toList) with
  | some found =>
    rw [hcs] at h
    obtain rfl := Except.ok.inj h
    exact ⟨_, hcs⟩
  | none =>
    rw [hcs] at h
    cases h

end Address

end Net

end RelayKeeper
