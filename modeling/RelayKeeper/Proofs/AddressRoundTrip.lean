import RelayKeeper.Proofs.IpText
import RelayKeeper.Proofs.TrimmedText

/-! # Reading the text of an address

An address that was read from some text is read again from its own text. The case of letters and
blanks around a text change nothing in what is read: digits count the same in either case, and no
letter is turned into a dot, a colon or a hyphen. -/
namespace RelayKeeper

/-! ## Small letters -/

namespace Net

/-- A character that is no letter is not made of another one. -/
theorem toLower_eq_iff {c d : Char} (hd : d.isAlpha = false) : c.toLower = d ↔ c = d := by
  constructor
  · rintro rfl
    cases h : c.isAlpha with
    | true =>
      rw [Char.isAlpha_toLower_eq_isAlpha, h] at hd
      cases hd
    | false => exact (toLower_of_not_isAlpha h).symm
  · rintro rfl
    exact toLower_of_not_isAlpha hd

theorem isAlphanum_toLower (c : Char) : c.toLower.isAlphanum = c.isAlphanum := by
  cases h : c.isAlpha with
  | true => rw [Char.isAlphanum, Char.isAlphanum, Char.isAlpha_toLower_eq_isAlpha, h, Bool.true_or,
      Bool.true_or]
  | false => rw [toLower_of_not_isAlpha h]

/-- At an end of a text a character that is no letter stands if it stood there before. -/
theorem map_toLower_eq_some_iff {o : Option Char} {d : Char} (hd : d.isAlpha = false) :
    o.map Char.toLower = some d ↔ o = some d := by
  cases o with
  | none => simp
  | some c => simp [toLower_eq_iff hd]

theorem map_toLower_bne_some {o : Option Char} {d : Char} (hd : d.isAlpha = false) :
    (o.map Char.toLower != some d) = (o != some d) := by
  rw [Bool.eq_iff_iff, bne_iff_ne, bne_iff_ne, ne_eq, ne_eq, map_toLower_eq_some_iff hd]

end Net

namespace Text

open Net

theorem not_isBlank_of_isAlpha {c : Char} (h : c.isAlpha = true) : isBlank c = false := by
  have hrange : 65 ≤ c.toNat ∧ c.toNat ≤ 122 := by
    rw [Char.isAlpha, Bool.or_eq_true] at h
    rcases h with h | h
    · simp only [Char.isUpper, decide_eq_true_eq] at h
      exact ⟨h.1, Nat.le_trans h.2 (by decide)⟩
    · simp only [Char.isLower, Bool.and_eq_true, decide_eq_true_eq] at h
      exact ⟨Nat.le_trans (by decide) h.1, h.2⟩
  simp only [isBlank, Bool.or_eq_false_iff, Bool.and_eq_false_iff, decide_eq_false_iff_not,
    beq_eq_false_iff_ne]
  omega

theorem isBlank_toLower (c : Char) : isBlank c.toLower = isBlank c := by
  cases h : c.isAlpha with
  | true =>
    have hlower : c.toLower.isAlpha = true := by rw [Char.isAlpha_toLower_eq_isAlpha, h]
    rw [not_isBlank_of_isAlpha h, not_isBlank_of_isAlpha hlower]
  | false => rw [toLower_of_not_isAlpha h]

theorem trimChars_map_toLower (cs : List Char) :
    trimChars (cs.map Char.toLower) = (trimChars cs).map Char.toLower := by
  have hdrop : ∀ ds : List Char,
      (ds.map Char.toLower).dropWhile isBlank = (ds.dropWhile isBlank).map Char.toLower := by
    intro ds
    have hsame : isBlank ∘ Char.toLower = isBlank := funext isBlank_toLower
    rw [List.dropWhile_map, hsame]
  rw [trimChars, trimChars, trimEndChars, trimEndChars, hdrop, ← List.map_reverse, hdrop,
    List.map_reverse]

theorem splitAt_map_toLower {sep : Char} (hsep : sep.isAlpha = false) (cs : List Char) :
    splitAt sep (cs.map Char.toLower) = (splitAt sep cs).map (·.map Char.toLower) := by
  induction cs with
  | nil => rfl
  | cons c cs ih =>
    rw [List.map_cons, splitAt, splitAt, ih]
    by_cases hc : c = sep
    · rw [if_pos hc, if_pos ((toLower_eq_iff hsep).mpr hc)]
      rfl
    · rw [if_neg hc, if_neg fun h => hc ((toLower_eq_iff hsep).mp h)]
      cases splitAt sep cs <;> rfl

theorem digitValue?_toLower {base : Nat} (hbase : base ≤ 16) (c : Char) :
    digitValue? base c.toLower = digitValue? base c := by
  have hall : ∀ base ≤ 16, ∀ n < 91, 65 ≤ n →
      digitValue? base (Char.ofNat n).toLower = digitValue? base (Char.ofNat n) := by decide
  cases h : c.isUpper with
  | true =>
    simp only [Char.isUpper, decide_eq_true_eq] at h
    have hupper := hall base hbase c.toNat (Nat.lt_succ_of_le h.2) h.1
    rwa [Char.ofNat_toNat] at hupper
  | false => rw [Char.toLower_eq_of_not_isUpper (by simp [h])]

theorem readDigits_map_toLower {base : Nat} (hbase : base ≤ 16) (cs : List Char) (n : Nat) :
    readDigits base n (cs.map Char.toLower) = readDigits base n cs := by
  induction cs generalizing n with
  | nil => rfl
  | cons c cs ih =>
    rw [List.map_cons, readDigits, readDigits, digitValue?_toLower hbase]
    cases digitValue? base c with
    | none => rfl
    | some d => exact ih (base * n + d)

theorem number?_map_toLower {base : Nat} (hbase : base ≤ 16) (cs : List Char) :
    number? base (cs.map Char.toLower) = number? base cs := by
  rw [number?, number?, List.isEmpty_map, readDigits_map_toLower hbase]

end Text

namespace Net

/-! ## IP addresses -/

namespace Ipv4

theorem octet?_map_toLower (cs : List Char) : octet? (cs.map Char.toLower) = octet? cs := by
  rw [octet?, octet?, List.length_map, List.head?_map, map_toLower_bne_some (by decide),
    Text.number?_map_toLower (by decide)]

theorem parse?_map_toLower (cs : List Char) : parse? (cs.map Char.toLower) = parse? cs := by
  rw [parse?, parse?, Text.splitAt_map_toLower (by decide)]
  rcases Text.splitAt '.' cs with _ | ⟨a, _ | ⟨b, _ | ⟨c, _ | ⟨d, _ | ⟨e, more⟩⟩⟩⟩⟩
  · rfl
  · rfl
  · rfl
  · rfl
  · simp only [List.map_cons, List.map_nil, octet?_map_toLower]
  · rfl

end Ipv4

namespace Ipv6

theorem group?_map_toLower (cs : List Char) : group? (cs.map Char.toLower) = group? cs := by
  rw [group?, group?, List.length_map, Text.number?_map_toLower (by decide)]

theorem groupsOf?_map_toLower (dotted : Bool) (pieces : List (List Char)) :
    groupsOf? dotted (pieces.map (·.map Char.toLower)) = groupsOf? dotted pieces := by
  induction pieces with
  | nil => rfl
  | cons piece pieces ih =>
    cases pieces with
    | nil => simp only [List.map_cons, List.map_nil, groupsOf?, Ipv4.parse?_map_toLower,
        group?_map_toLower]
    | cons next pieces =>
      rw [List.map_cons] at ih
      simp only [List.map_cons, groupsOf?, ih, group?_map_toLower]

theorem side?_map_toLower (dotted : Bool) (cs : List Char) :
    side? dotted (cs.map Char.toLower) = side? dotted cs := by
  rw [side?, side?, List.isEmpty_map, Text.splitAt_map_toLower (by decide), groupsOf?_map_toLower]

theorem cutDouble?_map_toLower (cs : List Char) :
    cutDouble? (cs.map Char.toLower) =
      (cutDouble? cs).map fun (a, b) => (a.map Char.toLower, b.map Char.toLower) := by
  have hcolon : ∀ c : Char, c.toLower = ':' → c = ':' := fun c => (toLower_eq_iff (by decide)).mp
  fun_induction cutDouble? cs with
  | case1 rest => rfl
  | case2 c rest hne ih =>
    rw [List.map_cons, cutDouble?, ih, Option.map_map, Option.map_map]
    · rfl
    · -- what is `::` in small letters was it before
      intro more hc hrest
      obtain ⟨d, tail, rfl, hd, -⟩ := List.map_eq_cons_iff.mp hrest
      rw [hcolon d hd] at hne
      exact hne tail (hcolon c hc) rfl
  | case3 => rfl

theorem parse?_map_toLower (cs : List Char) : parse? (cs.map Char.toLower) = parse? cs := by
  rw [parse?, parse?, cutDouble?_map_toLower]
  cases cutDouble? cs with
  | none =>
    simp only [Option.map_none, Text.splitAt_map_toLower (show ':'.isAlpha = false by decide),
      groupsOf?_map_toLower]
  | some halves => simp only [Option.map_some, side?_map_toLower]

end Ipv6

/-! ## Host names -/

theorem isLabel_map_toLower (cs : List Char) : isLabel (cs.map Char.toLower) = isLabel cs := by
  have hhyphen : ∀ c : Char, (c.toLower == '-') = (c == '-') := by
    intro c
    rw [Bool.eq_iff_iff, beq_iff_eq, beq_iff_eq, toLower_eq_iff (by decide)]
  have hchars : (fun c : Char => c.isAlphanum || c == '-') ∘ Char.toLower =
      fun c => c.isAlphanum || c == '-' := by
    funext c
    rw [Function.comp_apply, isAlphanum_toLower, hhyphen]
  rw [isLabel, isLabel, List.isEmpty_map, List.length_map, List.head?_map, List.getLast?_map,
    List.all_map, hchars, map_toLower_bne_some (by decide), map_toLower_bne_some (by decide)]

theorem dropRootDot_map_toLower (cs : List Char) :
    dropRootDot (cs.map Char.toLower) = (dropRootDot cs).map Char.toLower := by
  rw [dropRootDot, dropRootDot, List.getLast?_map]
  by_cases h : cs.getLast? = some '.'
  · rw [if_pos h, if_pos ((map_toLower_eq_some_iff (by decide)).mpr h), List.map_dropLast]
  · rw [if_neg h, if_neg fun hlast => h ((map_toLower_eq_some_iff (by decide)).mp hlast)]

theorem isHostname_map_toLower (cs : List Char) :
    isHostname (cs.map Char.toLower) = isHostname cs := by
  have hlabels : isLabel ∘ List.map Char.toLower = isLabel := funext isLabel_map_toLower
  simp only [isHostname, dropRootDot_map_toLower, List.isEmpty_map, List.length_map,
    Text.splitAt_map_toLower (show '.'.isAlpha = false by decide), List.all_map, hlabels]

/-! ## Addresses -/

namespace Address

theorem ofChars?_map_toLower (cs : List Char) : ofChars? (cs.map Char.toLower) = ofChars? cs := by
  have hlower : (cs.map Char.toLower).map Char.toLower = cs.map Char.toLower := by
    rw [List.map_map]
    exact List.map_congr_left fun c _ => Char.toLower_toLower_eq_toLower c
  rw [ofChars?, ofChars?, Ipv4.parse?_map_toLower, Ipv6.parse?_map_toLower, isHostname_map_toLower,
    hlower]

/-- An address that was read is read again from its text. -/
theorem Read.ofChars?_chars {address : Address} (h : address.Read) :
    ofChars? address.chars = some address := by
  obtain ⟨cs, hcs⟩ := h
  rcases ofChars?_cases hcs with ⟨ip, -, rfl⟩ | ⟨ip, -, -, rfl⟩ | ⟨-, -, -, rfl⟩
  · rw [chars, ofChars?, ip.parse?_chars]
  · have h4 : Ipv4.parse? ip.chars = none :=
      Ipv4.parse?_eq_none_of_mem ip.mem_chars_colon (by decide) (by decide)
    rw [chars, ofChars?, h4, ip.parse?_chars]
  · -- a host name is the text that it was read from, in small letters
    rw [chars, ofChars?_map_toLower, hcs]

/-- Nothing in the text is blank, so that trimming leaves it as it is. -/
theorem Read.trimmed_chars {address : Address} (h : address.Read) : Text.Trimmed address.chars := by
  obtain ⟨cs, hcs⟩ := h
  have hall : ∀ c ∈ address.chars, Text.isBlank c = false := by
    intro c hc
    obtain ⟨hlow, hhigh⟩ := toNat_of_isAddressChar (isAddressChar_chars hcs c hc)
    simp only [Text.isBlank, Bool.or_eq_false_iff, Bool.and_eq_false_iff, decide_eq_false_iff_not,
      beq_eq_false_iff_ne]
    omega
  exact ⟨fun c hc => hall c (List.mem_of_head? hc), fun c hc => hall c (List.mem_of_getLast? hc)⟩

theorem Read.parse_text {address : Address} (h : address.Read) : parse address.text = .ok address := by
  rw [parse, text, String.toList_ofList, h.trimmed_chars.trimChars_eq, h.ofChars?_chars]

theorem Read.chars_ne_nil {address : Address} (h : address.Read) : address.chars ≠ [] := by
  intro hnil
  have hread := h.ofChars?_chars
  rw [hnil] at hread
  cases hread

/-! ## Spellings -/

def SameLetter (c d : Char) : Prop := d = c ∨ d = c.toLower ∨ d = c.toUpper

instance (c d : Char) : Decidable (SameLetter c d) :=
  inferInstanceAs (Decidable (_ ∨ _ ∨ _))

/-- The other text has the same characters, up to the case of letters, and blanks around them. -/
def Respelt (text other : String) : Prop :=
  ∃ before body after, Text.Blanks before ∧ List.Forall₂ SameLetter text.toList body ∧
    Text.Blanks after ∧ other.toList = before ++ body ++ after

theorem SameLetter.toLower_eq {c d : Char} (h : SameLetter c d) : d.toLower = c.toLower := by
  rcases h with rfl | rfl | rfl
  · rfl
  · exact Char.toLower_toLower_eq_toLower c
  · exact Char.toLower_toUpper_eq_toLower c

theorem map_toLower_of_sameLetter {cs ds : List Char} (h : List.Forall₂ SameLetter cs ds) :
    ds.map Char.toLower = cs.map Char.toLower := by
  induction h with
  | nil => rfl
  | cons hc _ ih => rw [List.map_cons, List.map_cons, hc.toLower_eq, ih]

/-- What is between the blanks is the same, in small letters. -/
theorem Respelt.map_toLower_trimChars {text other : String} (h : Respelt text other) :
    (Text.trimChars other.toList).map Char.toLower =
      (Text.trimChars text.toList).map Char.toLower := by
  obtain ⟨before, body, after, hbefore, hbody, hafter, hother⟩ := h
  rw [hother, Text.trimChars_between _ hbefore hafter, ← Text.trimChars_map_toLower,
    map_toLower_of_sameLetter hbody, Text.trimChars_map_toLower]

theorem Respelt.ofChars?_eq {text other : String} (h : Respelt text other) :
    ofChars? (Text.trimChars other.toList) = ofChars? (Text.trimChars text.toList) := by
  rw [← ofChars?_map_toLower, h.map_toLower_trimChars, ofChars?_map_toLower]

theorem parse_eq_ok_iff {text : String} {address : Address} :
    parse text = .ok address ↔ ofChars? (Text.trimChars text.toList) = some address := by
  rw [parse]
  cases ofChars? (Text.trimChars text.toList) with
  | none => simp
  | some found => simp

/-- The text of an address is read as the address, and so is every other spelling of the text that
the address was read from. -/
theorem parse_round_trip {text : String} {address : Address} (h : parse text = .ok address) :
    parse address.text = .ok address ∧
      ∀ other, Respelt text other → parse other = .ok address := by
  constructor
  · exact (read_of_parse h).parse_text
  · intro other hother
    rw [parse_eq_ok_iff, hother.ofChars?_eq]
    exact parse_eq_ok_iff.mp h

/-- Numbers with a dot behind them are no IP address but a name. -/
theorem parse_round_trip_rooted :
    parse "Relay.10.0.0.1." = .ok (.hostname "relay.10.0.0.1.".toList) ∧
      parse "relay.10.0.0.1." = .ok (.hostname "relay.10.0.0.1.".toList) ∧
      parse "\u2003 rELAY.10.0.0.1.\n" = .ok (.hostname "relay.10.0.0.1.".toList) := by
  have hread : parse "Relay.10.0.0.1." = .ok (.hostname "relay.10.0.0.1.".toList) := by decide +kernel
  have hother : Respelt "Relay.10.0.0.1." "\u2003 rELAY.10.0.0.1.\n" :=
    ⟨"\u2003 ".toList, "rELAY.10.0.0.1.".toList, "\n".toList, by decide, by decide, by decide, rfl⟩
  obtain ⟨htext, hspelt⟩ := parse_round_trip hread
  exact ⟨hread, htext, hspelt _ hother⟩

end Address

end Net

end RelayKeeper
