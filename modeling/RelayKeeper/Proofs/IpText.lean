import RelayKeeper.Proofs.AddressText
import RelayKeeper.Proofs.PathSteps

/-! # Reading the text of an IP address

Whatever an IP address is written as is read as this address: numbers in decimal or hexadecimal,
zeros that `::` stands for, and the dotted tail of a mapped address. -/
namespace RelayKeeper

namespace Text

/-! ## Numbers -/

theorem readDigits_append (base : Nat) (cs ds : List Char) (n : Nat) :
    readDigits base n (cs ++ ds) = (readDigits base n cs).bind fun m => readDigits base m ds := by
  induction cs generalizing n with
  | nil => rfl
  | cons c cs ih =>
    rw [List.cons_append, readDigits, readDigits]
    cases digitValue? base c with
    | none => rfl
    | some d => exact ih (base * n + d)

theorem digitValue?_digitChar {base d : Nat} (hbase : base ≤ 16) (hd : d < base) :
    digitValue? base d.digitChar = some d := by
  have hall : ∀ base ≤ 16, ∀ d < base, digitValue? base d.digitChar = some d := by decide
  exact hall base hbase d hd

theorem readDigits_digitChar {base d : Nat} (hbase : base ≤ 16) (hd : d < base) (n : Nat) :
    readDigits base n [d.digitChar] = some (base * n + d) := by
  rw [readDigits, digitValue?_digitChar hbase hd]
  rfl

theorem readDigits_toDigits {base : Nat} (hlow : 1 < base) (hhigh : base ≤ 16) (n : Nat) :
    readDigits base 0 (Nat.toDigits base n) = some n := by
  induction n using Nat.strongRecOn with
  | ind n ih =>
    by_cases hn : n < base
    · rw [Nat.toDigits_of_lt_base hn, readDigits_digitChar hhigh hn, Nat.mul_zero, Nat.zero_add]
    · have hmod : n % base < base := Nat.mod_lt n (by omega)
      rw [Nat.toDigits_of_base_le hlow (by omega), readDigits_append,
        ih (n / base) (Nat.div_lt_self (by omega) hlow), Option.bind_some,
        readDigits_digitChar hhigh hmod, Nat.div_add_mod]

theorem number?_toDigits {base : Nat} (hlow : 1 < base) (hhigh : base ≤ 16) (n : Nat) :
    number? base (Nat.toDigits base n) = some n := by
  rw [number?, if_neg, readDigits_toDigits hlow hhigh]
  simp [Nat.toDigits_ne_nil]

/-- A number is made of digits only. -/
theorem isDigitOf_of_readDigits {base n m : Nat} {cs : List Char}
    (h : readDigits base n cs = some m) : ∀ c ∈ cs, isDigitOf base c = true := by
  induction cs generalizing n with
  | nil => simp
  | cons d cs ih =>
    rw [readDigits] at h
    cases hd : digitValue? base d with
    | none =>
      rw [hd] at h
      cases h
    | some v =>
      rw [hd] at h
      intro c hc
      rcases List.mem_cons.mp hc with rfl | hc
      · rw [isDigitOf, hd]
        rfl
      · exact ih h c hc

end Text

namespace Net

/-! ## IPv4 -/

namespace Ipv4

theorem octet?_octetChars (n : UInt8) : octet? (octetChars n) = some n := by
  have hall : ∀ n < 256, octet? (octetChars (UInt8.ofNat n)) = some (UInt8.ofNat n) := by
    decide +kernel
  have hn := hall n.toNat n.toNat_lt
  rwa [UInt8.ofNat_toNat] at hn

theorem isDigitOf_of_octet? {cs : List Char} {n : UInt8} (h : octet? cs = some n) :
    ∀ c ∈ cs, Text.isDigitOf 10 c = true := by
  rw [octet?] at h
  split at h
  · cases hn : Text.number? 10 cs with
    | none =>
      rw [hn] at h
      cases h
    | some m =>
      rw [Text.number?] at hn
      split at hn
      · cases hn
      · exact Text.isDigitOf_of_readDigits hn
  · cases h

theorem isDigitOf_octetChars (n : UInt8) : ∀ c ∈ octetChars n, Text.isDigitOf 10 c = true :=
  isDigitOf_of_octet? (octet?_octetChars n)

/-- What is no digit does not occur in an octet. -/
theorem notMem_octetChars {c : Char} (h : Text.isDigitOf 10 c = false) (n : UInt8) :
    c ∉ octetChars n := by
  intro hc
  rw [isDigitOf_octetChars n c hc] at h
  cases h

/-- Digits and dots are all that an address is made of. -/
theorem isDigitOf_of_parse? {cs : List Char} {ip : Ipv4} (h : parse? cs = some ip) :
    ∀ c ∈ cs, Text.isDigitOf 10 c = true ∨ c = '.' := by
  intro c hc
  rw [parse?] at h
  split at h
  · next a b d e hsplit =>
    obtain ⟨na, ha, h⟩ := Option.bind_eq_some_iff.mp h
    obtain ⟨nb, hb, h⟩ := Option.bind_eq_some_iff.mp h
    obtain ⟨nd, hd, h⟩ := Option.bind_eq_some_iff.mp h
    obtain ⟨ne, he, h⟩ := Option.bind_eq_some_iff.mp h
    rcases mem_splitAt '.' hc with rfl | ⟨piece, hpiece, hc⟩
    · exact .inr rfl
    · left
      rw [hsplit] at hpiece
      simp only [List.mem_cons, List.not_mem_nil, or_false] at hpiece
      rcases hpiece with rfl | rfl | rfl | rfl
      · exact isDigitOf_of_octet? ha c hc
      · exact isDigitOf_of_octet? hb c hc
      · exact isDigitOf_of_octet? hd c hc
      · exact isDigitOf_of_octet? he c hc
  · cases h

theorem parse?_eq_none_of_mem {cs : List Char} {c : Char} (hc : c ∈ cs)
    (hdigit : Text.isDigitOf 10 c = false) (hdot : c ≠ '.') : parse? cs = none := by
  cases h : parse? cs with
  | none => rfl
  | some ip =>
    rcases isDigitOf_of_parse? h c hc with h | h
    · rw [h] at hdigit
      cases hdigit
    · exact absurd h hdot

theorem parse?_eq_none_of_notMem {cs : List Char} (h : '.' ∉ cs) : parse? cs = none := by
  rw [parse?, Text.splitAt_of_notMem h]

theorem chars_eq (ip : Ipv4) :
    ip.chars = Text.joinWith ['.']
      [octetChars ip.a, octetChars ip.b, octetChars ip.c, octetChars ip.d] := by
  simp [chars, Text.joinWith]

theorem parse?_chars (ip : Ipv4) : parse? ip.chars = some ip := by
  have hdot : ∀ n, '.' ∉ octetChars n := notMem_octetChars (by decide)
  have hsplit : Text.splitAt '.' ip.chars =
      [octetChars ip.a, octetChars ip.b, octetChars ip.c, octetChars ip.d] := by
    rw [chars_eq]
    apply Text.splitAt_joinWith (by simp)
    simp [hdot]
  rw [parse?, hsplit]
  simp [octet?_octetChars]

theorem notMem_chars_colon (ip : Ipv4) : ':' ∉ ip.chars := by
  intro h
  rcases isDigitOf_of_parse? ip.parse?_chars ':' h with h | h
  · exact absurd h (by decide)
  · exact absurd h (by decide)

/-- A pair of groups is made of the octets of the address that it stands for. -/
theorem groups_ofGroups (high low : UInt16) : (ofGroups high low).groups = [high, low] := by
  have hpair : ∀ g : UInt16, (g >>> 8).toUInt8.toUInt16 <<< 8 ||| g.toUInt8.toUInt16 = g := by
    intro g
    apply UInt16.toNat_inj.mp
    have hlt := g.toNat_lt
    have hhigh : (g >>> 8).toUInt8.toNat = g.toNat / 256 := by
      rw [UInt16.toNat_toUInt8, UInt16.toNat_shiftRight, Nat.shiftRight_eq_div_pow]
      change g.toNat / 256 % 256 = _
      omega
    have hshift : ((g >>> 8).toUInt8.toUInt16 <<< 8).toNat = 2 ^ 8 * (g.toNat / 256) := by
      rw [UInt16.toNat_shiftLeft, UInt8.toNat_toUInt16, hhigh, Nat.shiftLeft_eq]
      change g.toNat / 256 * 256 % 65536 = 256 * _
      omega
    have hlow : g.toUInt8.toUInt16.toNat = g.toNat % 256 := by
      rw [UInt8.toNat_toUInt16, UInt16.toNat_toUInt8]
    rw [UInt16.toNat_or, hshift, hlow, ← Nat.two_pow_add_eq_or_of_lt (by omega)]
    omega
  simp only [groups, ofGroups, hpair]

end Ipv4

/-! ## IPv6 -/

namespace Ipv6

theorem ofList?_toList (ip : Ipv6) : ofList? ip.toList = some ip := by
  obtain ⟨⟨⟨groups⟩, hsize⟩⟩ := ip
  have hlen : groups.length = 8 := by simpa using hsize
  simp [ofList?, toList, hlen]

theorem length_toList (ip : Ipv6) : ip.toList.length = 8 := by
  simp [toList]

theorem group?_groupChars (g : UInt16) : group? (groupChars g) = some g := by
  have hlen : (groupChars g).length ≤ 4 :=
    (Nat.length_toDigits_le_iff (by decide) (by decide)).mpr g.toNat_lt
  rw [group?, if_pos hlen, groupChars, Text.number?_toDigits (by decide) (by decide)]
  simp

theorem isDigitOf_groupChars (g : UInt16) : ∀ c ∈ groupChars g, Text.isDigitOf 16 c = true :=
  Text.isDigitOf_of_readDigits (Text.readDigits_toDigits (by decide) (by decide) g.toNat)

theorem notMem_groupChars {c : Char} (h : Text.isDigitOf 16 c = false) (g : UInt16) :
    c ∉ groupChars g := by
  intro hc
  rw [isDigitOf_groupChars g c hc] at h
  cases h

theorem groupChars_ne_nil (g : UInt16) : groupChars g ≠ [] := Nat.toDigits_ne_nil

theorem groupsOf?_groupChars (dotted : Bool) (gs : List UInt16) :
    groupsOf? dotted (gs.map groupChars) = some gs := by
  induction gs with
  | nil => rfl
  | cons g gs ih =>
    cases gs with
    | nil =>
      have hnone : Ipv4.parse? (groupChars g) = none :=
        Ipv4.parse?_eq_none_of_notMem (notMem_groupChars (by decide) g)
      cases dotted <;> simp [groupsOf?, hnone, group?_groupChars]
    | cons h gs =>
      rw [List.map_cons, List.map_cons, groupsOf?]
      · rw [← List.map_cons, ih, group?_groupChars]
        rfl
      · simp

theorem splitAt_groupsChars {gs : List UInt16} (h : gs ≠ []) :
    Text.splitAt ':' (groupsChars gs) = gs.map groupChars := by
  apply Text.splitAt_joinWith
  · simpa using h
  · intro piece hpiece
    obtain ⟨g, -, rfl⟩ := List.mem_map.mp hpiece
    exact notMem_groupChars (by decide) g

/-- The groups on one side of `::` are read as they were written. -/
theorem side?_groupsChars (dotted : Bool) (gs : List UInt16) :
    side? dotted (groupsChars gs) = some gs := by
  cases gs with
  | nil => rfl
  | cons g gs =>
    have hne : (groupsChars (g :: gs)).isEmpty = false := by
      cases gs <;> simp [groupsChars, Text.joinWith, groupChars_ne_nil]
    rw [side?, hne, splitAt_groupsChars (by simp), groupsOf?_groupChars]
    rfl

/-! ### Where `::` stands -/

theorem cutDouble?_append {piece : List Char} (rest : List Char) (h : ':' ∉ piece) :
    cutDouble? (piece ++ rest) = (cutDouble? rest).map fun (a, b) => (piece ++ a, b) := by
  induction piece with
  | nil => simp
  | cons c piece ih =>
    have hc : c ≠ ':' := by
      rintro rfl
      exact h (by simp)
    have hpiece : ':' ∉ piece := fun hmem => h (List.mem_cons_of_mem c hmem)
    rw [List.cons_append, cutDouble?, ih hpiece, Option.map_map]
    · rfl
    · rintro rest rfl
      exact absurd rfl hc

/-- A colon before something else is no `::`. -/
theorem cutDouble?_colon {c : Char} {rest : List Char} (h : c ≠ ':') :
    cutDouble? (':' :: c :: rest) =
      (cutDouble? (c :: rest)).map fun (a, b) => (':' :: a, b) := by
  rw [cutDouble?]
  intro more _ heq
  exact h (List.cons.inj heq).1

/-- Between groups there is no `::`, so the first one stands behind them. -/
theorem cutDouble?_groupsChars (gs : List UInt16) (rest : List Char) :
    cutDouble? (groupsChars gs ++ rest) =
      (cutDouble? rest).map fun (a, b) => (groupsChars gs ++ a, b) := by
  induction gs with
  | nil => simp [groupsChars, Text.joinWith]
  | cons g gs ih =>
    have hcolon := notMem_groupChars (c := ':') (by decide) g
    cases gs with
    | nil => exact cutDouble?_append rest hcolon
    | cons k gs =>
      -- a group has a digit, which keeps its colon and the next one apart
      obtain ⟨c, cs, hk⟩ := List.exists_cons_of_ne_nil (groupChars_ne_nil k)
      have hc : c ≠ ':' := by
        rintro rfl
        exact notMem_groupChars (c := ':') (by decide) k (by simp [hk])
      have hnext : ∃ more, groupsChars (k :: gs) = c :: more := by
        cases gs <;> simp [groupsChars, Text.joinWith, hk]
      obtain ⟨more, hmore⟩ := hnext
      have hjoin : groupsChars (g :: k :: gs) = groupChars g ++ ':' :: groupsChars (k :: gs) := by
        simp [groupsChars, Text.joinWith]
      rw [hjoin, List.append_assoc, cutDouble?_append _ hcolon, List.cons_append, hmore,
        List.cons_append, cutDouble?_colon hc, ← List.cons_append, ← hmore, ih, Option.map_map,
        Option.map_map]
      apply Option.map_congr
      rintro ⟨a, b⟩ -
      simp

/-! ### Zeros that are left out -/

theorem take_zerosAtStart (gs : List UInt16) :
    gs = List.replicate (zerosAtStart gs) 0 ++ gs.drop (zerosAtStart gs) := by
  induction gs with
  | nil => rfl
  | cons g gs ih =>
    rw [zerosAtStart]
    by_cases hg : g = 0
    · rw [if_pos hg, List.replicate_succ, List.drop_succ_cons, List.cons_append, ← ih, hg]
    · rw [if_neg hg]
      rfl

/-- The longest run is a run of zeros. -/
theorem eq_append_longestZeros {gs : List UInt16} {start length : Nat}
    (h : longestZeros gs = (start, length)) :
    gs = gs.take start ++ List.replicate length 0 ++ gs.drop (start + length) ∧
      start + length ≤ gs.length := by
  induction gs generalizing start length with
  | nil =>
    obtain ⟨rfl, rfl⟩ := Prod.mk.inj h
    simp
  | cons g gs ih =>
    rw [longestZeros] at h
    cases hrest : longestZeros gs with
    | mk first most =>
      rw [hrest] at h
      dsimp only at h
      by_cases hhere : most ≤ zerosAtStart (g :: gs)
      · rw [if_pos hhere] at h
        obtain ⟨rfl, rfl⟩ := Prod.mk.inj h
        have hsplit := take_zerosAtStart (g :: gs)
        refine ⟨by simpa using hsplit, ?_⟩
        have hlen := congrArg List.length hsplit
        rw [List.length_append, List.length_replicate] at hlen
        omega
      · rw [if_neg hhere] at h
        obtain ⟨rfl, rfl⟩ := Prod.mk.inj h
        obtain ⟨hsplit, hle⟩ := ih hrest
        constructor
        · rw [List.take_succ_cons, Nat.add_right_comm, List.drop_succ_cons, List.cons_append,
            List.cons_append, ← hsplit]
        · rw [List.length_cons]
          omega

/-! ### The whole text -/

theorem parse?_hexChars (ip : Ipv6) : parse? (hexChars ip.toList) = some ip := by
  have hlen := ip.length_toList
  cases hzeros : longestZeros ip.toList with
  | mk start length =>
    rw [hexChars, hzeros]
    dsimp only
    by_cases htwo : 2 ≤ length
    · rw [if_pos htwo]
      obtain ⟨hsplit, hle⟩ := eq_append_longestZeros hzeros
      have hcut : ∀ rest, cutDouble? (groupsChars (ip.toList.take start) ++ ':' :: ':' :: rest) =
          some (groupsChars (ip.toList.take start), rest) := by
        intro rest
        rw [cutDouble?_groupsChars]
        simp [cutDouble?]
      -- the groups that `::` stands for are those that the two sides leave open
      have hfill : 8 - (ip.toList.take start).length - (ip.toList.drop (start + length)).length =
          length := by
        rw [List.length_take, List.length_drop]
        omega
      have hfew : (ip.toList.take start).length + (ip.toList.drop (start + length)).length ≤ 7 := by
        rw [List.length_take, List.length_drop]
        omega
      rw [parse?, hcut]
      simp only [side?_groupsChars, bind, Option.bind, if_pos hfew, hfill, ← hsplit,
        ofList?_toList]
    · rw [if_neg htwo]
      have hcut : cutDouble? (groupsChars ip.toList) = none := by
        have h := cutDouble?_groupsChars ip.toList []
        rwa [List.append_nil] at h
      have hne : ip.toList ≠ [] := by
        intro h
        rw [h] at hlen
        cases hlen
      rw [parse?, hcut]
      simp only [splitAt_groupsChars hne, groupsOf?_groupChars, bind, Option.bind, ofList?_toList]

theorem toList_of_mapped? {ip : Ipv6} {v4 : Ipv4} (h : ip.mapped? = some v4) :
    ip.toList = [0, 0, 0, 0, 0, 0xffff] ++ v4.groups := by
  rw [mapped?] at h
  split at h
  · next high low htail =>
    obtain rfl := Option.some.inj h
    rw [htail, Ipv4.groups_ofGroups]
    rfl
  · cases h

theorem parse?_mapped {ip : Ipv6} {v4 : Ipv4} (h : ip.mapped? = some v4) :
    parse? ("::ffff:".toList ++ v4.chars) = some ip := by
  have hsplit : Text.splitAt ':' ("ffff:".toList ++ v4.chars) = ["ffff".toList, v4.chars] := by
    have hmarker : Text.splitAt ':' "ffff".toList = ["ffff".toList] := by decide
    have happend := Text.splitAt_append ':' "ffff".toList v4.chars
    rwa [Text.splitAt_of_notMem v4.notMem_chars_colon, hmarker] at happend
  have hafter : side? true ("ffff:".toList ++ v4.chars) = some (0xffff :: v4.groups) := by
    have hgroup : group? "ffff".toList = some 0xffff := by decide
    have hne : ("ffff:".toList ++ v4.chars).isEmpty = false := rfl
    rw [side?, hne, hsplit]
    simp only [groupsOf?, hgroup, Ipv4.parse?_chars, if_true, bind, Option.bind]
    rfl
  have hcut : cutDouble? ("::ffff:".toList ++ v4.chars) = some ([], "ffff:".toList ++ v4.chars) := rfl
  have hread := ip.ofList?_toList
  rw [toList_of_mapped? h] at hread
  rw [parse?, hcut]
  simp only [hafter, bind, Option.bind]
  exact hread

theorem parse?_chars (ip : Ipv6) : parse? ip.chars = some ip := by
  rw [chars]
  cases h : ip.mapped? with
  | some v4 => exact parse?_mapped h
  | none => exact parse?_hexChars ip

/-- An address needs a colon. -/
theorem parse?_eq_none_of_notMem {cs : List Char} (h : ':' ∉ cs) : parse? cs = none := by
  have hcut : cutDouble? cs = none := by
    have happend := cutDouble?_append [] h
    rwa [List.append_nil] at happend
  rw [parse?, hcut, Text.splitAt_of_notMem h]
  cases h4 : Ipv4.parse? cs with
  | some ip => simp [groupsOf?, h4, Ipv4.groups, ofList?]
  | none => cases hg : group? cs <;> simp [groupsOf?, h4, hg, ofList?]

theorem mem_chars_colon (ip : Ipv6) : ':' ∈ ip.chars := by
  by_contra h
  have hnone := parse?_eq_none_of_notMem h
  rw [ip.parse?_chars] at hnone
  cases hnone

end Ipv6

end Net

end RelayKeeper
