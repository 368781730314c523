import RelayKeeper.Net.Url
import RelayKeeper.Proofs.AddressGrammar
import RelayKeeper.Proofs.DecodedText
import RelayKeeper.Proofs.StandardBase64

/-! # The parts of a URL

A text that spells a URL with a host is a scheme, slashes, perhaps user information, the host,
perhaps a port, and the rest. A control character may stand in the user information, in the rest, or
in the host of a scheme that is not special, and nowhere else. -/
namespace RelayKeeper.Net

def IsControl (c : Char) : Prop := c.toNat < 32 ∨ c.toNat = 127

instance (c : Char) : Decidable (IsControl c) :=
  inferInstanceAs (Decidable (_ ∨ _))

namespace IsControl

variable {c : Char}

theorem toNat_lt (h : IsControl c) : c.toNat < 128 := by
  rcases h with h | h <;> omega

/-- Whatever is decided for the ASCII control characters holds of each of them. -/
theorem of_all {P : Char → Prop} (h : ∀ n < 128, IsControl (Char.ofNat n) → P (Char.ofNat n))
    (hc : IsControl c) : P c := by
  have hofNat := h c.toNat hc.toNat_lt
  rw [Char.ofNat_toNat] at hofNat
  exact hofNat hc

theorem isAlphanum (h : IsControl c) : c.isAlphanum = false :=
  h.of_all (P := fun c => c.isAlphanum = false) (by decide)

theorem isDigitOf (h : IsControl c) : Text.isDigitOf 16 c = false :=
  h.of_all (P := fun c => Text.isDigitOf 16 c = false) (by decide)

theorem isDigitOf_ten (h : IsControl c) : Text.isDigitOf 10 c = false :=
  h.of_all (P := fun c => Text.isDigitOf 10 c = false) (by decide)

theorem mapChar (h : IsControl c) : Domain.mapChar c = [c] :=
  h.of_all (P := fun c => Domain.mapChar c = [c]) (by decide)

theorem isDenied (h : IsControl c) : Domain.isDenied c = true :=
  h.of_all (P := fun c => Domain.isDenied c = true) (by decide)

end IsControl

/-! ## Hosts -/

namespace Ipv6

variable {tail : Bool} {cs : List Char} {gs : List UInt16} {ip : Ipv6} {c : Char}

theorem Groups.notMem_control (h : Groups tail cs gs) (hc : IsControl c) : c ∉ cs := by
  induction h with
  | group hg => exact hg.notMem hc.isDigitOf
  | @dotted cs _ _ h4 =>
    intro hmem
    rcases Ipv4.isDigitOf_of_parse? (Ipv4.parse?_eq_some_iff.mpr h4) c hmem with hdigit | rfl
    · rw [hc.isDigitOf_ten] at hdigit
      cases hdigit
    · exact absurd hc (by decide)
  | cons hg _ ih =>
    intro hmem
    rcases List.mem_append.mp hmem with hmem | hmem
    · exact hg.notMem hc.isDigitOf hmem
    · rcases List.mem_cons.mp hmem with rfl | hmem
      · exact absurd hc (by decide)
      · exact ih hmem

theorem Side.notMem_control (h : Side tail cs gs) (hc : IsControl c) : c ∉ cs := by
  cases h with
  | vacant => exact List.not_mem_nil
  | groups hg => exact hg.notMem_control hc

theorem Literal.notMem_control (h : Literal cs ip) (hc : IsControl c) : c ∉ cs := by
  cases h with
  | full hg => exact hg.notMem_control hc
  | short hleft hright _ _ =>
    intro hmem
    simp only [List.mem_append, List.mem_cons] at hmem
    rcases hmem with hmem | rfl | rfl | hmem
    · exact hleft.notMem_control hc hmem
    · exact absurd hc (by decide)
    · exact absurd hc (by decide)
    · exact hright.notMem_control hc hmem

end Ipv6

namespace Domain

variable {c : Char} {host mapped : List Char}

/-- A byte stays as it is if it is neither a percent sign nor a digit. -/
theorem mem_percentDecode {b : UInt8} (hsign : b ≠ 37)
    (hdigit : Text.digitValue? 16 (Char.ofNat b.toNat) = none) {bytes : List UInt8}
    (h : b ∈ bytes) : b ∈ percentDecode bytes := by
  induction bytes using percentDecode.induct with
  | case1 first second rest x y hsecond hfirst ih =>
    rw [percentDecode, hfirst, hsecond]
    -- the byte is not one of the three that are replaced
    rcases List.mem_cons.mp h with rfl | h
    · exact absurd rfl hsign
    rcases List.mem_cons.mp h with rfl | h
    · rw [hdigit] at hfirst
      cases hfirst
    rcases List.mem_cons.mp h with rfl | h
    · rw [hdigit] at hsecond
      cases hsecond
    · exact List.mem_cons_of_mem _ (ih h)
  | case2 first second rest hdigits ih =>
    have hkept : percentDecode (37 :: first :: second :: rest) =
        37 :: percentDecode (first :: second :: rest) := by
      rw [percentDecode]
      split
      · next x y hx hy => exact (hdigits x y hx hy).elim
      · rfl
    rw [hkept]
    rcases List.mem_cons.mp h with rfl | h
    · exact absurd rfl hsign
    · exact List.mem_cons_of_mem _ (ih h)
  | case3 first rest hplain ih =>
    rw [percentDecode]
    · rcases List.mem_cons.mp h with rfl | h
      · exact List.mem_cons_self
      · exact List.mem_cons_of_mem _ (ih h)
    · exact hplain
  | case4 => cases h

theorem mem_utf8 {cs : List Char} (hascii : c.toNat < 128) (h : c ∈ cs) :
    UInt8.ofNat c.toNat ∈ (String.ofList cs).toUTF8.data.toList := by
  have hc : String.utf8EncodeChar c = [UInt8.ofNat c.toNat] := by
    have hbyte : (UInt8.ofNat c.toNat).toNat = c.toNat := by
      rw [UInt8.toNat_ofNat', Nat.mod_eq_of_lt (by omega)]
    have hencode := Base64.utf8EncodeChar_charOf (hbyte ▸ hascii)
    rwa [Base64.charOf, hbyte, Char.ofNat_toNat] at hencode
  change _ ∈ (String.ofList cs).toByteArray.data.toList
  rw [String.toByteArray_ofList, List.utf8Encode, List.toList_data_toByteArray]
  exact List.mem_flatMap.mpr ⟨c, h, by rw [hc]; exact List.mem_singleton_self _⟩

/-- What is percent-decoded and mapped still holds the control characters of a host. -/
theorem mem_mapped (hc : IsControl c) (h : c ∈ host) :
    c ∈ (Text.decode (percentDecode (String.ofList host).toUTF8.data.toList)).flatMap mapChar := by
  have hlt := hc.toNat_lt
  have hbyte : (UInt8.ofNat c.toNat).toNat = c.toNat := by
    rw [UInt8.toNat_ofNat', Nat.mod_eq_of_lt (by omega)]
  have hchar : Char.ofNat (UInt8.ofNat c.toNat).toNat = c := by rw [hbyte, Char.ofNat_toNat]
  have hsign : UInt8.ofNat c.toNat ≠ 37 := by
    intro heq
    rw [← UInt8.toNat_inj, hbyte] at heq
    have hnum : c.toNat = 37 := heq
    rcases hc with hc | hc <;> omega
  have hdigit : Text.digitValue? 16 (Char.ofNat (UInt8.ofNat c.toNat).toNat) = none := by
    rw [hchar]
    exact Option.isSome_eq_false_iff.mp hc.isDigitOf |> Option.isNone_iff_eq_none.mp
  have hsingle : Text.IsSingle (UInt8.ofNat c.toNat) := by
    rw [Text.IsSingle, UInt8.lt_iff_toNat_lt, hbyte]
    exact hlt
  have hmem := Text.mem_decode hsingle (mem_percentDecode hsign hdigit (mem_utf8 hlt h))
  rw [hchar] at hmem
  exact List.mem_flatMap.mpr ⟨c, hmem, by rw [hc.mapChar]; exact List.mem_singleton_self c⟩

theorem notMem_control_of_checkBracketed {inner : List Char} (h : checkBracketed inner = .ok ())
    (hc : IsControl c) : c ∉ inner := by
  unfold checkBracketed at h
  split_ifs at h with hshape
  obtain ⟨hlast, hparse⟩ := Bool.and_eq_true_iff.mp hshape
  obtain ⟨ip, hip⟩ := Option.isSome_iff_exists.mp hparse
  have hliteral := (Ipv6.parse?_eq_some_iff.mp hip).notMem_control hc
  rw [← List.dropLast_append_getLast? ']' (of_decide_eq_true hlast), List.mem_append,
    List.mem_singleton]
  rintro (hmem | rfl)
  · exact hliteral hmem
  · exact absurd hc (by decide)

/-- The host of a special scheme holds no control character. -/
theorem notMem_control_of_check (h : check host = .ok mapped) (hc : IsControl c) : c ∉ host := by
  intro hmem
  unfold check at h
  split at h
  · next rest =>
    obtain ⟨⟨⟩, hbracketed, -⟩ := of_bind h
    rcases List.mem_cons.mp hmem with rfl | hmem
    · exact absurd hc (by decide)
    · exact notMem_control_of_checkBracketed hbracketed hc hmem
  · dsimp only at h
    have hdenied := List.any_eq_true.mpr ⟨c, mem_mapped hc hmem, hc.isDenied⟩
    rw [hdenied, Bool.true_or] at h
    cases h

/-- An opaque host holds no null character. -/
theorem notMem_null_of_checkOpaque (h : checkOpaque host = .ok ()) : '\x00' ∉ host := by
  intro hmem
  unfold checkOpaque at h
  split at h
  · rcases List.mem_cons.mp hmem with hopen | hmem
    · cases hopen
    · exact notMem_control_of_checkBracketed h (by decide) hmem
  · split at h
    · cases h
    · next hnone => exact hnone (List.any_eq_true.mpr ⟨_, hmem, by decide⟩)

end Domain

namespace Url

variable {cs name host user rest : List Char} {special : Bool}

/-! ## Cutting the text -/

theorem eq_of_cutAt? {sep : Char} {before after : List Char}
    (h : Text.cutAt? sep cs = some (before, after)) : cs = before ++ sep :: after := by
  induction cs generalizing before with
  | nil => cases h
  | cons c cs ih =>
    rw [Text.cutAt?] at h
    split_ifs at h with hsep
    · cases h
      rw [hsep]
      rfl
    · obtain ⟨⟨front, back⟩, hcut, heq⟩ := Option.map_eq_some_iff.mp h
      cases heq
      rw [ih hcut]
      rfl

def IsSchemeChar (c : Char) : Prop := c.isAlphanum = true ∨ c = '+' ∨ c = '-' ∨ c = '.'

theorem exists_scheme (h : cutScheme? cs = some (name, rest)) :
    ∃ scheme, cs = scheme ++ ':' :: rest ∧ name = scheme.map Char.toLower ∧
      ∀ c ∈ scheme, IsSchemeChar c := by
  unfold cutScheme? at h
  split at h
  · next first more =>
    split_ifs at h with hfirst
    obtain ⟨⟨scheme, after⟩, hcut, h⟩ := Option.bind_eq_some_iff.mp h
    dsimp only at h
    split_ifs at h with hchars
    cases h
    refine ⟨scheme, eq_of_cutAt? hcut, rfl, fun c hc => ?_⟩
    have hchar := List.all_eq_true.mp hchars c hc
    simpa [IsSchemeChar, or_assoc] using hchar
  · cases h

theorem takeHost_prefix (special bracketed : Bool) (cs : List Char) :
    takeHost special bracketed cs <+: cs := by
  induction cs generalizing bracketed with
  | nil => exact List.prefix_rfl
  | cons c cs ih =>
    rw [takeHost]
    split_ifs with hend
    · exact List.nil_prefix
    · exact (List.prefix_cons_inj c).mpr (ih _)

/-- What follows a host begins with a colon or ends the authority. -/
theorem head_after_takeHost (bracketed : Bool) {c : Char} {more : List Char}
    (h : cs = takeHost special bracketed cs ++ c :: more) :
    endsAuthority special c = true ∨ c = ':' := by
  induction cs generalizing bracketed with
  | nil => simp [takeHost] at h
  | cons d cs ih =>
    rw [takeHost] at h
    split_ifs at h with hend
    · obtain ⟨rfl, -⟩ := List.cons.inj h
      rcases Bool.or_eq_true_iff.mp hend with hend | hcolon
      · exact .inl hend
      · exact .inr (by simpa using (Bool.and_eq_true_iff.mp hcolon).1)
    · exact ih _ (List.cons.inj h).2

/-- A text is cut at the last of its marks, if it has one. -/
theorem exists_before_last {mark : Char}
    (h : (cs.reverse.takeWhile (· != mark)).length ≠ cs.length) :
    ∃ front, cs = front ++ mark :: (cs.reverse.takeWhile (· != mark)).reverse := by
  have hsplit := List.takeWhile_append_dropWhile (p := (· != mark)) (l := cs.reverse)
  cases hback : cs.reverse.dropWhile (· != mark) with
  | nil =>
    rw [hback, List.append_nil] at hsplit
    rw [hsplit, List.length_reverse] at h
    exact absurd rfl h
  | cons first back =>
    have hfirst : first = mark := by
      have hhead := Text.head_dropWhile (· != mark) cs.reverse first (by rw [hback]; rfl)
      simpa using hhead
    rw [hback, hfirst] at hsplit
    refine ⟨back.reverse, ?_⟩
    conv_lhs => rw [← List.reverse_reverse cs, ← hsplit]
    simp

/-- An authority with user information is the information, an `@` and the host. -/
theorem eq_of_cutUserinfo (h : cutUserinfo special cs = some (user, rest)) :
    cs = user ++ '@' :: rest ∧ ∀ c ∈ user, endsAuthority special c = false := by
  unfold cutUserinfo at h
  dsimp only at h
  have hcs := List.takeWhile_append_dropWhile (p := (!endsAuthority special ·)) (l := cs)
  have hends : ∀ c ∈ cs.takeWhile (!endsAuthority special ·), endsAuthority special c = false := by
    intro c hc
    simpa using List.mem_takeWhile_imp hc
  generalize cs.takeWhile (!endsAuthority special ·) = authority at h hcs hends
  generalize cs.dropWhile (!endsAuthority special ·) = behind at hcs
  rw [List.length_reverse] at h
  split_ifs at h with hlength
  obtain ⟨info, hinfo⟩ := exists_before_last hlength
  obtain ⟨huser, hrest⟩ := Prod.mk.inj (Option.some.inj h)
  generalize authority.reverse.takeWhile (· != '@') = found at hinfo huser hrest
  have hlen : authority.length = info.length + 1 + found.length := by
    rw [hinfo]
    simp only [List.length_append, List.length_reverse, List.length_cons]
    omega
  have hfront : user = info := by
    rw [← huser, hlen, Nat.add_sub_cancel, Nat.add_sub_cancel, hinfo, List.take_left]
  have hmarked : cs = (info ++ ['@']) ++ (found.reverse ++ behind) := by
    rw [← hcs, hinfo]
    simp
  have hback : rest = found.reverse ++ behind := by
    rw [← hrest, hlen, Nat.add_sub_cancel, hmarked]
    exact List.drop_left' (by simp)
  constructor
  · rw [hfront, hback, hmarked]
    simp
  · intro c hc
    apply hends c
    rw [hinfo, ← hfront]
    exact List.mem_append_left _ hc

inductive Port : List Char → Prop where
  | absent : Port []
  | digits {digits} : (∀ c ∈ digits, Text.isDigitOf 10 c = true) → Port (':' :: digits)

def IsRest (rest : List Char) : Prop := ∀ c ∈ rest.head?, endsAuthority true c = true

theorem endsAuthority_mono {c : Char} (h : endsAuthority special c = true) :
    endsAuthority true c = true := by
  cases special with
  | true => exact h
  | false =>
    rw [endsAuthority, Bool.false_and, Bool.or_false] at h
    rw [endsAuthority, h, Bool.true_or]

theorem exists_digits {n : Nat} (h : checkPort n cs = .ok ()) :
    ∃ digits rest, cs = digits ++ rest ∧ (∀ c ∈ digits, Text.isDigitOf 10 c = true) ∧
      IsRest rest := by
  induction cs generalizing n with
  | nil => exact ⟨[], [], rfl, nofun, nofun⟩
  | cons c cs ih =>
    rw [checkPort] at h
    cases hdigit : Text.digitValue? 10 c with
    | none =>
      rw [hdigit] at h
      dsimp only at h
      split_ifs at h with hend
      exact ⟨[], c :: cs, rfl, nofun, fun d hd => Option.some.inj hd ▸ hend⟩
    | some d =>
      rw [hdigit] at h
      dsimp only at h
      split_ifs at h
      obtain ⟨digits, rest, rfl, hdigits, hrest⟩ := ih h
      refine ⟨c :: digits, rest, rfl, ?_, hrest⟩
      intro e he
      rcases List.mem_cons.mp he with rfl | he
      · rw [Text.isDigitOf, hdigit]
        rfl
      · exact hdigits e he

theorem exists_port (h : checkPortAfter cs = .ok ())
    (hhead : ∀ c ∈ cs.head?, endsAuthority special c = true ∨ c = ':') :
    ∃ port rest, cs = port ++ rest ∧ Port port ∧ IsRest rest := by
  unfold checkPortAfter at h
  split at h
  · next after =>
    obtain ⟨digits, rest, rfl, hdigits, hrest⟩ := exists_digits h
    exact ⟨':' :: digits, rest, rfl, .digits hdigits, hrest⟩
  · next hcolon =>
    refine ⟨[], cs, rfl, .absent, fun c hc => ?_⟩
    rcases hhead c hc with hend | rfl
    · exact endsAuthority_mono hend
    · obtain ⟨more, rfl⟩ := List.head?_eq_some_iff.mp hc
      exact (hcolon more rfl).elim

inductive User (special : Bool) : List Char → Prop where
  | absent : User special []
  | info {info} : (∀ c ∈ info, endsAuthority special c = false) → User special (info ++ ['@'])

/-- The host of a special scheme holds no control character, and that of any other no null. -/
structure IsHost (special : Bool) (host : List Char) : Prop where
  ne_nil : host ≠ []
  plain : special = true → ∀ c ∈ host, ¬ IsControl c
  nonnull : special = false → '\x00' ∉ host

structure Authority (special : Bool) (user host port rest : List Char) : Prop where
  user : User special user
  host : IsHost special host
  port : Port port
  rest : IsRest rest

theorem isHost_of_check {mapped : List Char} (hne : host ≠ [])
    (h : Domain.check host = .ok mapped) : IsHost true host :=
  ⟨hne, fun _ _ hmem hc => Domain.notMem_control_of_check h hc hmem, nofun⟩

theorem exists_user (special : Bool) (cs : List Char) :
    ∃ user, User special user ∧ cs = user ++ ((cutUserinfo special cs).getD ([], cs)).2 := by
  cases hcut : cutUserinfo special cs with
  | none => exact ⟨[], .absent, rfl⟩
  | some cut =>
    obtain ⟨info, rest⟩ := cut
    obtain ⟨hcs, hinfo⟩ := eq_of_cutUserinfo hcut
    refine ⟨info ++ ['@'], .info hinfo, ?_⟩
    rw [List.append_assoc]
    exact hcs

theorem exists_authority (h : authorityHasHost special cs = .ok true) :
    ∃ user host port rest, cs = user ++ (host ++ (port ++ rest)) ∧
      Authority special user host port rest := by
  obtain ⟨user, huser, hcs⟩ := exists_user special cs
  unfold authorityHasHost at h
  generalize (cutUserinfo special cs).getD ([], cs) = cut at h hcs
  obtain ⟨info, found⟩ := cut
  dsimp only at h hcs
  obtain ⟨-, h⟩ := of_guard h
  generalize hhost : takeHost special false found = host at h
  obtain ⟨after, hafter⟩ := hhost ▸ takeHost_prefix special false found
  have hdrop : found.drop host.length = after := by rw [← hafter, List.drop_left]
  rw [hdrop] at h
  have hhead : ∀ c ∈ after.head?, endsAuthority special c = true ∨ c = ':' := by
    intro c hc
    obtain ⟨more, rfl⟩ := List.head?_eq_some_iff.mp hc
    exact head_after_takeHost false (hhost ▸ hafter.symm)
  -- what is left of the checks, on either side: one of the host and one of the port
  have hparts : IsHost special host ∧ checkPortAfter after = .ok () := by
    cases special with
    | true =>
      rw [if_pos rfl] at h
      obtain ⟨hne, h⟩ := of_guard h
      obtain ⟨mapped, hcheck, h⟩ := of_bind h
      obtain ⟨⟨⟩, hport, -⟩ := of_bind h
      exact ⟨isHost_of_check (by simpa using hne) hcheck, hport⟩
    | false =>
      rw [if_neg Bool.false_ne_true] at h
      obtain ⟨⟨⟩, hcheck, h⟩ := of_bind h
      obtain ⟨-, h⟩ := of_guard h
      obtain ⟨⟨⟩, hport, h⟩ := of_bind h
      obtain ⟨-, h⟩ := of_guard h
      have hne : host ≠ [] := by simpa using h
      exact ⟨⟨hne, nofun, fun _ => Domain.notMem_null_of_checkOpaque hcheck⟩, hport⟩
  obtain ⟨port, rest, rfl, hport, hrest⟩ := exists_port hparts.2 hhead
  exact ⟨user, host, port, rest, by rw [hcs, ← hafter], huser, hparts.1, hport, hrest⟩

def IsSlash (c : Char) : Prop := c = '/' ∨ c = '\\'

/-- A file URL has its host behind two slashes, and neither user information nor a port. -/
theorem exists_file_host (h : fileHasHost cs = .ok true) :
    ∃ slashes host rest, cs = slashes ++ (host ++ rest) ∧ (∀ c ∈ slashes, IsSlash c) ∧
      Authority true [] host [] rest := by
  unfold fileHasHost at h
  split at h
  · next first second found =>
    split_ifs at h with hslashes
    · dsimp only at h
      split_ifs at h with hnone
      · cases h
      · obtain ⟨mapped, hcheck, -⟩ := of_bind h
        have hne : found.takeWhile (!endsAuthority true ·) ≠ [] := by
          intro hnil
          rw [hnil] at hnone
          exact hnone rfl
        refine ⟨[first, second], found.takeWhile (!endsAuthority true ·),
          found.dropWhile (!endsAuthority true ·), ?_, ?_, .absent, isHost_of_check hne hcheck,
          .absent, ?_⟩
        · rw [List.takeWhile_append_dropWhile]
          rfl
        · simpa [IsSlash] using hslashes
        · intro c hc
          simpa using Text.head_dropWhile (!endsAuthority true ·) found c hc
    · cases h
  · cases h

/-- The text of a URL with a host, part by part. -/
structure Parts (cs scheme slashes user host port rest : List Char) : Prop where
  whole : cs = scheme ++ ':' :: (slashes ++ (user ++ (host ++ (port ++ rest))))
  named : ∀ c ∈ scheme, IsSchemeChar c
  slashed : ∀ c ∈ slashes, IsSlash c
  authority : Authority (SchemeKind.ofName (scheme.map Char.toLower)).isSpecial user host port rest

theorem exists_parts {text : String} (h : hasHost text = .ok true) :
    ∃ scheme slashes user host port rest,
      Parts (readable text.toList) scheme slashes user host port rest := by
  unfold hasHost at h
  cases hcut : cutScheme? (readable text.toList) with
  | none =>
    rw [hcut] at h
    cases h
  | some cut =>
    obtain ⟨name, found⟩ := cut
    rw [hcut] at h
    dsimp only at h
    obtain ⟨scheme, hwhole, rfl, hnamed⟩ := exists_scheme hcut
    cases hkind : SchemeKind.ofName (scheme.map Char.toLower) with
    | web =>
      rw [hkind] at h
      obtain ⟨user, host, port, rest, hsplit, hauthority⟩ := exists_authority h
      refine ⟨scheme, found.takeWhile fun c => c == '/' || c == '\\', user, host, port, rest, ?_,
        hnamed, fun c hc => ?_, hkind ▸ hauthority⟩
      · rw [← hsplit, List.takeWhile_append_dropWhile]
        exact hwhole
      · simpa [IsSlash] using List.mem_takeWhile_imp hc
    | file =>
      rw [hkind] at h
      obtain ⟨slashes, host, rest, rfl, hslashed, hauthority⟩ := exists_file_host h
      exact ⟨scheme, slashes, [], host, [], rest, hwhole, hnamed, hslashed, hkind ▸ hauthority⟩
    | other =>
      rw [hkind] at h
      dsimp only at h
      split at h
      · next after =>
        obtain ⟨user, host, port, rest, rfl, hauthority⟩ := exists_authority h
        refine ⟨scheme, ['/', '/'], user, host, port, rest, hwhole, hnamed, ?_, hkind ▸ hauthority⟩
        simp [IsSlash]
      · cases h

theorem IsSchemeChar.not_isControl {c : Char} (h : IsSchemeChar c) : ¬ IsControl c := by
  intro hc
  rcases h with h | rfl | rfl | rfl
  · rw [hc.isAlphanum] at h
    cases h
  all_goals exact absurd hc (by decide)

theorem IsSlash.not_isControl {c : Char} (h : IsSlash c) : ¬ IsControl c := by
  rcases h with rfl | rfl <;> decide

theorem Port.not_isControl {port : List Char} (h : Port port) : ∀ c ∈ port, ¬ IsControl c := by
  intro c hmem hc
  cases h with
  | absent => cases hmem
  | digits hdigits =>
    rcases List.mem_cons.mp hmem with rfl | hmem
    · exact absurd hc (by decide)
    · have hdigit := hdigits c hmem
      rw [hc.isDigitOf_ten] at hdigit
      cases hdigit

/-- Where a control character may stand. -/
theorem Parts.of_control {scheme slashes port : List Char} {c : Char}
    (h : Parts cs scheme slashes user host port rest) (hc : IsControl c) (hmem : c ∈ cs) :
    c ∈ user ∨ c ∈ rest ∨
      c ∈ host ∧ SchemeKind.ofName (scheme.map Char.toLower) = .other ∧ c ≠ '\x00' := by
  have hauthority := h.authority
  rw [h.whole] at hmem
  simp only [List.mem_append, List.mem_cons] at hmem
  rcases hmem with hmem | rfl | hmem | hmem | hmem | hmem | hmem
  · exact absurd hc (h.named c hmem).not_isControl
  · exact absurd hc (by decide)
  · exact absurd hc (h.slashed c hmem).not_isControl
  · exact .inl hmem
  · cases hkind : SchemeKind.ofName (scheme.map Char.toLower) with
    | web | file =>
      rw [hkind] at hauthority
      exact absurd hc (hauthority.host.plain rfl c hmem)
    | other =>
      rw [hkind] at hauthority
      exact .inr (.inr ⟨hmem, rfl, fun hnull => hauthority.host.nonnull rfl (hnull ▸ hmem)⟩)
  · exact absurd hc (hauthority.port.not_isControl c hmem)
  · exact .inr (.inl hmem)

end Url

end RelayKeeper.Net
