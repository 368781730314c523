import RelayKeeper.Proofs.AddressRoundTrip

/-! # What is an address

The grammars of the three kinds of address: dotted numbers, groups between colons, and labels between
dots. A text without blanks around it is read as an address exactly if it is derived from one of
them, and it is read as the address that it was derived for. -/
namespace RelayKeeper

namespace Text

/-! ## Numerals -/

def Digit (base : ℕ) (c : Char) (d : ℕ) : Prop := d < base ∧ c.toLower = d.digitChar

/-- One or more digits, and the number that they denote. -/
inductive Numeral (base : ℕ) : List Char → ℕ → Prop where
  | digit {c d} : Digit base c d → Numeral base [c] d
  | snoc {cs n c d} : Numeral base cs n → Digit base c d → Numeral base (cs ++ [c]) (base * n + d)

theorem digitValue?_eq_some_iff {base d : ℕ} (hbase : base ≤ 16) {c : Char} :
    digitValue? base c = some d ↔ Digit base c d := by
  constructor
  · intro h
    obtain ⟨hvalue, hlt⟩ := Option.filter_eq_some_iff.mp h
    rw [decide_eq_true_eq] at hlt
    refine ⟨hlt, ?_⟩
    have hval : c.val.toNat = c.toNat := rfl
    have hends : 'A'.val.toNat = 65 ∧ 'Z'.val.toNat = 90 ∧ 'a'.val.toNat = 97 ∧
        'z'.val.toNat = 122 ∧ '0'.val.toNat = 48 ∧ '9'.val.toNat = 57 := by decide
    have hdigit : ∀ d < 10, (Char.ofNat (48 + d)).toLower = d.digitChar := by decide
    have hsmall : ∀ d < 16, 10 ≤ d → (Char.ofNat (87 + d)).toLower = d.digitChar := by decide
    have hlarge : ∀ d < 16, 10 ≤ d → (Char.ofNat (55 + d)).toLower = d.digitChar := by decide
    simp only [Bool.and_eq_true, decide_eq_true_eq, Char.le_def, UInt32.le_iff_toNat_le] at hvalue
    split_ifs at hvalue
    · have hd := Option.some.inj hvalue
      rw [← hdigit d (by omega), ← show c.toNat = 48 + d by omega, Char.ofNat_toNat]
    · have hd := Option.some.inj hvalue
      rw [← hsmall d (by omega) (by omega), ← show c.toNat = 87 + d by omega, Char.ofNat_toNat]
    · have hd := Option.some.inj hvalue
      rw [← hlarge d (by omega) (by omega), ← show c.toNat = 55 + d by omega, Char.ofNat_toNat]
  · rintro ⟨hd, hc⟩
    rw [← digitValue?_toLower hbase, hc, digitValue?_digitChar hbase hd]

theorem readDigits_singleton (base n : ℕ) (c : Char) :
    readDigits base n [c] = (digitValue? base c).map (base * n + ·) := by
  rw [readDigits]
  cases digitValue? base c <;> rfl

namespace Numeral

variable {base n : ℕ} {cs : List Char}

theorem ne_nil (h : Numeral base cs n) : cs ≠ [] := by
  cases h with
  | digit _ => exact List.cons_ne_nil _ _
  | snoc _ _ => simp

theorem exists_digit (h : Numeral base cs n) : ∀ c ∈ cs, ∃ d, Digit base c d := by
  induction h with
  | digit hd =>
    intro c hc
    obtain rfl := List.mem_singleton.mp hc
    exact ⟨_, hd⟩
  | snoc _ hd ih =>
    intro c hc
    rcases List.mem_append.mp hc with hc | hc
    · exact ih c hc
    · obtain rfl := List.mem_singleton.mp hc
      exact ⟨_, hd⟩

theorem notMem (h : Numeral base cs n) (hbase : base ≤ 16) {c : Char}
    (hc : isDigitOf base c = false) : c ∉ cs := by
  intro hmem
  obtain ⟨d, hd⟩ := h.exists_digit c hmem
  rw [isDigitOf, (digitValue?_eq_some_iff hbase).mpr hd] at hc
  cases hc

theorem lt_pow (h : Numeral base cs n) : n < base ^ cs.length := by
  induction h with
  | digit hd => exact hd.1.trans_eq (pow_one base).symm
  | @snoc cs n c d _ hd ih =>
    calc base * n + d < base * n + base := Nat.add_lt_add_left hd.1 _
      _ = base * (n + 1) := (Nat.mul_succ base n).symm
      _ ≤ base * base ^ cs.length := Nat.mul_le_mul_left base ih
      _ = base ^ (cs ++ [c]).length := by rw [List.length_append, List.length_singleton, pow_succ']

/-- A number that does not begin with a zero is as large as its length says. -/
theorem pow_le (h : Numeral base cs n) (hzero : cs.head? ≠ some '0') :
    base ^ (cs.length - 1) ≤ n := by
  induction h with
  | @digit c d hd =>
    rw [List.length_singleton, Nat.sub_self, pow_zero]
    refine Nat.pos_of_ne_zero ?_
    rintro rfl
    have hc : c = '0' := (Net.toLower_eq_iff (by decide)).mp hd.2
    exact hzero (by rw [hc]; rfl)
  | @snoc cs n c d hn _ ih =>
    have hlen : 0 < cs.length := List.length_pos_of_ne_nil hn.ne_nil
    rw [List.head?_append_of_ne_nil _ hn.ne_nil] at hzero
    calc base ^ ((cs ++ [c]).length - 1) = base * base ^ (cs.length - 1) := by
          rw [← pow_succ', List.length_append, List.length_singleton]
          congr 1
          omega
      _ ≤ base * n := Nat.mul_le_mul_left base (ih hzero)
      _ ≤ base * n + d := Nat.le_add_right _ _

end Numeral

theorem number?_snoc (base : ℕ) {cs : List Char} (hne : cs ≠ []) (c : Char) :
    number? base (cs ++ [c]) = (number? base cs).bind fun n => readDigits base n [c] := by
  rw [number?, number?, if_neg (by simp), if_neg (by simpa using hne), readDigits_append]

theorem number?_singleton (base : ℕ) (c : Char) : number? base [c] = digitValue? base c := by
  rw [number?, if_neg (by simp), readDigits_singleton]
  cases digitValue? base c <;> simp

/-- What is read as a number is a numeral, and the number is the one that it denotes. -/
theorem number?_eq_some_iff {base : ℕ} (hbase : base ≤ 16) {cs : List Char} {n : ℕ} :
    number? base cs = some n ↔ Numeral base cs n := by
  constructor
  · induction cs using List.reverseRecOn generalizing n with
    | nil => simp [number?]
    | append_singleton cs c ih =>
      intro h
      by_cases hne : cs = []
      · subst hne
        rw [List.nil_append, number?_singleton] at h
        exact .digit ((digitValue?_eq_some_iff hbase).mp h)
      · rw [number?_snoc base hne] at h
        obtain ⟨m, hm, h⟩ := Option.bind_eq_some_iff.mp h
        rw [readDigits_singleton] at h
        obtain ⟨d, hd, rfl⟩ := Option.map_eq_some_iff.mp h
        exact .snoc (ih hm) ((digitValue?_eq_some_iff hbase).mp hd)
  · intro h
    induction h with
    | digit hd => rw [number?_singleton, (digitValue?_eq_some_iff hbase).mpr hd]
    | snoc hn hd ih =>
      rw [number?_snoc base hn.ne_nil, ih, Option.bind_some, readDigits_singleton,
        (digitValue?_eq_some_iff hbase).mpr hd]
      rfl

end Text

namespace Net

open Text (Numeral)

/-! ## IPv4 -/

namespace Ipv4

/-- A number below 256 in decimal, without a zero in front of other digits. -/
def Octet (cs : List Char) (n : UInt8) : Prop :=
  Numeral 10 cs n.toNat ∧ (cs.head? = some '0' → cs = ['0'])

/-- Four octets with dots between them. -/
inductive Literal : List Char → Ipv4 → Prop where
  | dotted {first second third fourth : List Char} {ip : Ipv4} : Octet first ip.a →
      Octet second ip.b → Octet third ip.c → Octet fourth ip.d →
      Literal (Text.joinWith ['.'] [first, second, third, fourth]) ip

/-- A number below 256 has at most three digits. -/
theorem Octet.length_le {cs : List Char} {n : UInt8} (h : Octet cs n) : cs.length ≤ 3 := by
  by_cases hzero : cs.head? = some '0'
  · rw [h.2 hzero]
    decide
  · by_contra hlong
    have hpow : 10 ^ 3 ≤ 10 ^ (cs.length - 1) := Nat.pow_le_pow_right (by decide) (by omega)
    have hle := h.1.pow_le hzero
    have hlt := n.toNat_lt
    omega

theorem octet?_eq_some_iff {cs : List Char} {n : UInt8} : octet? cs = some n ↔ Octet cs n := by
  constructor
  · intro h
    rw [octet?] at h
    split_ifs at h with hcond
    simp only [Bool.and_eq_true, decide_eq_true_eq, Bool.or_eq_true, bne_iff_ne, ne_eq,
      beq_iff_eq] at hcond
    cases hm : Text.number? 10 cs with
    | none =>
      rw [hm] at h
      cases h
    | some m =>
      rw [hm] at h
      dsimp only at h
      split_ifs at h with hlt
      obtain rfl := Option.some.inj h
      constructor
      · rw [UInt8.toNat_ofNat_of_lt' hlt]
        exact (Text.number?_eq_some_iff (by decide)).mp hm
      · intro hzero
        obtain ⟨c, rfl⟩ := List.length_eq_one_iff.mp (hcond.2.resolve_left (not_not.mpr hzero))
        rw [List.head?_cons] at hzero
        rw [Option.some.inj hzero]
  · intro h
    have hread := (Text.number?_eq_some_iff (by decide)).mpr h.1
    have hshape : (cs.head? != some '0' || cs.length == 1) = true := by
      by_cases hzero : cs.head? = some '0'
      · rw [h.2 hzero]
        rfl
      · simp [hzero]
    rw [octet?, hshape, decide_eq_true h.length_le, hread]
    simp [n.toNat_lt]

theorem Octet.notMem {cs : List Char} {n : UInt8} (h : Octet cs n) {c : Char}
    (hc : Text.isDigitOf 10 c = false) : c ∉ cs :=
  h.1.notMem (by decide) hc

/-- An address is read from exactly the texts that are derived for it. -/
theorem parse?_eq_some_iff {cs : List Char} {ip : Ipv4} : parse? cs = some ip ↔ Literal cs ip := by
  constructor
  · intro h
    rw [parse?] at h
    split at h
    · next first second third fourth hsplit =>
      obtain ⟨a, ha, h⟩ := Option.bind_eq_some_iff.mp h
      obtain ⟨b, hb, h⟩ := Option.bind_eq_some_iff.mp h
      obtain ⟨c, hc, h⟩ := Option.bind_eq_some_iff.mp h
      obtain ⟨d, hd, h⟩ := Option.bind_eq_some_iff.mp h
      obtain rfl := Option.some.inj h
      rw [← Text.joinWith_splitAt '.' cs, hsplit]
      exact .dotted (octet?_eq_some_iff.mp ha) (octet?_eq_some_iff.mp hb)
        (octet?_eq_some_iff.mp hc) (octet?_eq_some_iff.mp hd)
    · cases h
  · rintro ⟨ha, hb, hc, hd⟩
    rw [parse?, Text.splitAt_joinWith (by simp)]
    · simp only [octet?_eq_some_iff.mpr ha, octet?_eq_some_iff.mpr hb, octet?_eq_some_iff.mpr hc,
        octet?_eq_some_iff.mpr hd]
      rfl
    · intro piece hpiece
      simp only [List.mem_cons, List.not_mem_nil, or_false] at hpiece
      rcases hpiece with rfl | rfl | rfl | rfl
      · exact ha.notMem (by decide)
      · exact hb.notMem (by decide)
      · exact hc.notMem (by decide)
      · exact hd.notMem (by decide)

theorem Literal.notMem_colon {cs : List Char} {ip : Ipv4} (h : Literal cs ip) : ':' ∉ cs := by
  intro hmem
  rcases isDigitOf_of_parse? (parse?_eq_some_iff.mpr h) ':' hmem with hdigit | hdot
  · exact absurd hdigit (by decide)
  · exact absurd hdot (by decide)

theorem Literal.ne_nil {cs : List Char} {ip : Ipv4} (h : Literal cs ip) : cs ≠ [] := by
  rintro rfl
  have hread := parse?_eq_some_iff.mpr h
  cases hread

end Ipv4

/-! ## IPv6 -/

namespace Ipv6

def Group (cs : List Char) (g : UInt16) : Prop := Numeral 16 cs g.toNat ∧ cs.length ≤ 4

/-- One or more groups with single colons between them. If `tail` is set, the last two groups may
be a dotted address. -/
inductive Groups (tail : Bool) : List Char → List UInt16 → Prop where
  | group {cs g} : Group cs g → Groups tail cs [g]
  | dotted {cs ip} : tail = true → Ipv4.Literal cs ip → Groups tail cs ip.groups
  | cons {cs ds g gs} : Group cs g → Groups tail ds gs → Groups tail (cs ++ ':' :: ds) (g :: gs)

/-- The groups on one side of `::`, where there may be none. -/
inductive Side (tail : Bool) : List Char → List UInt16 → Prop where
  | vacant : Side tail [] []
  | groups {cs gs} : Groups tail cs gs → Side tail cs gs

/-- Eight groups, where `::` may stand for one or more groups that are zero. -/
inductive Literal : List Char → Ipv6 → Prop where
  | full {cs ip} : Groups true cs ip.toList → Literal cs ip
  | short {left right before after zeros ip} : Side false left before → Side true right after →
      0 < zeros → ip.toList = before ++ List.replicate zeros 0 ++ after →
      Literal (left ++ ':' :: ':' :: right) ip

theorem group?_eq_some_iff {cs : List Char} {g : UInt16} : group? cs = some g ↔ Group cs g := by
  constructor
  · intro h
    rw [group?] at h
    split_ifs at h with hlen
    obtain ⟨n, hn, rfl⟩ := Option.map_eq_some_iff.mp h
    have hnumeral := (Text.number?_eq_some_iff (by decide)).mp hn
    have hlt : n < UInt16.size :=
      hnumeral.lt_pow.trans_le (Nat.pow_le_pow_right (by decide) hlen)
    exact ⟨by rwa [UInt16.toNat_ofNat_of_lt' hlt], hlen⟩
  · rintro ⟨hnumeral, hlen⟩
    rw [group?, if_pos hlen, (Text.number?_eq_some_iff (by decide)).mpr hnumeral]
    simp

theorem Group.notMem {cs : List Char} {g : UInt16} (h : Group cs g) {c : Char}
    (hc : Text.isDigitOf 16 c = false) : c ∉ cs :=
  h.1.notMem (by decide) hc

namespace Groups

variable {tail : Bool} {cs : List Char} {gs : List UInt16}

theorem ne_nil (h : Groups tail cs gs) : cs ≠ [] := by
  cases h with
  | group hg => exact hg.1.ne_nil
  | dotted _ h4 => exact h4.ne_nil
  | cons _ _ => simp

/-- The first character is no colon. -/
theorem exists_head (h : Groups tail cs gs) : ∃ c more, cs = c :: more ∧ c ≠ ':' := by
  have hpiece : ∀ piece : List Char, piece ≠ [] → ':' ∉ piece →
      ∃ c more, piece = c :: more ∧ c ≠ ':' := by
    intro piece hne hcolon
    obtain ⟨c, more, rfl⟩ := List.exists_cons_of_ne_nil hne
    exact ⟨c, more, rfl, fun hc => hcolon (by simp [hc])⟩
  cases h with
  | group hg => exact hpiece _ hg.1.ne_nil (hg.notMem (by decide))
  | dotted _ h4 => exact hpiece _ h4.ne_nil h4.notMem_colon
  | cons hg _ =>
    obtain ⟨c, more, rfl, hc⟩ := hpiece _ hg.1.ne_nil (hg.notMem (by decide))
    exact ⟨c, _, List.cons_append, hc⟩

/-- What stands between groups is a single colon, so that a `::` is found behind them. -/
theorem cutDouble?_append (h : Groups tail cs gs) (rest : List Char) :
    cutDouble? (cs ++ rest) = (cutDouble? rest).map fun (a, b) => (cs ++ a, b) := by
  induction h with
  | group hg => exact Ipv6.cutDouble?_append rest (hg.notMem (by decide))
  | dotted _ h4 => exact Ipv6.cutDouble?_append rest h4.notMem_colon
  | @cons cs ds g gs hg hgs ih =>
    -- what follows the colon is no colon, but the first character of a group
    obtain ⟨c, more, rfl, hc⟩ := hgs.exists_head
    rw [List.append_assoc, Ipv6.cutDouble?_append _ (hg.notMem (by decide)), List.cons_append,
      List.cons_append, cutDouble?_colon hc, ← List.cons_append, ih, Option.map_map, Option.map_map]
    apply Option.map_congr
    rintro ⟨a, b⟩ -
    simp

end Groups

theorem groups_of_groupsOf? {tail : Bool} {pieces : List (List Char)} (hne : pieces ≠ [])
    {gs : List UInt16} (h : groupsOf? tail pieces = some gs) :
    Groups tail (Text.joinWith [':'] pieces) gs := by
  induction pieces generalizing gs with
  | nil => exact absurd rfl hne
  | cons piece pieces ih =>
    cases pieces with
    | nil =>
      rw [groupsOf?] at h
      rw [Text.joinWith]
      cases h4 : if tail then Ipv4.parse? piece else none with
      | some ip =>
        rw [h4] at h
        obtain rfl := Option.some.inj h
        split_ifs at h4 with htail
        exact .dotted htail (Ipv4.parse?_eq_some_iff.mp h4)
      | none =>
        rw [h4] at h
        obtain ⟨g, hg, rfl⟩ := Option.map_eq_some_iff.mp h
        exact .group (group?_eq_some_iff.mp hg)
    | cons next pieces =>
      rw [groupsOf?] at h
      · obtain ⟨g, hg, h⟩ := Option.bind_eq_some_iff.mp h
        obtain ⟨more, hmore, h⟩ := Option.bind_eq_some_iff.mp h
        obtain rfl := Option.some.inj h
        have hcons := Groups.cons (group?_eq_some_iff.mp hg) (ih (by simp) hmore)
        simpa [Text.joinWith] using hcons
      · simp

theorem groupsOf?_eq_some_iff {tail : Bool} {cs : List Char} {gs : List UInt16} :
    groupsOf? tail (Text.splitAt ':' cs) = some gs ↔ Groups tail cs gs := by
  constructor
  · intro h
    have hgroups := groups_of_groupsOf? (Text.splitAt_ne_nil ':' cs) h
    rwa [Text.joinWith_splitAt] at hgroups
  · intro h
    induction h with
    | @group cs g hg =>
      have h4 : Ipv4.parse? cs = none := Ipv4.parse?_eq_none_of_notMem (hg.notMem (by decide))
      rw [Text.splitAt_of_notMem (hg.notMem (by decide)), groupsOf?, h4, ite_self,
        group?_eq_some_iff.mpr hg]
      rfl
    | dotted htail h4 =>
      rw [Text.splitAt_of_notMem h4.notMem_colon, groupsOf?, if_pos htail,
        Ipv4.parse?_eq_some_iff.mpr h4]
    | @cons cs ds g gs hg _ ih =>
      rw [Text.splitAt_append, Text.splitAt_of_notMem (hg.notMem (by decide)), List.singleton_append,
        groupsOf?]
      · rw [group?_eq_some_iff.mpr hg, ih]
        rfl
      · exact Text.splitAt_ne_nil ':' ds

theorem side?_eq_some_iff {tail : Bool} {cs : List Char} {gs : List UInt16} :
    side? tail cs = some gs ↔ Side tail cs gs := by
  cases cs with
  | nil =>
    constructor
    · intro h
      obtain rfl := Option.some.inj h
      exact .vacant
    · rintro (_ | hgs)
      · rfl
      · exact absurd rfl hgs.ne_nil
  | cons c cs =>
    rw [side?, if_neg (by simp), groupsOf?_eq_some_iff]
    constructor
    · exact .groups
    · rintro (_ | hgs)
      exact hgs

theorem Groups.cutDouble?_eq_none {tail : Bool} {cs : List Char} {gs : List UInt16}
    (h : Groups tail cs gs) : cutDouble? cs = none := by
  have happend := h.cutDouble?_append []
  rwa [List.append_nil] at happend

theorem Side.cutDouble?_eq {tail : Bool} {cs : List Char} {gs : List UInt16} (h : Side tail cs gs)
    (rest : List Char) : cutDouble? (cs ++ ':' :: ':' :: rest) = some (cs, rest) := by
  cases h with
  | vacant => rfl
  | groups hgs =>
    rw [hgs.cutDouble?_append]
    simp [cutDouble?]

theorem eq_append_of_cutDouble? {cs left right : List Char}
    (h : cutDouble? cs = some (left, right)) : cs = left ++ ':' :: ':' :: right := by
  fun_induction cutDouble? cs generalizing left right with
  | case1 rest =>
    obtain ⟨rfl, rfl⟩ := Prod.mk.inj (Option.some.inj h)
    rfl
  | case2 c rest _ ih =>
    obtain ⟨⟨a, b⟩, hcut, heq⟩ := Option.map_eq_some_iff.mp h
    obtain ⟨rfl, rfl⟩ := Prod.mk.inj heq
    rw [List.cons_append, ← ih hcut]
  | case3 => cases h

theorem ofList?_eq_some_iff {gs : List UInt16} {ip : Ipv6} :
    ofList? gs = some ip ↔ ip.toList = gs := by
  constructor
  · intro h
    rw [ofList?] at h
    split_ifs at h
    obtain rfl := Option.some.inj h
    rfl
  · rintro rfl
    exact ip.ofList?_toList

/-- An address is read from exactly the texts that are derived for it. -/
theorem parse?_eq_some_iff {cs : List Char} {ip : Ipv6} : parse? cs = some ip ↔ Literal cs ip := by
  constructor
  · intro h
    rw [parse?] at h
    cases hcut : cutDouble? cs with
    | none =>
      rw [hcut] at h
      obtain ⟨gs, hgs, h⟩ := Option.bind_eq_some_iff.mp h
      obtain rfl := ofList?_eq_some_iff.mp h
      exact .full (groupsOf?_eq_some_iff.mp hgs)
    | some halves =>
      obtain ⟨left, right⟩ := halves
      rw [hcut] at h
      obtain ⟨before, hbefore, h⟩ := Option.bind_eq_some_iff.mp h
      obtain ⟨after, hafter, h⟩ := Option.bind_eq_some_iff.mp h
      split_ifs at h with hfew
      rw [eq_append_of_cutDouble? hcut]
      exact .short (side?_eq_some_iff.mp hbefore) (side?_eq_some_iff.mp hafter) (by omega)
        (ofList?_eq_some_iff.mp h)
  · rintro (hgs | @⟨left, right, before, after, zeros, _, hbefore, hafter, hzeros, hlist⟩)
    · rw [parse?, hgs.cutDouble?_eq_none]
      simp only [groupsOf?_eq_some_iff.mpr hgs, bind, Option.bind, ofList?_toList]
    · -- with eight groups in all, the zeros are as many as the two sides leave open
      have hlen := congrArg List.length hlist
      rw [ip.length_toList, List.length_append, List.length_append, List.length_replicate] at hlen
      have hfill : 8 - before.length - after.length = zeros := by omega
      rw [parse?, hbefore.cutDouble?_eq]
      simp only [side?_eq_some_iff.mpr hbefore, side?_eq_some_iff.mpr hafter, bind, Option.bind]
      rw [if_pos (by omega), hfill]
      exact ofList?_eq_some_iff.mpr hlist

end Ipv6

/-! ## Host names -/

def LetterOrDigit (c : Char) : Prop :=
  'a' ≤ c ∧ c ≤ 'z' ∨ 'A' ≤ c ∧ c ≤ 'Z' ∨ '0' ≤ c ∧ c ≤ '9'

/-- Letters, digits and hyphens, with a letter or a digit first and last. -/
inductive Label : List Char → Prop where
  | single {c} : LetterOrDigit c → Label [c]
  | enclosed {first inner last} : LetterOrDigit first →
      (∀ c ∈ inner, LetterOrDigit c ∨ c = '-') → LetterOrDigit last →
      Label (first :: (inner ++ [last]))

/-- One or more labels, of at most 63 characters each, with single dots between them. -/
inductive Labels : List Char → Prop where
  | single {cs} : Label cs → cs.length ≤ 63 → Labels cs
  | cons {cs ds} : Label cs → cs.length ≤ 63 → Labels ds → Labels (cs ++ '.' :: ds)

/-- A host name of at most 253 characters, which a dot may follow. -/
inductive HostName : List Char → Prop where
  | plain {cs} : Labels cs → cs.length ≤ 253 → HostName cs
  | rooted {cs} : Labels cs → cs.length ≤ 253 → HostName (cs ++ ['.'])

theorem isAlphanum_iff {c : Char} : c.isAlphanum = true ↔ LetterOrDigit c := by
  have hupper : c.isUpper = true ↔ 'A' ≤ c ∧ c ≤ 'Z' := by
    simp [Char.isUpper, Char.le_def]
  have hlower : c.isLower = true ↔ 'a' ≤ c ∧ c ≤ 'z' := by
    simp [Char.isLower, Char.le_def]
  have hdigit : c.isDigit = true ↔ '0' ≤ c ∧ c ≤ '9' := by
    simp [Char.isDigit, Char.le_def]
  rw [Char.isAlphanum, Char.isAlpha, Bool.or_eq_true, Bool.or_eq_true, hupper, hlower, hdigit,
    or_assoc, or_left_comm, LetterOrDigit]

instance (c : Char) : Decidable (LetterOrDigit c) :=
  inferInstanceAs (Decidable (_ ∧ _ ∨ _ ∧ _ ∨ _ ∧ _))

namespace Label

variable {cs : List Char}

theorem exists_head (h : Label cs) : ∃ c rest, cs = c :: rest ∧ LetterOrDigit c := by
  cases h with
  | single hc => exact ⟨_, _, rfl, hc⟩
  | enclosed hfirst _ _ => exact ⟨_, _, rfl, hfirst⟩

theorem exists_last (h : Label cs) : ∃ front c, cs = front ++ [c] ∧ LetterOrDigit c := by
  cases h with
  | single hc => exact ⟨[], _, rfl, hc⟩
  | enclosed _ _ hlast => exact ⟨_, _, (List.cons_append ..).symm, hlast⟩

theorem of_mem (h : Label cs) : ∀ c ∈ cs, LetterOrDigit c ∨ c = '-' := by
  cases h with
  | single hc =>
    intro c hmem
    obtain rfl := List.mem_singleton.mp hmem
    exact .inl hc
  | enclosed hfirst hinner hlast =>
    intro c hmem
    rcases List.mem_cons.mp hmem with rfl | hmem
    · exact .inl hfirst
    rcases List.mem_append.mp hmem with hmem | hmem
    · exact hinner c hmem
    · obtain rfl := List.mem_singleton.mp hmem
      exact .inl hlast

theorem notMem_dot (h : Label cs) : '.' ∉ cs := by
  intro hmem
  rcases h.of_mem '.' hmem with hdot | hdot
  · exact absurd hdot (by decide)
  · exact absurd hdot (by decide)

end Label

theorem label_of_isLabel {cs : List Char} (h : isLabel cs = true) :
    Label cs ∧ cs.length ≤ 63 := by
  simp only [isLabel, Bool.and_eq_true, Bool.not_eq_true', List.isEmpty_eq_false_iff,
    decide_eq_true_eq, bne_iff_ne, ne_eq, List.all_eq_true, Bool.or_eq_true, beq_iff_eq,
    isAlphanum_iff] at h
  obtain ⟨⟨⟨⟨hne, hlen⟩, hhead⟩, hlast⟩, hall⟩ := h
  refine ⟨?_, hlen⟩
  obtain ⟨first, rest, rfl⟩ := List.exists_cons_of_ne_nil hne
  have hfirst : LetterOrDigit first :=
    (hall first (by simp)).resolve_right fun hc => hhead (by simp [hc])
  rcases List.eq_nil_or_concat rest with rfl | ⟨inner, last, rfl⟩
  · exact .single hfirst
  · rw [List.concat_eq_append] at *
    refine .enclosed hfirst (fun c hc => hall c (by simp [hc])) ?_
    refine (hall last (by simp)).resolve_right fun hc => hlast ?_
    rw [hc, ← List.cons_append, List.getLast?_concat]

theorem isLabel_iff {cs : List Char} : isLabel cs = true ↔ Label cs ∧ cs.length ≤ 63 := by
  constructor
  · exact label_of_isLabel
  · rintro ⟨h, hlen⟩
    obtain ⟨first, rest, hcons, hfirst⟩ := h.exists_head
    obtain ⟨front, last, hconcat, hlast⟩ := h.exists_last
    have hhyphen : ¬ LetterOrDigit '-' := by decide
    simp only [isLabel, Bool.and_eq_true, Bool.not_eq_true', List.isEmpty_eq_false_iff,
      decide_eq_true_eq, bne_iff_ne, ne_eq, List.all_eq_true, Bool.or_eq_true, beq_iff_eq,
      isAlphanum_iff]
    refine ⟨⟨⟨⟨?_, hlen⟩, ?_⟩, ?_⟩, h.of_mem⟩
    · rw [hcons]
      exact List.cons_ne_nil _ _
    · rw [hcons, List.head?_cons, Option.some_inj]
      rintro rfl
      exact hhyphen hfirst
    · rw [hconcat, List.getLast?_concat, Option.some_inj]
      rintro rfl
      exact hhyphen hlast

namespace Labels

variable {cs : List Char}

theorem exists_head (h : Labels cs) : ∃ c rest, cs = c :: rest ∧ LetterOrDigit c := by
  cases h with
  | single hlabel _ => exact hlabel.exists_head
  | cons hlabel _ _ =>
    obtain ⟨c, rest, rfl, hc⟩ := hlabel.exists_head
    exact ⟨c, _, List.cons_append, hc⟩

theorem exists_last (h : Labels cs) : ∃ front c, cs = front ++ [c] ∧ LetterOrDigit c := by
  induction h with
  | single hlabel _ => exact hlabel.exists_last
  | cons _ _ _ ih =>
    obtain ⟨front, c, rfl, hc⟩ := ih
    exact ⟨_, c, (List.append_assoc _ ('.' :: front) [c]).symm, hc⟩

theorem ne_nil (h : Labels cs) : cs ≠ [] := by
  obtain ⟨c, rest, rfl, -⟩ := h.exists_head
  exact List.cons_ne_nil _ _

/-- No dot is last, so that there is none to be dropped. -/
theorem getLast?_ne (h : Labels cs) : cs.getLast? ≠ some '.' := by
  obtain ⟨front, c, rfl, hc⟩ := h.exists_last
  rw [List.getLast?_concat, ne_eq, Option.some_inj]
  rintro rfl
  exact absurd hc (by decide)

end Labels

theorem labels_of_pieces {pieces : List (List Char)} (hne : pieces ≠ [])
    (h : ∀ piece ∈ pieces, isLabel piece = true) : Labels (Text.joinWith ['.'] pieces) := by
  induction pieces with
  | nil => exact absurd rfl hne
  | cons piece pieces ih =>
    obtain ⟨hlabel, hlen⟩ := isLabel_iff.mp (h piece (by simp))
    cases pieces with
    | nil => exact .single hlabel hlen
    | cons next pieces =>
      have hrest := ih (by simp) fun other ho => h other (List.mem_cons_of_mem _ ho)
      have hcons := Labels.cons hlabel hlen hrest
      simpa [Text.joinWith] using hcons

theorem all_isLabel_iff {cs : List Char} :
    (Text.splitAt '.' cs).all isLabel = true ↔ Labels cs := by
  rw [List.all_eq_true]
  constructor
  · intro h
    have hlabels := labels_of_pieces (Text.splitAt_ne_nil '.' cs) h
    rwa [Text.joinWith_splitAt] at hlabels
  · intro h
    induction h with
    | single hlabel hlen =>
      rw [Text.splitAt_of_notMem hlabel.notMem_dot]
      simpa using isLabel_iff.mpr ⟨hlabel, hlen⟩
    | cons hlabel hlen _ ih =>
      rw [Text.splitAt_append, Text.splitAt_of_notMem hlabel.notMem_dot]
      simpa using ⟨isLabel_iff.mpr ⟨hlabel, hlen⟩, ih⟩

theorem isHostname_iff {cs : List Char} : isHostname cs = true ↔ HostName cs := by
  have hname : isHostname cs = true ↔
      Labels (dropRootDot cs) ∧ (dropRootDot cs).length ≤ 253 := by
    simp only [isHostname, Bool.and_eq_true, Bool.not_eq_true', List.isEmpty_eq_false_iff,
      decide_eq_true_eq, all_isLabel_iff]
    constructor
    · rintro ⟨⟨-, hlen⟩, hlabels⟩
      exact ⟨hlabels, hlen⟩
    · rintro ⟨hlabels, hlen⟩
      exact ⟨⟨hlabels.ne_nil, hlen⟩, hlabels⟩
  rw [hname]
  constructor
  · rintro ⟨hlabels, hlen⟩
    rw [dropRootDot] at hlabels hlen
    by_cases hdot : cs.getLast? = some '.'
    · rw [if_pos hdot] at hlabels hlen
      obtain ⟨front, rfl⟩ := List.getLast?_eq_some_iff.mp hdot
      rw [List.dropLast_concat] at hlabels hlen
      exact .rooted hlabels hlen
    · rw [if_neg hdot] at hlabels hlen
      exact .plain hlabels hlen
  · rintro (⟨hlabels, hlen⟩ | ⟨hlabels, hlen⟩)
    · rw [dropRootDot, if_neg hlabels.getLast?_ne]
      exact ⟨hlabels, hlen⟩
    · rw [dropRootDot, if_pos (List.getLast?_concat ..), List.dropLast_concat]
      exact ⟨hlabels, hlen⟩

/-! ## Addresses -/

namespace Address

def IpLiteral (cs : List Char) : Prop :=
  (∃ ip, Ipv4.Literal cs ip) ∨ ∃ ip, Ipv6.Literal cs ip

/-- A text of one kind of IP address is none of the other. -/
theorem parse?_ipv4_of_ipv6 {cs : List Char} {ip : Ipv6} (h : Ipv6.parse? cs = some ip) :
    Ipv4.parse? cs = none := by
  have hcolon : ':' ∈ cs := by
    by_contra hmem
    rw [Ipv6.parse?_eq_none_of_notMem hmem] at h
    cases h
  exact Ipv4.parse?_eq_none_of_mem hcolon (by decide) (by decide)

theorem not_ipLiteral_iff {cs : List Char} :
    ¬ IpLiteral cs ↔ Ipv4.parse? cs = none ∧ Ipv6.parse? cs = none := by
  simp only [IpLiteral, ← Ipv4.parse?_eq_some_iff, ← Ipv6.parse?_eq_some_iff, not_or, not_exists,
    ← ne_eq, ← Option.eq_none_iff_forall_ne_some]

theorem ofChars?_eq_ipv4_iff {cs : List Char} {ip : Ipv4} :
    ofChars? cs = some (.ipv4 ip) ↔ Ipv4.Literal cs ip := by
  rw [← Ipv4.parse?_eq_some_iff]
  constructor
  · intro h
    rcases ofChars?_cases h with ⟨_, h4, heq⟩ | ⟨_, -, -, heq⟩ | ⟨-, -, -, heq⟩
    · rw [h4, Address.ipv4.inj heq]
    · cases heq
    · cases heq
  · intro h4
    rw [ofChars?, h4]

theorem ofChars?_eq_ipv6_iff {cs : List Char} {ip : Ipv6} :
    ofChars? cs = some (.ipv6 ip) ↔ Ipv6.Literal cs ip := by
  rw [← Ipv6.parse?_eq_some_iff]
  constructor
  · intro h
    rcases ofChars?_cases h with ⟨_, -, heq⟩ | ⟨_, -, h6, heq⟩ | ⟨-, -, -, heq⟩
    · cases heq
    · rw [h6, Address.ipv6.inj heq]
    · cases heq
  · intro h6
    rw [ofChars?, parse?_ipv4_of_ipv6 h6, h6]

theorem ofChars?_eq_hostname_iff {cs name : List Char} :
    ofChars? cs = some (.hostname name) ↔
      ¬ IpLiteral cs ∧ HostName cs ∧ name = cs.map Char.toLower := by
  rw [not_ipLiteral_iff, ← isHostname_iff]
  constructor
  · intro h
    rcases ofChars?_cases h with ⟨_, -, heq⟩ | ⟨_, -, -, heq⟩ | ⟨h4, h6, hname, heq⟩
    · cases heq
    · cases heq
    · exact ⟨⟨h4, h6⟩, hname, Address.hostname.inj heq⟩
  · rintro ⟨⟨h4, h6⟩, hname, rfl⟩
    rw [ofChars?, h4, h6]
    exact if_pos hname

theorem ofChars?_eq_none_iff {cs : List Char} :
    ofChars? cs = none ↔ ¬ IpLiteral cs ∧ ¬ HostName cs := by
  rw [not_ipLiteral_iff, ← isHostname_iff, ofChars?]
  cases h4 : Ipv4.parse? cs with
  | some ip => simp
  | none =>
    cases h6 : Ipv6.parse? cs with
    | some ip => simp
    | none => simp

/-- What stands between the blanks of a text decides whether it is an address, and which. -/
theorem parse_derived (text : String) :
    (∀ ip, parse text = .ok (.ipv4 ip) ↔ Ipv4.Literal (Text.trimChars text.toList) ip) ∧
      (∀ ip, parse text = .ok (.ipv6 ip) ↔ Ipv6.Literal (Text.trimChars text.toList) ip) ∧
      (∀ name, parse text = .ok (.hostname name) ↔
        ¬ IpLiteral (Text.trimChars text.toList) ∧ HostName (Text.trimChars text.toList) ∧
          name = (Text.trimChars text.toList).map Char.toLower) ∧
      ∀ error, parse text = .error error ↔
        ¬ IpLiteral (Text.trimChars text.toList) ∧ ¬ HostName (Text.trimChars text.toList) ∧
          error = ⟨Text.trim text⟩ := by
  refine ⟨fun ip => ?_, fun ip => ?_, fun name => ?_, fun error => ?_⟩
  · rw [parse_eq_ok_iff, ofChars?_eq_ipv4_iff]
  · rw [parse_eq_ok_iff, ofChars?_eq_ipv6_iff]
  · rw [parse_eq_ok_iff, ofChars?_eq_hostname_iff]
  · rw [← and_assoc, ← ofChars?_eq_none_iff, parse, Text.trim]
    cases ofChars? (Text.trimChars text.toList) with
    | some address => simp
    | none => simp [eq_comm]

/-- Four numbers that are too large for an IP address are labels of a name. -/
example : parse "10.0.0.256" = .ok (.hostname "10.0.0.256".toList) := by decide +kernel

end Address

end Net

end RelayKeeper
