import RelayKeeper.Proofs.IpText
import RelayKeeper.Proofs.TomlReading
import RelayKeeper.Proofs.WrittenRoundTrip

/-! # Lines that are written

How texts, numbers and lists of texts are written as values, and that a line with a key and a value
reads back as the assignment of that value. -/
namespace RelayKeeper.Toml

/-! ## Strings -/

/-- The forms of a character in a basic string: itself, if it is not a quote, a backslash or a
control character, or an escape. -/
inductive Form : Char → List Char → Prop where
  | plain {c} : isPlain c = true → c ≠ '"' → c ≠ '\\' → Form c [c]
  | backspace : Form '\x08' ['\\', 'b']
  | tab : Form '\t' ['\\', 't']
  | lineFeed : Form '\n' ['\\', 'n']
  | formFeed : Form '\x0c' ['\\', 'f']
  | carriageReturn : Form '\r' ['\\', 'r']
  | quote : Form '"' ['\\', '"']
  | backslash : Form '\\' ['\\', '\\']
  | short {c} {digits : List Char} : digits.length = 4 → Text.number? 16 digits = some c.toNat →
      Form c ('\\' :: 'u' :: digits)
  | long {c} {digits : List Char} : digits.length = 8 → Text.number? 16 digits = some c.toNat →
      Form c ('\\' :: 'U' :: digits)

inductive Forms : List Char → List Char → Prop where
  | nil : Forms [] []
  | cons {c cs form forms} : Form c form → Forms cs forms → Forms (c :: cs) (form ++ forms)

def Quotes (text : String) (cs : List Char) : Prop :=
  ∃ body, Forms text.toList body ∧ cs = '"' :: body ++ ['"']

theorem codePoint_of_number {digits : List Char} {c : Char}
    (h : Text.number? 16 digits = some c.toNat) : codePoint? digits = some c := by
  have hvalid : c.toNat < 0xD800 ∨ (0xDFFF < c.toNat ∧ c.toNat < 0x110000) := c.valid
  have hrange : c.toNat < 0xD800 ∨ (0xDFFF < c.toNat ∧ c.toNat ≤ 0x10FFFF) := by omega
  simp [codePoint?, h, hrange, Char.ofNat_toNat]

theorem exists_pair {digits : List Char} {n : Nat} (h : digits.length = n + 2) :
    ∃ a b rest, digits = a :: b :: rest ∧ rest.length = n := by
  obtain ⟨a, more, rfl⟩ := List.exists_cons_of_length_eq_add_one h
  obtain ⟨b, rest, rfl⟩ := List.exists_cons_of_length_eq_add_one (Nat.succ.inj h)
  exact ⟨a, b, rest, rfl, Nat.succ.inj (Nat.succ.inj h)⟩

theorem basicRest_form {c : Char} {form : List Char} (h : Form c form) (rest : List Char) :
    basicRest (form ++ rest) = consRead c (basicRest rest) := by
  cases h with
  | plain hplain hquote hback => exact basicRest_plain hquote hback hplain rest
  | @short _ digits hlength hdigits =>
    have hcode := codePoint_of_number hdigits
    obtain ⟨_, _, _, rfl, htwo⟩ := exists_pair hlength
    obtain ⟨_, _, _, rfl, hzero⟩ := exists_pair htwo
    obtain rfl := List.eq_nil_of_length_eq_zero hzero
    simp [basicRest, hcode]
  | @long _ digits hlength hdigits =>
    have hcode := codePoint_of_number hdigits
    obtain ⟨_, _, _, rfl, hsix⟩ := exists_pair hlength
    obtain ⟨_, _, _, rfl, hfour⟩ := exists_pair hsix
    obtain ⟨_, _, _, rfl, htwo⟩ := exists_pair hfour
    obtain ⟨_, _, _, rfl, hzero⟩ := exists_pair htwo
    obtain rfl := List.eq_nil_of_length_eq_zero hzero
    simp [basicRest, hcode]
  | _ => exact basicRest_short rfl rest

theorem basicRest_forms {cs body : List Char} (h : Forms cs body) (rest : List Char) :
    basicRest (body ++ '"' :: rest) = some (cs, rest) := by
  induction h with
  | nil => rfl
  | cons hform _ ih => rw [List.append_assoc, basicRest_form hform, ih, consRead, Option.map_some]

/-- No form of a character starts with a quote. -/
theorem Form.exists_head {c : Char} {form : List Char} (h : Form c form) :
    ∃ d tail, form = d :: tail ∧ d ≠ '"' := by
  cases h with
  | plain _ hquote _ => exact ⟨_, _, rfl, hquote⟩
  | _ => exact ⟨'\\', _, rfl, by decide⟩

theorem anyString_quotes {text : String} {cs rest : List Char} (h : Quotes text cs)
    (hrest : rest.head? ≠ some '"') : anyString? (cs ++ rest) = some (text.toList, rest) := by
  obtain ⟨body, hforms, rfl⟩ := h
  have hquotes : ∀ more, '"' :: (body ++ '"' :: rest) ≠ '"' :: '"' :: '"' :: more := by
    intro more heq
    generalize text.toList = chars at hforms
    cases hforms with
    | nil =>
      have hmore : rest = '"' :: more := by simpa using heq
      exact hrest (by rw [hmore]; rfl)
    | cons hform _ =>
      obtain ⟨d, tail, rfl, hd⟩ := hform.exists_head
      have hquote : d = '"' := by simpa using (List.cons.inj (List.cons.inj heq).2).1
      exact hd hquote
  have hread : '"' :: body ++ ['"'] ++ rest = '"' :: (body ++ '"' :: rest) := by simp
  rw [hread, anyString?]
  · exact basicRest_forms hforms rest
  · exact hquotes
  · intro more heq
    exact absurd (List.cons.inj heq).1 (by decide)

/-- Every character has a form: hexadecimal digits are enough for each. -/
theorem exists_form (c : Char) : ∃ form, Form c form := by
  by_cases hplain : isPlain c = true ∧ c ≠ '"' ∧ c ≠ '\\'
  · exact ⟨_, .plain hplain.1 hplain.2.1 hplain.2.2⟩
  · have hsmall : c.toNat < 128 := by
      by_contra hlarge
      have hne : ∀ d : Char, d.toNat < 128 → c ≠ d := by
        rintro d hd rfl
        exact hlarge hd
      have hspace : ' ' ≤ c := by
        have hle : ' '.toNat ≤ c.toNat := Nat.le_trans (by decide) (Nat.not_lt.mp hlarge)
        exact hle
      have hdelete := hne '\x7f' (by decide)
      exact hplain ⟨by simp [isPlain, hspace, hdelete], hne '"' (by decide), hne '\\' (by decide)⟩
    have hdigits : ∀ n < 128, Text.number? 16
        ['0', '0', (n / 16).digitChar, (n % 16).digitChar] = some n := by decide
    exact ⟨_, .short rfl (hdigits c.toNat hsmall)⟩

/-- Every text has a basic string. -/
theorem exists_quotes (text : String) : ∃ cs, Quotes text cs := by
  have hchars : ∀ cs, ∃ body, Forms cs body := by
    intro cs
    induction cs with
    | nil => exact ⟨[], .nil⟩
    | cons c cs ih =>
      obtain ⟨body, hbody⟩ := ih
      obtain ⟨form, hform⟩ := exists_form c
      exact ⟨_, .cons hform hbody⟩
  obtain ⟨body, hbody⟩ := hchars text.toList
  exact ⟨_, body, hbody, rfl⟩

/-! ## Numbers -/

theorem ungroup_digits {cs : List Char} (hne : cs ≠ [])
    (h : ∀ c ∈ cs, Text.isDigitOf 10 c = true) : ungroup? 10 cs = some cs := by
  fun_induction ungroup? 10 cs with
  | case1 => exact absurd rfl hne
  | case2 => rfl
  | case3 c hc => exact absurd (h c List.mem_cons_self) hc
  | case4 | case5 => exact absurd (h '_' (by simp)) (by decide)
  | case6 c rest hsingle _ hc ih =>
    have hrest : rest ≠ [] := fun hnil => hsingle hnil
    rw [ih hrest fun d hd => h d (List.mem_cons_of_mem c hd)]
    rfl
  | case7 c rest _ _ hc => exact absurd (h c List.mem_cons_self) hc

theorem isDigitOf_toDigits (n : Nat) : ∀ c ∈ Nat.toDigits 10 n, Text.isDigitOf 10 c = true :=
  Text.isDigitOf_of_readDigits (Text.readDigits_toDigits (by decide) (by decide) n)

theorem decimal_toDigits (n : Nat) : decimal? (Nat.toDigits 10 n) = some (Nat.toDigits 10 n) := by
  have hzero : ¬ ((Nat.toDigits 10 n).head? = some '0' ∧ (Nat.toDigits 10 n).length ≠ 1) := by
    rintro ⟨hhead, hlength⟩
    rcases Nat.eq_zero_or_pos n with rfl | hpos
    · exact hlength rfl
    · exact Json.head_toDigits hpos hhead
  simp only [decimal?, ungroup_digits Nat.toDigits_ne_nil (isDigitOf_toDigits n)]
  simpa using hzero

theorem cutSign_toDigits (n : Nat) :
    cutSign (Nat.toDigits 10 n) = (false, Nat.toDigits 10 n) := by
  have hdigit := isDigitOf_toDigits n
  unfold cutSign
  split
  · next rest heq => exact absurd (hdigit '-' (by simp [heq])) (by decide)
  · next rest heq => exact absurd (hdigit '+' (by simp [heq])) (by decide)
  · rfl

def fitting? (n : Int) : Option Int :=
  if -Int.pow 2 63 ≤ n && n < Int.pow 2 63 then some n else none

theorem integer_decimal {cs : List Char} (hx : ∀ rest, cs ≠ '0' :: 'x' :: rest)
    (ho : ∀ rest, cs ≠ '0' :: 'o' :: rest) (hb : ∀ rest, cs ≠ '0' :: 'b' :: rest) :
    integer? cs = (decimal? (cutSign cs).2).bind fun digits =>
      (Text.number? 10 digits).bind fun n =>
        fitting? (if (cutSign cs).1 then -(Int.ofNat n) else Int.ofNat n) := by
  unfold integer?
  split
  · next rest => exact absurd rfl (hx rest)
  · next rest => exact absurd rfl (ho rest)
  · next rest => exact absurd rfl (hb rest)
  · rfl

theorem fitting_ofNat {n : Nat} (h : n < 2 ^ 63) : fitting? n = some (n : Int) := by
  have hlimit : Int.pow 2 63 = 9223372036854775808 := by decide
  unfold fitting?
  rw [if_pos]
  rw [hlimit, Bool.and_eq_true, decide_eq_true_eq, decide_eq_true_eq]
  omega

theorem integer_toDigits {n : Nat} (h : n < 2 ^ 63) :
    integer? (Nat.toDigits 10 n) = some (n : Int) := by
  have hnone : ∀ c, Text.isDigitOf 10 c = false →
      ∀ rest, Nat.toDigits 10 n ≠ '0' :: c :: rest := by
    intro c hc rest heq
    have hmem := isDigitOf_toDigits n c (by simp [heq])
    rw [hc] at hmem
    cases hmem
  have hnumber : Text.number? 10 (Nat.toDigits 10 n) = some n :=
    Text.number?_toDigits (by decide) (by decide) n
  rw [integer_decimal (hnone _ rfl) (hnone _ rfl) (hnone _ rfl), cutSign_toDigits,
    decimal_toDigits, Option.bind_some, hnumber, Option.bind_some]
  exact fitting_ofNat h

theorem scalar_toDigits {n : Nat} (h : n < 2 ^ 63) :
    scalar? (Nat.toDigits 10 n) = some (.integer n) := by
  have hdigit := isDigitOf_toDigits n
  have htrue : Nat.toDigits 10 n ≠ "true".toList := by
    intro heq
    exact absurd (hdigit 't' (by simp [heq])) (by decide)
  have hfalse : Nat.toDigits 10 n ≠ "false".toList := by
    intro heq
    exact absurd (hdigit 'f' (by simp [heq])) (by decide)
  rw [scalar?, if_neg htrue, if_neg hfalse, integer_toDigits h]

theorem isDate_toDigits (n : Nat) : isDate (Nat.toDigits 10 n) = false := by
  have hdash : '-' ∉ Nat.toDigits 10 n := by
    intro hmem
    exact absurd (isDigitOf_toDigits n '-' hmem) (by decide)
  rw [isDate, Text.splitAt_of_notMem hdash]

theorem isScalarChar_toDigits (n : Nat) : ∀ c ∈ Nat.toDigits 10 n, isScalarChar c = true := by
  intro c hc
  have hdigit : c.isDigit = true := Json.all_isDigit_toDigits n c hc
  simp [isScalarChar, Char.isAlphanum, hdigit]

/-- A number is read up to the first character that is no part of one. -/
theorem scalarValue_toDigits {n : Nat} (h : n < 2 ^ 63) {rest : List Char}
    (hrest : ∀ c ∈ rest.head?, isScalarChar c = false) :
    scalarValue? (Nat.toDigits 10 n ++ rest) = some (.integer n, rest) := by
  have hall := isScalarChar_toDigits n
  have htake : rest.takeWhile isScalarChar = [] := by
    cases rest with
    | nil => rfl
    | cons c rest => exact List.takeWhile_cons_of_neg (by simp [hrest c rfl])
  have hdrop : rest.dropWhile isScalarChar = rest := by
    cases rest with
    | nil => rfl
    | cons c rest => exact List.dropWhile_cons_of_neg (by simp [hrest c rfl])
  unfold scalarValue?
  rw [List.takeWhile_append_of_pos hall, List.dropWhile_append_of_pos hall, htake, hdrop,
    List.append_nil]
  dsimp only
  rw [isDate_toDigits, scalar_toDigits h]
  rfl

theorem value_toDigits {n : Nat} (h : n < 2 ^ 63) {rest : List Char}
    (hrest : ∀ c ∈ rest.head?, isScalarChar c = false) (inlineTable : InlineTable) (depth : Nat) :
    value? inlineTable depth (Nat.toDigits 10 n ++ rest) = some (.integer n, rest) := by
  obtain ⟨c, digits, hdigits⟩ := List.exists_cons_of_ne_nil (Nat.toDigits_ne_nil (b := 10) (n := n))
  have hc : Text.isDigitOf 10 c = true := isDigitOf_toDigits n c (by simp [hdigits])
  have hhead : ∀ d, Text.isDigitOf 10 d = false →
      ∀ tail, Nat.toDigits 10 n ++ rest ≠ d :: tail := by
    intro d hd tail heq
    rw [hdigits] at heq
    obtain ⟨rfl, -⟩ := List.cons.inj heq
    rw [hd] at hc
    cases hc
  rw [value_scalar inlineTable depth (hhead _ rfl) (hhead _ rfl) (hhead _ rfl) (hhead _ rfl)]
  exact scalarValue_toDigits h hrest

/-! ## Lists of texts -/

def Gap (cs : List Char) : Prop := ∀ c ∈ cs, c = ' ' ∨ c = '\t' ∨ c = '\n'

/-- The texts of an array after its bracket, with gaps between them. A comma may stand before the
closing bracket. -/
inductive Lists : List String → List Char → Prop where
  | close {gap} : Gap gap → Lists [] (gap ++ [']'])
  | last {text gap cs space} : Gap gap → Quotes text cs → Gap space →
      Lists [text] (gap ++ (cs ++ (space ++ [']'])))
  | cons {text texts gap cs space rest} : Gap gap → Quotes text cs → Gap space →
      Lists texts rest → Lists (text :: texts) (gap ++ (cs ++ (space ++ ',' :: rest)))

def Starts (c : Char) : Prop := isBlank c = false ∧ c ≠ '\n' ∧ c ≠ '\r' ∧ c ≠ '#'

instance (c : Char) : Decidable (Starts c) :=
  inferInstanceAs (Decidable (_ ∧ _))

theorem skipLines_gap {gap : List Char} {c : Char} (h : Gap gap) (hc : Starts c) {fuel : Nat}
    (hfuel : gap.length < fuel) (rest : List Char) :
    skipLines? fuel (gap ++ c :: rest) = some (c :: rest) := by
  obtain ⟨hblank, hbreak, hreturn, hcomment⟩ := hc
  induction gap generalizing fuel with
  | nil =>
    obtain ⟨fuel, rfl⟩ := Nat.exists_eq_succ_of_ne_zero (Nat.ne_of_gt hfuel)
    have hskip : skipBlanks (c :: rest) = c :: rest := List.dropWhile_cons_of_neg (by simp [hblank])
    rw [List.nil_append, skipLines?, hskip]
    split <;> simp_all
  | cons d gap ih =>
    obtain ⟨fuel, rfl⟩ := Nat.exists_eq_succ_of_ne_zero (show fuel ≠ 0 by omega)
    have hgap : Gap gap := fun e he => h e (List.mem_cons_of_mem d he)
    have hlength : gap.length < fuel := Nat.lt_of_succ_lt_succ hfuel
    rcases h d List.mem_cons_self with rfl | rfl | rfl
    · exact ih hgap (Nat.lt_succ_of_lt hlength)
    · exact ih hgap (Nat.lt_succ_of_lt hlength)
    · exact ih hgap hlength

theorem skipAll_gap {gap : List Char} {c : Char} (h : Gap gap) (hc : Starts c) (rest : List Char) :
    skipAll? (gap ++ c :: rest) = some (c :: rest) := by
  refine skipLines_gap h hc ?_ rest
  rw [List.length_append]
  omega

theorem value_quotes {text : String} {cs rest : List Char} (h : Quotes text cs)
    (hrest : rest.head? ≠ some '"') (inlineTable : InlineTable) (depth : Nat) :
    value? inlineTable depth (cs ++ rest) = some (.string text, rest) := by
  have hread := anyString_quotes h hrest
  obtain ⟨body, -, rfl⟩ := h
  rw [List.cons_append, List.cons_append] at hread ⊢
  rw [value_basic, hread, Option.map_some]
  exact congrArg (fun text => some (Value.string text, rest)) (String.ofList_toList)

theorem Gap.head_append_ne {gap : List Char} {c : Char} (h : Gap gap) (hc : c ≠ '"')
    (rest : List Char) : (gap ++ c :: rest).head? ≠ some '"' := by
  cases gap with
  | nil => simpa using hc
  | cons d gap =>
    rcases h d List.mem_cons_self with rfl | rfl | rfl <;> simp

def itemsFrom (inlineTable : InlineTable) (depth fuel : Nat) (text : String) :
    List Char → Option (List Value × List Char)
  | ']' :: rest => some ([.string text], rest)
  | ',' :: rest => (items? (value? inlineTable depth) fuel rest).bind fun (others, rest) =>
    some (.string text :: others, rest)
  | _ => none

/-- A gap, a text and another gap are read, up to what comes next. -/
theorem items_text {text : String} {gap cs space : List Char} {c : Char} (hgap : Gap gap)
    (h : Quotes text cs) (hspace : Gap space) (hc : Starts c) (hquote : c ≠ '"')
    (inlineTable : InlineTable) (depth fuel : Nat) (next : List Char) :
    items? (value? inlineTable depth) (fuel + 1) (gap ++ (cs ++ (space ++ c :: next))) =
      itemsFrom inlineTable depth fuel text (c :: next) := by
  have hvalue := value_quotes h (hspace.head_append_ne hquote next) inlineTable depth
  obtain ⟨body, -, rfl⟩ := h
  have hstart : Starts '"' := by decide
  rw [items?]
  simp only [List.cons_append] at hvalue ⊢
  rw [skipAll_gap hgap hstart, Option.bind_eq_bind, Option.bind_some]
  split
  · next rest heq => cases heq
  · rw [hvalue]
    simp only [Option.bind_eq_bind, Option.bind_some, skipAll_gap hspace hc]
    rfl

theorem items_lists {texts : List String} {cs : List Char} (h : Lists texts cs)
    (inlineTable : InlineTable) (depth : Nat) {fuel : Nat} (hfuel : cs.length < fuel)
    (rest : List Char) :
    items? (value? inlineTable depth) fuel (cs ++ rest) = some (texts.map .string, rest) := by
  induction h generalizing fuel with
  | @close gap hgap =>
    obtain ⟨fuel, rfl⟩ := Nat.exists_eq_succ_of_ne_zero (show fuel ≠ 0 by omega)
    rw [items?, List.append_assoc, List.singleton_append, skipAll_gap hgap (by decide)]
    rfl
  | @last text gap cs space hgap htext hspace =>
    obtain ⟨fuel, rfl⟩ := Nat.exists_eq_succ_of_ne_zero (show fuel ≠ 0 by omega)
    have hsplit : gap ++ (cs ++ (space ++ [']'])) ++ rest =
        gap ++ (cs ++ (space ++ ']' :: rest)) := by simp
    rw [hsplit, items_text hgap htext hspace (by decide) (by decide)]
    rfl
  | @cons text texts gap cs space tail hgap htext hspace _ ih =>
    obtain ⟨fuel, rfl⟩ := Nat.exists_eq_succ_of_ne_zero (show fuel ≠ 0 by omega)
    have hsplit : gap ++ (cs ++ (space ++ ',' :: tail)) ++ rest =
        gap ++ (cs ++ (space ++ ',' :: (tail ++ rest))) := by simp
    have htail : tail.length < fuel := by
      simp only [List.length_append, List.length_cons] at hfuel
      omega
    rw [hsplit, items_text hgap htext hspace (by decide) (by decide), itemsFrom, ih htail]
    rfl

/-- Every list of texts can be written. -/
theorem exists_lists (texts : List String) : ∃ cs, Lists texts cs := by
  induction texts with
  | nil => exact ⟨_, @Lists.close [] nofun⟩
  | cons text texts ih =>
    obtain ⟨cs, hcs⟩ := exists_quotes text
    obtain ⟨rest, hrest⟩ := ih
    exact ⟨_, @Lists.cons text texts [] cs [] rest nofun hcs nofun hrest⟩

/-! ## Values and lines -/

/-- The text of a value: a basic string, a decimal number or an array of basic strings. -/
inductive Spells : Value → List Char → Prop where
  | text {text cs} : Quotes text cs → Spells (.string text) cs
  | number {n : Nat} : n < 2 ^ 63 → Spells (.integer n) (Nat.toDigits 10 n)
  | texts {texts cs} : Lists texts cs → Spells (.array (texts.map .string)) ('[' :: cs)

variable {cs rest : List Char}

def Space (cs : List Char) : Prop := ∀ c ∈ cs, isBlank c = true

theorem space_nil : Space [] := nofun

theorem space_singleton {c : Char} (hc : isBlank c = true) : Space [c] :=
  List.forall_mem_singleton.mpr hc

inductive Line (key : String) (value : Value) : List Char → Prop where
  | intro {indent before after cs end_} : Space indent → Space before → Space after →
      Spells value cs → Space end_ →
      Line key value (indent ++ (key.toList ++ (before ++ '=' :: (after ++ (cs ++ end_)))))

/-- What a key and a value stand for can be written on a line. -/
theorem Spells.exists_line {value : Value} (h : Spells value cs) (key : String) :
    ∃ line, Line key value line :=
  ⟨_, @Line.intro key value [] [] [] cs [] space_nil space_nil space_nil h space_nil⟩

theorem Space.head (h : Space cs) : ∀ c ∈ cs.head?, c = ' ' ∨ c = '\t' := by
  intro c hc
  simpa [isBlank] using h c (List.mem_of_head? hc)

theorem skipBlanks_space (h : Space cs) (rest : List Char) :
    skipBlanks (cs ++ rest) = skipBlanks rest :=
  List.dropWhile_append_of_pos h

theorem skipBlanks_cons {c : Char} (hc : isBlank c = false) (rest : List Char) :
    skipBlanks (c :: rest) = c :: rest :=
  List.dropWhile_cons_of_neg (by simp [hc])

theorem value_spells {value : Value} (h : Spells value cs) (hrest : Space rest)
    (inlineTable : InlineTable) (depth : Nat) :
    value? inlineTable (depth + 1) (cs ++ rest) = some (value, rest) := by
  cases h with
  | text hquotes =>
    refine value_quotes hquotes ?_ inlineTable (depth + 1)
    intro hhead
    rcases hrest.head _ hhead with h | h <;> cases h
  | number hn =>
    refine value_toDigits hn ?_ inlineTable (depth + 1)
    intro c hc
    rcases hrest.head c hc with rfl | rfl <;> rfl
  | @texts texts cs hlists =>
    have hfuel : cs.length < (cs ++ rest).length + 1 := by simp
    rw [List.cons_append, value_array, items_lists hlists inlineTable depth hfuel, Option.bind_some]

theorem Spells.exists_head {value : Value} (h : Spells value cs) :
    ∃ c tail, cs = c :: tail ∧ isBlank c = false := by
  cases h with
  | text hquotes =>
    obtain ⟨body, -, rfl⟩ := hquotes
    exact ⟨'"', _, rfl, rfl⟩
  | @number n hn =>
    obtain ⟨c, tail, hdigits⟩ := List.exists_cons_of_ne_nil (Nat.toDigits_ne_nil (b := 10) (n := n))
    have hc : isScalarChar c = true := isScalarChar_toDigits n c (by simp [hdigits])
    refine ⟨c, tail, hdigits, ?_⟩
    refine Bool.eq_false_iff.mpr fun hblank => ?_
    have hspace : c = ' ' ∨ c = '\t' := by simpa [isBlank] using hblank
    rcases hspace with rfl | rfl <;> cases hc
  | texts _ => exact ⟨'[', _, rfl, rfl⟩

def Bare (key : String) : Prop :=
  key.toList ≠ [] ∧ ∀ c ∈ key.toList, isBareKeyChar c = true

instance (key : String) : Decidable (Bare key) :=
  inferInstanceAs (Decidable (_ ∧ _))

section key

variable {key : String} {c : Char}

/-- The first character of a key is none that stands outside keys. -/
theorem Bare.append_ne (h : Bare key) (hc : isBareKeyChar c = false) (rest tail : List Char) :
    key.toList ++ rest ≠ c :: tail := by
  intro heq
  obtain ⟨d, ds, hkey⟩ := List.exists_cons_of_ne_nil h.1
  rw [hkey] at heq
  obtain ⟨rfl, -⟩ := List.cons.inj heq
  rw [h.2 d (by simp [hkey])] at hc
  cases hc

theorem Bare.name (h : Bare key) (hc : isBareKeyChar c = false) (rest : List Char) :
    name? (key.toList ++ c :: rest) = some (key, c :: rest) := by
  have htake : (key.toList ++ c :: rest).takeWhile isBareKeyChar = key.toList := by
    rw [List.takeWhile_append_of_pos h.2, List.takeWhile_cons_of_neg (by simp [hc]),
      List.append_nil]
  have hdrop : (key.toList ++ c :: rest).dropWhile isBareKeyChar = c :: rest := by
    rw [List.dropWhile_append_of_pos h.2, List.dropWhile_cons_of_neg (by simp [hc])]
  unfold name?
  split
  · next tail heq => exact absurd heq (h.append_ne rfl _ tail)
  · next tail heq => exact absurd heq (h.append_ne rfl _ tail)
  · dsimp only
    rw [htake, hdrop, if_neg (by simpa using h.1), String.ofList_toList]

theorem Bare.skipBlanks_append (h : Bare key) (rest : List Char) :
    skipBlanks (key.toList ++ rest) = key.toList ++ rest := by
  obtain ⟨c, tail, hkey⟩ := List.exists_cons_of_ne_nil h.1
  have hc : isBareKeyChar c = true := h.2 c (by simp [hkey])
  rw [hkey, List.cons_append]
  refine skipBlanks_cons (Bool.eq_false_iff.mpr fun hblank => ?_) _
  have hspace : c = ' ' ∨ c = '\t' := by simpa [isBlank] using hblank
  rcases hspace with rfl | rfl <;> cases hc

theorem Bare.path {before : List Char} (h : Bare key) (hbefore : Space before) (rest : List Char) :
    key? (key.toList ++ (before ++ '=' :: rest)) = some (⟨[], key⟩, '=' :: rest) := by
  have hname : name? (key.toList ++ (before ++ '=' :: rest)) =
      some (key, before ++ '=' :: rest) := by
    cases before with
    | nil => exact h.name rfl rest
    | cons c before =>
      refine h.name ?_ _
      rcases hbefore.head c rfl with rfl | rfl <;> rfl
  have hskip : skipBlanks (before ++ '=' :: rest) = '=' :: rest := by
    rw [skipBlanks_space hbefore, skipBlanks_cons rfl]
  rw [key?, longestKey, names?, h.skipBlanks_append, hname]
  simp only [Option.bind_eq_bind, Option.bind_some, hskip]
  rfl

end key

/-- The assignment that a line holds is read, up to the blanks after its value. -/
theorem statement_line {key : String} {value : Value} {before after text end_ : List Char}
    (hkey : Bare key) (hbefore : Space before) (hafter : Space after) (hvalue : Spells value text)
    (hend : Space end_) (inlineTable : InlineTable) :
    statement? inlineTable (key.toList ++ (before ++ '=' :: (after ++ (text ++ end_)))) =
      some (.assign ⟨[], key⟩ value, end_) := by
  have hread : value? inlineTable deepest (text ++ end_) = some (value, end_) :=
    value_spells hvalue hend inlineTable 78
  obtain ⟨c, tail, htext, hblank⟩ := hvalue.exists_head
  have hskip : skipBlanks (after ++ (text ++ end_)) = text ++ end_ := by
    rw [skipBlanks_space hafter, htext, List.cons_append, skipBlanks_cons hblank]
  unfold statement?
  split
  · next rest heq => exact absurd heq (hkey.append_ne rfl _ rest)
  · simp only [assignment?, hkey.path hbefore, Option.bind_eq_bind, Option.bind_some, hskip, hread]

/-- A line reads as the assignment of its value to its key. -/
theorem says_line {key : String} {value : Value} (hkey : Bare key) (h : Line key value cs)
    (inlineTable : InlineTable) : Says inlineTable cs [.assign ⟨[], key⟩ value] := by
  obtain ⟨hindent, hbefore, hafter, hvalue, hend⟩ := h
  next indent before after text end_ =>
  have hstatement := statement_line hkey hbefore hafter hvalue hend inlineTable
  have hline : endLine? end_ = some [] := by
    have hnil : skipBlanks end_ = [] := List.dropWhile_eq_nil_iff.mpr hend
    rw [endLine?, hnil]
    rfl
  have hnone : ∀ fuel, statementsOf? inlineTable (fuel + 1) [] = some [] := fun _ => rfl
  obtain ⟨fuel, hfuel⟩ : ∃ fuel, (indent ++ (key.toList ++ (before ++ '=' ::
      (after ++ (text ++ end_))))).length = fuel + 1 :=
    ⟨indent.length + (key.toList.length + (before.length + (after ++ (text ++ end_)).length)),
      by simp only [List.length_append, List.length_cons]; omega⟩
  rw [Says, hfuel, statementsOf?, skipBlanks_space hindent, hkey.skipBlanks_append]
  split
  · next heq => exact absurd heq (by simp)
  · next rest heq => exact absurd heq (hkey.append_ne rfl _ rest)
  · next rest heq => exact absurd heq (hkey.append_ne rfl _ _)
  · next rest heq => exact absurd heq (hkey.append_ne rfl _ rest)
  · simp only [hstatement, hline, hnone, Option.bind_eq_bind, Option.bind_some]

end RelayKeeper.Toml
