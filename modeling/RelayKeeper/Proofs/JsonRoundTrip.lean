import RelayKeeper.Json.Printer
import RelayKeeper.Json.Reader

/-! # Reading back what was printed

Scanning a printed value yields its tokens, whatever follows, as long as what follows cannot prolong
a number or a word. Reading those tokens yields the value. -/
namespace RelayKeeper.Json

mutual
def tokens : Json → List Token
  | .null => [.null]
  | .bool value => [.bool value]
  | .number literal => [.number literal]
  | .string text => [.string text]
  | .array [] => [.openArray, .closeArray]
  | .array (item :: items) => .openArray :: (tokens item ++ itemTokens items)
  | .object [] => [.openObject, .closeObject]
  | .object ((name, value) :: members) =>
    .openObject :: .string name :: .colon :: (tokens value ++ memberTokens members)

def itemTokens : List Json → List Token
  | [] => [.closeArray]
  | item :: items => .comma :: (tokens item ++ itemTokens items)

def memberTokens : List (Option String × Json) → List Token
  | [] => [.closeObject]
  | (name, value) :: members =>
    .comma :: .string name :: .colon :: (tokens value ++ memberTokens members)
end

def IsNumeral (literal : List Char) : Prop :=
  isNumber literal ∧ ∀ c ∈ literal, isNumberChar c

mutual
/-- Every number has a literal of a number; all else can be printed as it is. -/
def Printable : Json → Prop
  | .number literal => IsNumeral literal
  | .array items => PrintableItems items
  | .object members => PrintableMembers members
  | _ => True

def PrintableItems : List Json → Prop
  | [] => True
  | item :: items => Printable item ∧ PrintableItems items

def PrintableMembers : List (Option String × Json) → Prop
  | [] => True
  | (_, value) :: members => Printable value ∧ PrintableMembers members
end

/-- The text does not go on with a character that belongs to a number or a word. -/
def Stops (rest : List Char) : Prop :=
  ∀ c ∈ rest.head?, isNumberChar c = false ∧ c.isLower = false

theorem stops_nil : Stops [] := by
  simp [Stops]

theorem stops_cons {c : Char} (rest : List Char) (hn : isNumberChar c = false)
    (hl : c.isLower = false) : Stops (c :: rest) := by
  intro d hd
  obtain rfl : c = d := by simpa using hd
  exact ⟨hn, hl⟩

theorem stops_prettyItems (depth : Nat) (items : List Json) (rest : List Char) :
    Stops (prettyItems depth items ++ rest) := by
  cases items with
  | nil => exact stops_cons _ (by decide) (by decide)
  | cons item items => exact stops_cons _ (by decide) (by decide)

theorem stops_prettyMembers (depth : Nat) (members : List (Option String × Json))
    (rest : List Char) : Stops (prettyMembers depth members ++ rest) := by
  cases members with
  | nil => exact stops_cons _ (by decide) (by decide)
  | cons member members => exact stops_cons _ (by decide) (by decide)

/-! ## Scanning -/

theorem run_cons {s t : Scanner} {c : Char} {out : List Token}
    (h : s.step? c = some (t, out)) (cs : List Char) :
    s.run? (c :: cs) = (t.run? cs).map (out ++ ·) := by
  rw [Scanner.run?, h]
  cases hr : t.run? cs <;> simp [hr]

theorem run_dead {s : Scanner} {c : Char} (h : s.step? c = none) (cs : List Char) :
    s.run? (c :: cs) = none := by
  rw [Scanner.run?, h]
  rfl

/-- Inside a token nothing is given out. -/
theorem run_silent {s t : Scanner} {c : Char} (h : s.step? c = some (t, []))
    (cs : List Char) : s.run? (c :: cs) = t.run? cs := by
  rw [run_cons h]
  simp

/-- A number or a word ends where the text stops. -/
theorem run_of_stops {s : Scanner} {ended : List Token} {rest : List Char}
    (hf : s.finish? = some ended)
    (hs : ∀ c ∈ rest.head?, s.step? c =
      (Scanner.start? c).map fun p => (p.1, ended ++ p.2)) :
    s.run? rest = (Scanner.run? .between rest).map (ended ++ ·) := by
  cases rest with
  | nil =>
    have hb : Scanner.run? .between [] = some [] := rfl
    rw [Scanner.run?, hf, hb]
    simp
  | cons c cs =>
    have hc := hs c rfl
    cases h : Scanner.start? c with
    | none =>
      rw [h] at hc
      rw [run_dead hc, run_dead (s := .between) h]
      rfl
    | some p =>
      rw [h] at hc
      rw [run_cons hc, run_cons (s := .between) h]
      cases p.1.run? cs <;> simp

theorem run_word {read rest : List Char} {token : Token} (hw : word? read.reverse = some token)
    (hs : Stops rest) :
    Scanner.run? (.word read) rest = (Scanner.run? .between rest).map ([token] ++ ·) := by
  have hf : Scanner.finish? (.word read) = some [token] := by simp [Scanner.finish?, hw]
  refine run_of_stops hf fun c hc => ?_
  have hl := (hs c hc).2
  cases h : Scanner.start? c <;> simp [Scanner.step?, hl, hf, h]

theorem run_number {read rest : List Char} (hn : isNumber read.reverse = true) (hs : Stops rest) :
    Scanner.run? (.number read) rest =
      (Scanner.run? .between rest).map ([.number read.reverse] ++ ·) := by
  have hf : Scanner.finish? (.number read) = some [.number read.reverse] := by
    simp [Scanner.finish?, hn]
  refine run_of_stops hf fun c hc => ?_
  have hl := (hs c hc).1
  cases h : Scanner.start? c <;> simp [Scanner.step?, hl, hf, h]

theorem run_number_chars (literal read rest : List Char) (hc : ∀ c ∈ literal, isNumberChar c) :
    Scanner.run? (.number read) (literal ++ rest) =
      Scanner.run? (.number (literal.reverse ++ read)) rest := by
  induction literal generalizing read with
  | nil => rfl
  | cons c cs ih =>
    have h : isNumberChar c = true := hc c (by simp)
    rw [List.cons_append, run_silent (t := .number (c :: read)) (by simp [Scanner.step?, h]),
      ih (c :: read) fun d hd => hc d (by simp [hd])]
    simp

/-- A number starts with a sign or a digit. -/
theorem head_of_isNumber {literal : List Char} (h : isNumber literal = true) :
    ∃ c cs, literal = c :: cs ∧ (c = '-' ∨ c.isDigit = true) := by
  cases literal with
  | nil => simp [isNumber, dropDigits?] at h
  | cons c cs =>
    refine ⟨c, cs, rfl, ?_⟩
    by_cases hm : c = '-'
    · exact .inl hm
    · by_cases hd : c.isDigit
      · exact .inr hd
      · have h0 : c ≠ '0' := by
          rintro rfl
          exact hd (by decide)
        simp [isNumber, hm, dropDigits?, hd, h0] at h

theorem start_digit {c : Char} (h : c.isDigit = true) :
    Scanner.start? c = some (.number [c], []) := by
  have hne : ∀ d : Char, d.isDigit = false → c ≠ d := by
    rintro d hd rfl
    simp [h] at hd
  simp [Scanner.start?, isSpace, h, hne ' ' rfl, hne '\t' rfl, hne '\n' rfl, hne '\r' rfl,
    hne '[' rfl, hne ']' rfl, hne '\x7b' rfl, hne '\x7d' rfl, hne ':' rfl, hne ',' rfl, hne '"' rfl]

theorem scan_number {literal rest : List Char} (h : IsNumeral literal) (hs : Stops rest) :
    Scanner.run? .between (literal ++ rest) =
      (Scanner.run? .between rest).map ([.number literal] ++ ·) := by
  obtain ⟨c, cs, rfl, hc⟩ := head_of_isNumber h.1
  have hstep : Scanner.step? .between c = some (.number [c], []) := by
    rcases hc with rfl | hd
    · rfl
    · exact start_digit hd
  rw [List.cons_append, run_silent hstep,
    run_number_chars cs [c] rest fun d hd => h.2 d (by simp [hd]),
    run_number (by simpa using h.1) hs]
  simp

theorem digitValue_digitChar : ∀ d < 16, Text.digitValue? 16 d.digitChar = some d := by
  decide

/-- The four digits of a `\u` escape give the code unit to the string. -/
theorem run_unit {a b c d : Nat} (ha : a < 16) (hb : b < 16) (hc : c < 16) (hd : d < 16)
    (p : Partial) (rest : List Char) :
    Scanner.run? (.unit p 0 0)
        (a.digitChar :: b.digitChar :: c.digitChar :: d.digitChar :: rest) =
      Scanner.run? (.string (p.pushUnit (16 * (16 * (16 * a + b) + c) + d))) rest := by
  have step (n value digit : Nat) (hn : n ≠ 3) (h : digit < 16) :
      Scanner.step? (.unit p n value) digit.digitChar =
        some (.unit p (n + 1) (16 * value + digit), []) := by
    simp [Scanner.step?, digitValue_digitChar digit h, hn]
  have last (value digit : Nat) (h : digit < 16) :
      Scanner.step? (.unit p 3 value) digit.digitChar =
        some (.string (p.pushUnit (16 * value + digit)), []) := by
    simp [Scanner.step?, digitValue_digitChar digit h]
  rw [run_silent (step 0 0 a (by decide) ha), run_silent (step 1 _ b (by decide) hb),
    run_silent (step 2 _ c (by decide) hc), run_silent (last _ d hd)]
  simp

theorem pushUnit_control {c : Char} (h : c < ' ') (p : Partial) :
    p.pushUnit c.toNat = p.push c := by
  have hc : c.toNat < 32 := h
  have hs : ¬ 0xD800 ≤ c.toNat := by omega
  have hl : ¬ 0xDC00 ≤ c.toNat := by omega
  simp [Partial.pushUnit, hs, hl]

theorem run_short {c e : Char} (hu : c ≠ 'u') (h : shortEscape? c = some e) (p : Partial)
    (rest : List Char) :
    Scanner.run? (.string p) ('\\' :: c :: rest) = Scanner.run? (.string (p.push e)) rest := by
  have hb : Scanner.step? (.string p) '\\' = some (.escape p, []) := rfl
  rw [run_silent hb, run_silent (t := .string (p.push e)) (by simp [Scanner.step?, hu, h])]

/-- Scanning undoes the escape of a character. -/
theorem run_escapeChar (c : Char) (p : Partial) (rest : List Char) :
    Scanner.run? (.string p) (escapeChar c ++ rest) = Scanner.run? (.string (p.push c)) rest := by
  unfold escapeChar
  split
  · subst c; exact run_short (by decide) rfl p rest
  split
  · subst c; exact run_short (by decide) rfl p rest
  split
  · subst c; exact run_short (by decide) rfl p rest
  split
  · subst c; exact run_short (by decide) rfl p rest
  split
  · subst c; exact run_short (by decide) rfl p rest
  split
  · subst c; exact run_short (by decide) rfl p rest
  split
  · subst c; exact run_short (by decide) rfl p rest
  split
  · next h =>
    have hc : c.toNat < 32 := h
    have hb : Scanner.step? (.string p) '\\' = some (.escape p, []) := rfl
    have hu : Scanner.step? (.escape p) 'u' = some (.unit p 0 0, []) := rfl
    have hz : (0).digitChar = '0' := rfl
    have hr := run_unit (a := 0) (b := 0) (c := c.toNat / 16) (d := c.toNat % 16)
      (by omega) (by omega) (by omega) (by omega) p rest
    rw [hz, show 16 * (16 * (16 * 0 + 0) + c.toNat / 16) + c.toNat % 16 = c.toNat by omega,
      pushUnit_control h] at hr
    simpa only [List.cons_append, List.nil_append, run_silent hb, run_silent hu] using hr
  · next hq hbs _ _ _ _ _ hlt =>
    rw [List.singleton_append,
      run_silent (t := .string (p.push c)) (by simp [Scanner.step?, hq, hbs, hlt])]

theorem run_escaped (cs read rest : List Char) :
    Scanner.run? (.string ⟨some read, none⟩) (cs.flatMap escapeChar ++ rest) =
      Scanner.run? (.string ⟨some (cs.reverse ++ read), none⟩) rest := by
  induction cs generalizing read with
  | nil => rfl
  | cons c cs ih =>
    have hp : Partial.push ⟨some read, none⟩ c = ⟨some (c :: read), none⟩ := rfl
    rw [List.flatMap_cons, List.append_assoc, run_escapeChar, hp, ih]
    simp

theorem scan_quoted (text : Option String) (rest : List Char) :
    Scanner.run? .between (quoted text ++ rest) =
      (Scanner.run? .between rest).map ([.string text] ++ ·) := by
  have ho : Scanner.step? .between '"' = some (.string .empty, []) := rfl
  have hc (p : Partial) : Scanner.step? (.string p) '"' = some (.between, [.string p.result]) := rfl
  match text with
  | some s =>
    have hq : quoted (some s) = '"' :: (s.toList.flatMap escapeChar ++ ['"']) := rfl
    have hr : Partial.result ⟨some (s.toList.reverse ++ []), none⟩ = some s := by
      simp [Partial.result]
    rw [hq, List.cons_append, List.append_assoc, run_silent ho, Partial.empty, run_escaped,
      List.singleton_append, run_cons (hc _), hr]
  | none =>
    have hb : Scanner.step? (.string .empty) '\\' = some (.escape .empty, []) := rfl
    have hu : Scanner.step? (.escape .empty) 'u' = some (.unit .empty 0 0, []) := rfl
    have hq : quoted none = ['"', '\\', 'u', (13).digitChar, (8).digitChar, (0).digitChar,
      (0).digitChar, '"'] := by decide
    have hr : Partial.result (Partial.pushUnit .empty 0xD800) = none := by decide
    rw [hq]
    simp only [List.cons_append, List.nil_append]
    rw [run_silent ho, run_silent hb, run_silent hu,
      run_unit (by decide) (by decide) (by decide) (by decide), run_cons (hc _), hr]
    rfl

/-! ## Values -/

theorem run_space {c : Char} (h : isSpace c = true) (rest : List Char) :
    Scanner.run? .between (c :: rest) = Scanner.run? .between rest :=
  run_silent (by simp [Scanner.step?, Scanner.start?, h]) rest

theorem run_lineBreak (depth : Nat) (rest : List Char) :
    Scanner.run? .between (lineBreak depth ++ rest) = Scanner.run? .between rest := by
  have spaces (n : Nat) : Scanner.run? .between (List.replicate n ' ' ++ rest) =
      Scanner.run? .between rest := by
    induction n with
    | zero => rfl
    | succ n ih => rw [List.replicate_succ, List.cons_append, run_space rfl, ih]
  rw [lineBreak, List.cons_append, run_space rfl, spaces]

theorem run_word_chars (word read rest : List Char) (hc : ∀ c ∈ word, c.isLower) :
    Scanner.run? (.word read) (word ++ rest) = Scanner.run? (.word (word.reverse ++ read)) rest := by
  induction word generalizing read with
  | nil => rfl
  | cons c cs ih =>
    have h : c.isLower = true := hc c (by simp)
    rw [List.cons_append, run_silent (t := .word (c :: read)) (by simp [Scanner.step?, h]),
      ih (c :: read) fun d hd => hc d (by simp [hd])]
    simp

theorem scan_word {c : Char} {w rest : List Char} {t : Token}
    (hw : word? (c :: w) = some t) (hc : Scanner.start? c = some (.word [c], []))
    (hl : w.all Char.isLower = true) (hs : Stops rest) :
    Scanner.run? .between (c :: w ++ rest) = (Scanner.run? .between rest).map ([t] ++ ·) := by
  rw [List.cons_append, run_silent (s := .between) hc,
    run_word_chars w [c] rest (List.all_eq_true.mp hl), run_word (by simpa using hw) hs]

/-- A colon, a comma or a bracket is a token of its own. -/
theorem scan_mark {c : Char} {t : Token} (h : Scanner.start? c = some (.between, [t]))
    (rest : List Char) :
    Scanner.run? .between (c :: rest) = (Scanner.run? .between rest).map ([t] ++ ·) :=
  run_cons (s := .between) h rest

theorem scan_name (name : Option String) (rest : List Char) :
    Scanner.run? .between (quoted name ++ (':' :: ' ' :: rest)) =
      (Scanner.run? .between rest).map ([.string name, .colon] ++ ·) := by
  rw [scan_quoted, scan_mark (t := .colon) rfl, run_space rfl]
  simp [Function.comp_def]

mutual
/-- Scanning a printed value yields its tokens, and goes on with what follows. -/
theorem scan_value (depth : Nat) (value : Json) (rest : List Char) (h : Printable value)
    (hs : Stops rest) :
    Scanner.run? .between (prettyAt depth value ++ rest) =
      (Scanner.run? .between rest).map (tokens value ++ ·) := by
  match value with
  | .null =>
    exact scan_word (c := 'n') (w := "ull".toList) (t := .null) (by decide) rfl rfl hs
  | .bool true =>
    exact scan_word (c := 't') (w := "rue".toList) (t := .bool true) (by decide) rfl rfl hs
  | .bool false =>
    exact scan_word (c := 'f') (w := "alse".toList) (t := .bool false) (by decide) rfl rfl hs
  | .number literal => exact scan_number h hs
  | .string text => exact scan_quoted text rest
  | .array [] =>
    simp only [prettyAt, tokens, List.cons_append, List.nil_append]
    rw [scan_mark (c := '[') (t := .openArray) rfl, scan_mark (t := .closeArray) rfl]
    simp [Function.comp_def]
  | .array (item :: items) =>
    simp only [prettyAt, tokens, List.cons_append, List.append_assoc]
    rw [scan_mark (t := .openArray) rfl, run_lineBreak,
      scan_value (depth + 1) item _ h.1 (stops_prettyItems _ _ _), scan_items depth items rest h.2]
    simp [Function.comp_def]
  | .object [] =>
    simp only [prettyAt, tokens, List.cons_append, List.nil_append]
    rw [scan_mark (c := '\x7b') (t := .openObject) rfl, scan_mark (t := .closeObject) rfl]
    simp [Function.comp_def]
  | .object ((name, value) :: members) =>
    simp only [prettyAt, tokens, List.cons_append, List.append_assoc, List.nil_append]
    rw [scan_mark (t := .openObject) rfl, run_lineBreak, scan_name,
      scan_value (depth + 1) value _ h.1 (stops_prettyMembers _ _ _),
      scan_members depth members rest h.2]
    simp [Function.comp_def]

theorem scan_items (depth : Nat) (items : List Json) (rest : List Char) (h : PrintableItems items) :
    Scanner.run? .between (prettyItems depth items ++ rest) =
      (Scanner.run? .between rest).map (itemTokens items ++ ·) := by
  match items with
  | [] =>
    simp only [prettyItems, itemTokens, List.append_assoc, List.singleton_append]
    rw [run_lineBreak, scan_mark (t := .closeArray) rfl]
    simp
  | item :: items =>
    simp only [prettyItems, itemTokens, List.cons_append, List.append_assoc]
    rw [scan_mark (t := .comma) rfl, run_lineBreak,
      scan_value (depth + 1) item _ h.1 (stops_prettyItems _ _ _), scan_items depth items rest h.2]
    simp [Function.comp_def]

theorem scan_members (depth : Nat) (members : List (Option String × Json)) (rest : List Char)
    (h : PrintableMembers members) :
    Scanner.run? .between (prettyMembers depth members ++ rest) =
      (Scanner.run? .between rest).map (memberTokens members ++ ·) := by
  match members with
  | [] =>
    simp only [prettyMembers, memberTokens, List.append_assoc, List.singleton_append]
    rw [run_lineBreak, scan_mark (t := .closeObject) rfl]
    simp
  | (name, value) :: members =>
    simp only [prettyMembers, memberTokens, List.cons_append, List.append_assoc, List.nil_append]
    rw [scan_mark (t := .comma) rfl, run_lineBreak, scan_name,
      scan_value (depth + 1) value _ h.1 (stops_prettyMembers _ _ _),
      scan_members depth members rest h.2]
    simp [Function.comp_def]
end

/-! ## Reading tokens -/

/-- No value starts with a closing bracket. -/
theorem tokens_head (value : Json) :
    ∃ token rest, tokens value = token :: rest ∧ token ≠ .closeArray := by
  match value with
  | .null | .bool _ | .number _ | .string _ | .array [] | .object [] =>
    exact ⟨_, _, rfl, by simp⟩
  | .array (_ :: _) | .object ((_, _) :: _) => exact ⟨_, _, rfl, by simp⟩

theorem read_first_item (stack : List Frame) (value : Json) (rest : List Token) :
    Reader.run? (.atFirstItem stack) (tokens value ++ rest) =
      Reader.run? (.atValue (.array [] :: stack)) (tokens value ++ rest) := by
  obtain ⟨token, more, he, hne⟩ := tokens_head value
  rw [he, List.cons_append, Reader.run?, Reader.run?]
  cases token <;> first | rfl | exact absurd rfl hne

mutual
/-- Reading the tokens of a value puts the value where it was due. -/
theorem read_value (value : Json) (stack : List Frame) (rest : List Token) :
    Reader.run? (.atValue stack) (tokens value ++ rest) =
      Reader.run? (Reader.put value stack) rest := by
  match value with
  | .null | .bool _ | .number _ | .string _ | .array [] | .object [] => rfl
  | .array (item :: items) =>
    have h0 : Reader.run? (.atValue stack) (tokens (.array (item :: items)) ++ rest) =
        Reader.run? (.atFirstItem stack) (tokens item ++ (itemTokens items ++ rest)) := by
      simp [tokens, Reader.run?, Reader.step?, Reader.start?]
    rw [h0, read_first_item, read_value item, Reader.put, read_items items]
    rfl
  | .object ((name, value) :: members) =>
    have h0 : Reader.run? (.atValue stack) (tokens (.object ((name, value) :: members)) ++ rest) =
        Reader.run? (.atValue (.object [] name :: stack))
          (tokens value ++ (memberTokens members ++ rest)) := by
      simp [tokens, Reader.run?, Reader.step?, Reader.start?]
    rw [h0, read_value value, Reader.put, read_members members]
    rfl

theorem read_items (items : List Json) (read : List Json) (stack : List Frame)
    (rest : List Token) :
    Reader.run? (.after (.array read) stack) (itemTokens items ++ rest) =
      Reader.run? (Reader.put (.array (read.reverse ++ items)) stack) rest := by
  match items with
  | [] => simp [itemTokens, Reader.run?, Reader.step?]
  | item :: items =>
    have h0 : Reader.run? (.after (.array read) stack) (itemTokens (item :: items) ++ rest) =
        Reader.run? (.atValue (.array read :: stack))
          (tokens item ++ (itemTokens items ++ rest)) := by
      simp [itemTokens, Reader.run?, Reader.step?]
    rw [h0, read_value item, Reader.put, read_items items]
    simp

theorem read_members (members read : List (Option String × Json)) (last : Option String)
    (stack : List Frame) (rest : List Token) :
    Reader.run? (.after (.object read last) stack) (memberTokens members ++ rest) =
      Reader.run? (Reader.put (.object (read.reverse ++ members)) stack) rest := by
  match members with
  | [] => simp [memberTokens, Reader.run?, Reader.step?]
  | (name, value) :: members =>
    have h0 : Reader.run? (.after (.object read last) stack)
        (memberTokens ((name, value) :: members) ++ rest) =
        Reader.run? (.atValue (.object read name :: stack))
          (tokens value ++ (memberTokens members ++ rest)) := by
      simp [memberTokens, Reader.run?, Reader.step?]
    rw [h0, read_value value, Reader.put, read_members members]
    simp
end

theorem ofTokens_tokens (value : Json) : ofTokens? (tokens value) = some value := by
  have h := read_value value [] []
  rw [List.append_nil] at h
  exact h

/-- What is printed reads back as the value. -/
theorem parse_pretty {value : Json} (h : Printable value) : parse? value.pretty = some value := by
  have hs := scan_value 0 value [] h stops_nil
  rw [List.append_nil] at hs
  have hb : Scanner.run? .between [] = some [] := rfl
  rw [parse?, scan?, pretty, hs, hb]
  simpa using ofTokens_tokens value

end RelayKeeper.Json
