import RelayKeeper.Proofs.TomlStrings

/-! # Lines that are read one by one

A statement is read in the same way whether its line is the last one or not. So the statements of a
text are those of its lines, or of its parts that span several lines. -/
namespace RelayKeeper.Toml

/-! ## Keys -/

theorem keeps_bareName (cs more : List Char) :
    Keeps ('\n' :: more)
      (if (cs.takeWhile isBareKeyChar).isEmpty then none
        else some (String.ofList (cs.takeWhile isBareKeyChar), cs.dropWhile isBareKeyChar))
      (if ((cs ++ '\n' :: more).takeWhile isBareKeyChar).isEmpty then none
        else some (String.ofList ((cs ++ '\n' :: more).takeWhile isBareKeyChar),
          (cs ++ '\n' :: more).dropWhile isBareKeyChar)) := by
  rw [takeWhile_append_break rfl, dropWhile_append_break rfl]
  split
  · exact .none _
  · exact .done _ _

theorem settled_name : Settled name? := by
  intro cs more
  unfold name?
  split
  · next rest => exact (settled_lineString ('"' :: rest) more).map String.ofList
  · next rest => exact (settled_lineString ('\'' :: rest) more).map String.ofList
  · next hbasic hliteral =>
    have hbasic' := append_break_ne ['"'] (by decide) hbasic more
    have hliteral' := append_break_ne ['\''] (by decide) hliteral more
    split
    · next rest heq => exact absurd heq (hbasic' rest)
    · next rest heq => exact absurd heq (hliteral' rest)
    · exact keeps_bareName cs more

theorem settled_names (limit : Nat) : Settled (names? limit) := by
  induction limit with
  | zero => exact fun _ _ => .none _
  | succ limit ih =>
    intro cs more
    unfold names?
    rw [skipBlanks_append_break]
    refine (settled_name _ more).bind fun first rest => ?_
    dsimp only
    rw [skipBlanks_append_break]
    split
    · next tail htail =>
      rw [htail]
      refine (ih tail more).bind fun others rest => ?_
      exact .done (first :: others) rest
    · next hdot =>
      have hdot' := append_break_ne ['.'] (by decide) hdot more
      split
      · next tail heq => exact absurd heq (hdot' tail)
      · exact .done [first] _

theorem settled_key : Settled key? := by
  intro cs more
  exact (settled_names longestKey cs more).bind fun names rest => .done _ rest

/-! ## Items -/

theorem length_skipBlanks_le (cs : List Char) : (skipBlanks cs).length ≤ cs.length :=
  (List.dropWhile_sublist _).length_le

/-- A comment ends at its line break, or at the one that follows the text. -/
theorem dropComment_append_break {cs ds : List Char} (h : dropComment? cs = some ds)
    (more : List Char) : dropComment? (cs ++ '\n' :: more) = some (ds ++ '\n' :: more) := by
  unfold dropComment? at h ⊢
  split at h
  · next rest =>
    rw [dropWhile_append_break rfl]
    dsimp only [List.cons_append]
    split at h <;> try cases h
    · next hnone =>
      rw [hnone]
      rfl
    · next tail htail =>
      rw [htail]
      rfl
    · next tail htail =>
      rw [htail]
      rfl
  · next hcomment =>
    have hcomment' := append_break_ne ['#'] (by decide) hcomment more
    obtain rfl := Option.some.inj h
    split
    · next rest heq => exact absurd heq (hcomment' rest)
    · rfl

theorem length_dropComment_le {rest ds : List Char} (h : dropComment? ('#' :: rest) = some ds) :
    ds.length ≤ rest.length := by
  have hdrop : (('#' :: rest).dropWhile isPlain).length ≤ rest.length := by
    rw [List.dropWhile_cons_of_pos rfl]
    exact (List.dropWhile_sublist _).length_le
  simp only [dropComment?] at h
  split at h
  · obtain rfl := Option.some.inj h
    exact Nat.zero_le _
  · next tail htail =>
    obtain rfl := Option.some.inj h
    rwa [htail] at hdrop
  · next tail htail =>
    obtain rfl := Option.some.inj h
    rwa [htail] at hdrop
  · cases h

/-- A text whose first character is neither skipped nor half of a line break still starts with it
when a line break follows. -/
theorem solid_append_break {cs : List Char} (hne : cs ≠ []) (hreturn : cs ≠ ['\r'])
    (hbreak : ∀ rest, cs ≠ '\n' :: rest) (hbreaks : ∀ rest, cs ≠ '\r' :: '\n' :: rest)
    (hcomment : ∀ rest, cs ≠ '#' :: rest) (more : List Char) :
    (∀ rest, cs ++ '\n' :: more ≠ '\n' :: rest) ∧
      (∀ rest, cs ++ '\n' :: more ≠ '\r' :: '\n' :: rest) ∧
      ∀ rest, cs ++ '\n' :: more ≠ '#' :: rest := by
  obtain ⟨c, tail, rfl⟩ := List.exists_cons_of_ne_nil hne
  refine ⟨?_, ?_, append_break_ne ['#'] (by decide) hcomment more⟩
  · intro rest heq
    obtain ⟨rfl, -⟩ := List.cons.inj heq
    exact hbreak tail rfl
  · intro rest heq
    obtain ⟨rfl, htail⟩ := List.cons.inj heq
    cases tail with
    | nil => exact hreturn rfl
    | cons d tail =>
      obtain ⟨rfl, -⟩ := List.cons.inj htail
      exact hbreaks tail rfl

/-- With enough fuel all is skipped that there is to skip, and it is skipped too if a line break and
more follow. -/
theorem skipLines_append_break {fuel larger : Nat} {cs ds : List Char} (hfuel : cs.length < fuel)
    (hlarger : fuel ≤ larger) (h : skipLines? fuel cs = some ds) (hne : ds ≠ [])
    (hreturn : ds ≠ ['\r']) (more : List Char) :
    skipLines? larger (cs ++ '\n' :: more) = some (ds ++ '\n' :: more) := by
  induction fuel generalizing cs larger with
  | zero => exact absurd hfuel (Nat.not_lt_zero _)
  | succ fuel ih =>
    obtain ⟨larger, rfl⟩ := Nat.exists_eq_succ_of_ne_zero (show larger ≠ 0 by omega)
    have hskip := length_skipBlanks_le cs
    rw [skipLines?] at h ⊢
    rw [skipBlanks_append_break]
    split at h
    · next rest hrest =>
      rw [hrest] at hskip ⊢
      exact ih (by simp at hskip; omega) (by omega) h
    · next rest hrest =>
      rw [hrest] at hskip ⊢
      exact ih (by simp at hskip; omega) (by omega) h
    · next rest hrest =>
      rw [hrest] at hskip ⊢
      split at h
      · next c tail hcomment =>
        have hlength := length_dropComment_le hcomment
        have hcomment' := dropComment_append_break hcomment more
        simp only [List.cons_append] at hcomment' ⊢
        rw [hcomment']
        exact ih (by simp at hskip hlength ⊢; omega) (by omega) h
      · cases h
    · next hbreak hbreaks hcomment =>
      obtain rfl := Option.some.inj h
      obtain ⟨hbreak', hreturn', hcomment'⟩ :=
        solid_append_break hne hreturn hbreak hbreaks hcomment more
      split
      · next rest heq => exact absurd heq (hbreak' rest)
      · next rest heq => exact absurd heq (hreturn' rest)
      · next rest heq => exact absurd heq (hcomment' rest)
      · rfl

theorem skipAll_append_break {cs ds : List Char} (h : skipAll? cs = some ds) (hne : ds ≠ [])
    (hreturn : ds ≠ ['\r']) (more : List Char) :
    skipAll? (cs ++ '\n' :: more) = some (ds ++ '\n' :: more) := by
  refine skipLines_append_break ?_ ?_ h hne hreturn more
  · omega
  · rw [List.length_append]
    omega

/-- What comes after skipping keeps what it reads, if it reads nothing where the text ends. -/
theorem keeps_skipAll {next next' : List Char → Option (α × List Char)} {more : List Char}
    (hnil : next [] = none) (hreturn : next ['\r'] = none)
    (hnext : ∀ ds, Keeps ('\n' :: more) (next ds) (next' (ds ++ '\n' :: more))) (cs : List Char) :
    Keeps ('\n' :: more) ((skipAll? cs).bind next)
      ((skipAll? (cs ++ '\n' :: more)).bind next') := by
  intro a rest h
  obtain ⟨ds, hskip, h⟩ := Option.bind_eq_some_iff.mp h
  have hne : ds ≠ [] := by
    rintro rfl
    rw [hnil] at h
    cases h
  have hret : ds ≠ ['\r'] := by
    rintro rfl
    rw [hreturn] at h
    cases h
  rw [skipAll_append_break hskip hne hret more]
  exact hnext ds a rest h

section items

variable {item : Reader α}

theorem keeps_items (hitem : Settled item) (hnil : item [] = none) (hreturn : item ['\r'] = none)
    {fuel larger : Nat} (hlarger : fuel ≤ larger) (cs more : List Char) :
    Keeps ('\n' :: more) (items? item fuel cs) (items? item larger (cs ++ '\n' :: more)) := by
  induction fuel generalizing cs larger with
  | zero => exact .none _
  | succ fuel ih =>
    obtain ⟨larger, rfl⟩ := Nat.exists_eq_succ_of_ne_zero (show larger ≠ 0 by omega)
    rw [items?, items?]
    refine keeps_skipAll ?_ ?_ (fun ds => ?_) cs
    · simp [hnil]
    · simp [hreturn]
    split
    · next rest => exact .done [] rest
    · next hclose =>
      have hclose' := append_break_ne [']'] (by decide) hclose more
      split
      · next rest heq => exact absurd heq (hclose' rest)
      refine (hitem ds more).bind fun first rest => ?_
      refine keeps_skipAll rfl rfl (fun es => ?_) rest
      split
      · next rest => exact .done [first] rest
      · next rest =>
        refine Keeps.bind (ih (by omega) rest) fun others rest => ?_
        exact .done (first :: others) rest
      · exact .none _

end items

/-! ## Assignments -/

section assignments

variable {value : Reader Value}

theorem settled_assignment (h : Settled value) : Settled (assignment? value) := by
  intro cs more
  unfold assignment?
  refine (settled_key cs more).bind fun key rest => ?_
  dsimp only
  split
  · next rest =>
    simp only [List.cons_append, skipBlanks_append_break]
    refine (h _ more).bind fun v rest => ?_
    exact .done (key, v) rest
  · exact .none _

theorem keeps_inlineEntries (h : Settled value) {fuel larger : Nat} (hlarger : fuel ≤ larger)
    (cs more : List Char) :
    Keeps ('\n' :: more) (inlineEntries? value fuel cs)
      (inlineEntries? value larger (cs ++ '\n' :: more)) := by
  induction fuel generalizing cs larger with
  | zero => exact .none _
  | succ fuel ih =>
    obtain ⟨larger, rfl⟩ := Nat.exists_eq_succ_of_ne_zero (show larger ≠ 0 by omega)
    rw [inlineEntries?, inlineEntries?]
    refine (settled_assignment h cs more).bind fun first rest => ?_
    dsimp only
    rw [skipBlanks_append_break]
    split
    · next tail htail =>
      rw [htail]
      exact .done [first] tail
    · next tail htail =>
      rw [htail]
      refine Keeps.bind (ih (by omega) tail) fun others rest => ?_
      exact .done (first :: others) rest
    · exact .none _

end assignments

/-! ## Values -/

theorem settled_scalarValue : Settled scalarValue? := by
  intro cs more
  unfold scalarValue?
  dsimp only
  rw [takeWhile_append_break rfl, dropWhile_append_break rfl]
  generalize cs.takeWhile isScalarChar = literal
  generalize cs.dropWhile isScalarChar = after
  have hscalar : ∀ rest, Keeps ('\n' :: more) ((scalar? literal).map (·, rest))
      ((scalar? literal).map (·, rest ++ '\n' :: more)) := by
    intro rest
    cases scalar? literal with
    | none => exact .none _
    | some value => exact .done value rest
  split
  · next d tail hdate =>
    simp only [hdate, List.cons_append]
    split
    · rw [← List.cons_append, takeWhile_append_break rfl, dropWhile_append_break rfl]
      cases scalar? (literal ++ ' ' :: (d :: tail).takeWhile isScalarChar) with
      | none => exact .none _
      | some value => exact .done value _
    · exact hscalar (' ' :: d :: tail)
  · next after _ _ hnone =>
    split
    · next d tail hdate heq =>
      -- the only character that is new after a blank is the line break
      have hafter : after = [' '] := by
        cases after with
        | nil => cases heq
        | cons c after =>
          obtain ⟨rfl, hmore⟩ := List.cons.inj heq
          cases after with
          | nil => rfl
          | cons e after => exact (hnone e after hdate rfl).elim
      subst hafter
      obtain ⟨-, htail⟩ := List.cons.inj heq
      obtain ⟨rfl, -⟩ := List.cons.inj htail
      exact hscalar [' ']
    · exact hscalar after

section value

variable (inlineTable : InlineTable) (depth : Nat)

theorem value_basic (rest : List Char) : value? inlineTable depth ('"' :: rest) =
    (anyString? ('"' :: rest)).map fun (text, rest) => (.string (String.ofList text), rest) := by
  cases depth <;> rfl

theorem value_literal (rest : List Char) : value? inlineTable depth ('\'' :: rest) =
    (anyString? ('\'' :: rest)).map fun (text, rest) => (.string (String.ofList text), rest) := by
  cases depth <;> rfl

theorem value_array (rest : List Char) : value? inlineTable (depth + 1) ('[' :: rest) =
    (items? (value? inlineTable depth) (rest.length + 1) rest).bind
      fun (items, rest) => some (.array items, rest) :=
  rfl

theorem value_table (rest : List Char) : value? inlineTable (depth + 1) ('\x7b' :: rest) =
    match skipBlanks rest with
    | '\x7d' :: rest => some (.table [], rest)
    | rest => (inlineEntries? (value? inlineTable depth) (rest.length + 1) rest).bind
        fun (entries, rest) => (inlineTable entries).bind fun table => some (table, rest) :=
  rfl

theorem value_scalar {cs : List Char} (hbasic : ∀ rest, cs ≠ '"' :: rest)
    (hliteral : ∀ rest, cs ≠ '\'' :: rest) (harray : ∀ rest, cs ≠ '[' :: rest)
    (htable : ∀ rest, cs ≠ '\x7b' :: rest) : value? inlineTable depth cs = scalarValue? cs := by
  unfold value?
  split
  · next rest => exact absurd rfl (hbasic rest)
  · next rest => exact absurd rfl (hliteral rest)
  · next rest => exact absurd rfl (harray rest)
  · next rest => exact absurd rfl (htable rest)
  · rfl

theorem value_nil : value? inlineTable depth [] = none := by
  have hscalar : scalarValue? [] = none := by decide
  rw [value_scalar, hscalar] <;> exact nofun

theorem value_return : value? inlineTable depth ['\r'] = none := by
  have hscalar : scalarValue? ['\r'] = none := by decide
  rw [value_scalar, hscalar] <;> exact nofun

theorem settled_value : Settled (value? inlineTable depth) := by
  -- Induction on the depth: the items of an array and the values of a table are less deep.
  induction depth using Nat.strongRecOn with
  | ind depth ih =>
    intro cs more
    fun_cases value? inlineTable depth cs with
    | case1 depth rest =>
      rw [List.cons_append, value_basic]
      exact (settled_anyString ('"' :: rest) more).map
        fun text => Value.string (String.ofList text)
    | case2 depth rest =>
      rw [List.cons_append, value_literal]
      exact (settled_anyString ('\'' :: rest) more).map
        fun text => Value.string (String.ofList text)
    | case3 | case5 => exact .none _
    | case4 rest depth =>
      have hitem := ih depth (Nat.lt_succ_self depth)
      have hlength : rest.length + 1 ≤ (rest ++ '\n' :: more).length + 1 := by simp
      rw [List.cons_append, value_array]
      refine (keeps_items hitem (value_nil ..) (value_return ..) hlength rest more).bind
        fun items rest => ?_
      exact .done (Value.array items) rest
    | case6 rest depth tail htail =>
      rw [List.cons_append, value_table, skipBlanks_append_break, htail]
      exact .done (Value.table []) tail
    | case7 rest depth htable =>
      have hvalue := ih depth (Nat.lt_succ_self depth)
      have htable' := append_break_ne ['\x7d'] (by decide) htable more
      have hlength : (skipBlanks rest).length + 1 ≤
          (skipBlanks rest ++ '\n' :: more).length + 1 := by simp
      rw [List.cons_append, value_table, skipBlanks_append_break]
      split
      · next tail heq => exact absurd heq (htable' tail)
      refine (keeps_inlineEntries hvalue hlength (skipBlanks rest) more).bind fun entries rest => ?_
      dsimp only
      cases inlineTable entries with
      | none => exact .none _
      | some table => exact .done table rest
    | case8 _ _ hbasic hliteral harray htable =>
      have hbasic' := append_break_ne ['"'] (by decide) hbasic more
      have hliteral' := append_break_ne ['\''] (by decide) hliteral more
      have harray' := append_break_ne ['['] (by decide) harray more
      have htable' := append_break_ne ['\x7b'] (by decide) htable more
      rw [value_scalar inlineTable depth hbasic' hliteral' harray' htable']
      exact settled_scalarValue cs more

end value

/-! ## Statements -/

theorem settled_header : Settled header? := by
  intro cs more
  unfold header?
  split
  · next rest =>
    refine (settled_key rest more).bind fun key rest => ?_
    split
    · next tail heq =>
      obtain ⟨rfl, rfl⟩ := Prod.mk.inj heq
      exact .done (Statement.element _) tail
    · exact .none _
  · next helement =>
    have helement' := append_break_ne ['['] (by decide) helement more
    split
    · next rest heq => exact absurd heq (helement' rest)
    refine (settled_key cs more).bind fun key rest => ?_
    split
    · next tail heq =>
      obtain ⟨rfl, rfl⟩ := Prod.mk.inj heq
      exact .done (Statement.table _) tail
    · exact .none _

section statements

variable {inlineTable : InlineTable}

theorem settled_statement : Settled (statement? inlineTable) := by
  intro cs more
  unfold statement?
  split
  · next rest => exact settled_header rest more
  · next hheader =>
    have hheader' := append_break_ne ['['] (by decide) hheader more
    split
    · next rest heq => exact absurd heq (hheader' rest)
    refine (settled_assignment (settled_value inlineTable deepest) cs more).bind fun both rest => ?_
    exact .done (Statement.assign both.1 both.2) rest

theorem statement_return : statement? inlineTable ['\r'] = none := by
  have hkey : key? ['\r'] = none := by decide
  simp [statement?, assignment?, hkey]

/-- A line ends at its line break, or at the one that follows the text. -/
theorem endLine_append_break {cs ds : List Char} (h : endLine? cs = some ds) (more : List Char) :
    endLine? (cs ++ '\n' :: more) = some (ds ++ '\n' :: more) ∨
      ds = [] ∧ endLine? (cs ++ '\n' :: more) = some more := by
  unfold endLine? at h ⊢
  obtain ⟨es, hcomment, h⟩ := Option.bind_eq_some_iff.mp h
  rw [skipBlanks_append_break, dropComment_append_break hcomment]
  dsimp only [bind, Option.bind]
  split at h
  · obtain rfl := Option.some.inj h
    exact .inr ⟨rfl, rfl⟩
  · obtain rfl := Option.some.inj h
    exact .inl rfl
  · obtain rfl := Option.some.inj h
    exact .inl rfl
  · cases h

/-- More fuel reads the same statements. -/
theorem statementsOf_mono {fuel larger : Nat} {cs : List Char} {list : List Statement}
    (h : statementsOf? inlineTable fuel cs = some list) (hlarger : fuel ≤ larger) :
    statementsOf? inlineTable larger cs = some list := by
  induction fuel generalizing cs larger list with
  | zero => cases h
  | succ fuel ih =>
    obtain ⟨larger, rfl⟩ := Nat.exists_eq_succ_of_ne_zero (show larger ≠ 0 by omega)
    have hle : fuel ≤ larger := Nat.le_of_succ_le_succ hlarger
    rw [statementsOf?] at h ⊢
    split at h
    · exact h
    · exact ih h hle
    · exact ih h hle
    · obtain ⟨rest, hend, h⟩ := Option.bind_eq_some_iff.mp h
      exact Option.bind_eq_some_iff.mpr ⟨rest, hend, ih h hle⟩
    · obtain ⟨⟨statement, rest⟩, hstatement, h⟩ := Option.bind_eq_some_iff.mp h
      obtain ⟨tail, hend, h⟩ := Option.bind_eq_some_iff.mp h
      obtain ⟨others, hothers, h⟩ := Option.bind_eq_some_iff.mp h
      refine Option.bind_eq_some_iff.mpr ⟨(statement, rest), hstatement, ?_⟩
      refine Option.bind_eq_some_iff.mpr ⟨tail, hend, ?_⟩
      exact Option.bind_eq_some_iff.mpr ⟨others, ih hothers hle, h⟩

/-- The statements of a text are followed by those of the lines after it. -/
theorem statementsOf_append_break {n m : Nat} {cs more : List Char} {list others : List Statement}
    (h : statementsOf? inlineTable n cs = some list)
    (hmore : statementsOf? inlineTable m more = some others) :
    statementsOf? inlineTable (n + m) (cs ++ '\n' :: more) = some (list ++ others) := by
  induction n generalizing cs list with
  | zero => cases h
  | succ n ih =>
    have hrest : statementsOf? inlineTable (n + m) more = some others :=
      statementsOf_mono hmore (Nat.le_add_left m n)
    -- after a line's end there is either more of the text or the lines after it
    have hnext : ∀ ds rest, endLine? ds = some rest → ∀ list,
        statementsOf? inlineTable n rest = some list →
        ∃ tail, endLine? (ds ++ '\n' :: more) = some tail ∧
          statementsOf? inlineTable (n + m) tail = some (list ++ others) := by
      intro ds rest hend list hlist
      rcases endLine_append_break hend more with hlonger | ⟨rfl, hlonger⟩
      · exact ⟨_, hlonger, ih hlist⟩
      · refine ⟨more, hlonger, ?_⟩
        cases n with
        | zero => cases hlist
        | succ n =>
          obtain rfl := Option.some.inj hlist
          exact hrest
    rw [Nat.add_right_comm, statementsOf?, skipBlanks_append_break]
    rw [statementsOf?] at h
    split at h
    · next hnil =>
      obtain rfl := Option.some.inj h
      rw [hnil]
      exact hrest
    · next rest hskip =>
      rw [hskip]
      exact ih h
    · next rest hskip =>
      rw [hskip]
      exact ih h
    · next rest hskip =>
      obtain ⟨tail, hend, h⟩ := Option.bind_eq_some_iff.mp h
      rw [hskip]
      obtain ⟨tail', hend', htail⟩ := hnext _ _ hend _ h
      exact Option.bind_eq_some_iff.mpr ⟨tail', hend', htail⟩
    · next hne hbreak hbreaks hcomment =>
      obtain ⟨⟨statement, rest⟩, hstatement, h⟩ := Option.bind_eq_some_iff.mp h
      obtain ⟨tail, hend, h⟩ := Option.bind_eq_some_iff.mp h
      obtain ⟨statements, hstatements, h⟩ := Option.bind_eq_some_iff.mp h
      obtain rfl := Option.some.inj h
      have hreturn : skipBlanks cs ≠ ['\r'] := by
        intro heq
        rw [heq, statement_return] at hstatement
        cases hstatement
      obtain ⟨hbreak', hreturn', hcomment'⟩ :=
        solid_append_break hne hreturn hbreak hbreaks hcomment more
      obtain ⟨tail', hend', htail⟩ := hnext _ _ hend _ hstatements
      split
      · next heq => exact absurd heq (by simp)
      · next rest heq => exact absurd heq (hbreak' rest)
      · next rest heq => exact absurd heq (hreturn' rest)
      · next rest heq => exact absurd heq (hcomment' rest)
      refine Option.bind_eq_some_iff.mpr
        ⟨_, settled_statement _ more _ _ hstatement, ?_⟩
      refine Option.bind_eq_some_iff.mpr ⟨tail', hend', ?_⟩
      exact Option.bind_eq_some_iff.mpr ⟨_, htail, rfl⟩

def Says (inlineTable : InlineTable) (cs : List Char) (list : List Statement) : Prop :=
  statementsOf? inlineTable (cs.length + 1) cs = some list

namespace Says

variable {cs more : List Char} {list others : List Statement}

theorem append_break (h : Says inlineTable cs list) (k : Says inlineTable more others) :
    Says inlineTable (cs ++ '\n' :: more) (list ++ others) := by
  have happend := statementsOf_append_break h k
  have hlength : cs.length + 1 + (more.length + 1) = (cs ++ '\n' :: more).length + 1 := by
    simp only [List.length_append, List.length_cons]
    omega
  rwa [hlength] at happend

/-- A text that reads as statements starts with no byte order mark. -/
theorem head_ne (h : Says inlineTable cs list) : cs.head? ≠ some '\uFEFF' := by
  intro hhead
  obtain ⟨tail, rfl⟩ : ∃ tail, cs = '\uFEFF' :: tail := by
    cases cs with
    | nil => cases hhead
    | cons c tail => exact ⟨tail, by rw [Option.some.inj hhead]⟩
  have hskip : skipBlanks ('\uFEFF' :: tail) = '\uFEFF' :: tail := rfl
  have hname : name? ('\uFEFF' :: tail) = none := rfl
  have hkey : key? ('\uFEFF' :: tail) = none := by
    rw [key?, longestKey, names?, hskip, hname]
    rfl
  rw [Says, statementsOf?, hskip] at h
  simp [statement?, assignment?, hkey] at h

theorem statements (h : Says inlineTable cs list) : statements? inlineTable cs = some list := by
  rw [statements?, if_neg h.head_ne]
  exact h

end Says

end statements

end RelayKeeper.Toml
