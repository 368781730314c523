import RelayKeeper.Toml.Document

/-! # Strings that stand in longer texts

A reader that has read something of a text reads the same of a longer one, if the text is followed
by a line break: no reader looks past the break unless it would have failed without it. -/
namespace RelayKeeper.Toml

/-! ## Keeping what was read -/

/-- What is read of a text is read of a longer text too, and `more` is left in addition. -/
def Keeps (more : List Char) (read longer : Option (α × List Char)) : Prop :=
  ∀ a rest, read = some (a, rest) → longer = some (a, rest ++ more)

def Settled (read : Reader α) : Prop :=
  ∀ cs more, Keeps ('\n' :: more) (read cs) (read (cs ++ '\n' :: more))

namespace Keeps

variable {more : List Char} {read longer : Option (α × List Char)}

theorem none (longer : Option (α × List Char)) : Keeps more none longer :=
  nofun

theorem done (a : α) (rest : List Char) : Keeps more (some (a, rest)) (some (a, rest ++ more)) := by
  rintro _ _ ⟨⟩
  rfl

theorem map (h : Keeps more read longer) (f : α → β) :
    Keeps more (read.map fun (a, rest) => (f a, rest))
      (longer.map fun (a, rest) => (f a, rest)) := by
  intro b rest heq
  obtain ⟨⟨a, _⟩, hread, ⟨⟩⟩ := Option.map_eq_some_iff.mp heq
  exact Option.map_eq_some_iff.mpr ⟨_, h a rest hread, rfl⟩

theorem consRead {read longer : Option (List Char × List Char)} (h : Keeps more read longer)
    (c : Char) : Keeps more (consRead c read) (consRead c longer) :=
  h.map (c :: ·)

theorem bind {next next' : α × List Char → Option (β × List Char)} (h : Keeps more read longer)
    (hnext : ∀ a rest, Keeps more (next (a, rest)) (next' (a, rest ++ more))) :
    Keeps more (read.bind next) (longer.bind next') := by
  intro b rest heq
  obtain ⟨⟨a, after⟩, hread, hb⟩ := Option.bind_eq_some_iff.mp heq
  rw [h a after hread]
  exact hnext a after b rest hb

end Keeps

/-! ## Prefixes before a line break -/

/-- A text that does not start so does not start so before a line break either. -/
theorem append_break_ne (start : List Char) {cs : List Char} (hstart : '\n' ∉ start)
    (h : ∀ rest, cs ≠ start ++ rest) (more rest : List Char) :
    cs ++ '\n' :: more ≠ start ++ rest := by
  intro heq
  rcases List.append_eq_append_iff.mp heq with ⟨mid, hsplit, hmid⟩ | ⟨mid, hsplit, -⟩
  · cases mid with
    | nil => exact h [] (by simpa using hsplit.symm)
    | cons c mid =>
      obtain ⟨rfl, -⟩ := List.cons.inj hmid
      exact hstart (by simp [hsplit])
  · exact h mid hsplit

section run

variable {p : Char → Bool}

theorem takeWhile_append_break (hp : p '\n' = false) (cs more : List Char) :
    (cs ++ '\n' :: more).takeWhile p = cs.takeWhile p := by
  induction cs with
  | nil => simp [hp]
  | cons c cs ih => by_cases hc : p c = true <;> simp [hc, ih]

theorem dropWhile_append_break (hp : p '\n' = false) (cs more : List Char) :
    (cs ++ '\n' :: more).dropWhile p = cs.dropWhile p ++ '\n' :: more := by
  induction cs with
  | nil => simp [hp]
  | cons c cs ih => by_cases hc : p c = true <;> simp [hc, ih]

end run

theorem skipBlanks_append_break (cs more : List Char) :
    skipBlanks (cs ++ '\n' :: more) = skipBlanks cs ++ '\n' :: more :=
  dropWhile_append_break rfl cs more

/-! ## Strings -/

theorem shortEscape_ne {c x : Char} (h : shortEscape? c = some x) :
    c ≠ 'u' ∧ c ≠ 'U' ∧ c ≠ '\r' := by
  refine ⟨?_, ?_, ?_⟩ <;>
    · rintro rfl
      cases h

theorem isPlain_ne {c : Char} (h : isPlain c = true) : c ≠ '\n' ∧ c ≠ '\r' := by
  constructor <;>
    · rintro rfl
      cases h

theorem basicRest_short {c x : Char} (h : shortEscape? c = some x) (rest : List Char) :
    basicRest ('\\' :: c :: rest) = consRead x (basicRest rest) := by
  obtain ⟨hu, hU, -⟩ := shortEscape_ne h
  rw [basicRest, h]
  · exact fun _ _ _ _ _ hc => absurd hc hu
  · exact fun _ _ _ _ _ _ _ _ _ hc => absurd hc hU

theorem basicRest_plain {c : Char} (hquote : c ≠ '"') (hback : c ≠ '\\') (hplain : isPlain c = true)
    (rest : List Char) : basicRest (c :: rest) = consRead c (basicRest rest) := by
  rw [basicRest, if_pos hplain]
  all_goals simp_all

theorem settled_basicRest : Settled basicRest := by
  intro cs more
  fun_induction basicRest cs with
  | case1 | case4 | case6 | case8 | case10 => exact .none _
  | case2 rest => exact .done [] rest
  | case3 a b c d rest x hx ih => simpa [basicRest, hx] using ih.consRead x
  | case5 a b c d e f g h rest x hx ih => simpa [basicRest, hx] using ih.consRead x
  | case7 c rest _ _ x hx ih =>
    rw [List.cons_append, List.cons_append, basicRest_short hx]
    exact ih.consRead x
  | case9 c rest hquote _ _ hback hplain ih =>
    by_cases hc : c = '\\'
    · -- a backslash at the end escapes nothing
      cases rest with
      | nil => exact .none _
      | cons d rest => exact (hback d rest hc rfl).elim
    · rw [List.cons_append, basicRest_plain hquote hc hplain]
      exact ih.consRead c

theorem settled_literalRest : Settled literalRest := by
  intro cs more
  fun_induction literalRest cs with
  | case1 | case4 => exact .none _
  | case2 rest => exact .done [] rest
  | case3 c rest hquote hplain ih =>
    rw [List.cons_append, literalRest, if_pos hplain]
    · exact ih.consRead c
    · exact hquote

theorem settled_lineString : Settled lineString? := by
  intro cs more
  unfold lineString?
  split
  · next rest => exact settled_basicRest rest more
  · next rest => exact settled_literalRest rest more
  · exact .none _

theorem basicLinesRest_plain {folding : Folding} {c : Char} {rest : List Char}
    (hfold : folding ≠ .beforeBreak) (hspace : folding = .afterBreak → c ≠ ' ')
    (htab : folding = .afterBreak → c ≠ '\t')
    (hquotes : c = '"' → ∀ more, rest ≠ '"' :: '"' :: more) (hplain : isPlain c = true)
    (hback : c ≠ '\\') :
    basicLinesRest folding (c :: rest) = consRead c (basicLinesRest .none rest) := by
  obtain ⟨hbreak, hreturn⟩ := isPlain_ne hplain
  rw [basicLinesRest, if_pos (by simp [hplain, hback])]
  all_goals simp_all

theorem settled_basicLinesRest (folding : Folding) : Settled (basicLinesRest folding) := by
  intro cs more
  fun_induction basicLinesRest folding cs with
  | case1 | case5 | case16 | case18 | case23 | case25 => exact .none _
  | case2 rest ih | case4 c rest _ _ _ ih | case6 rest ih | case7 rest ih | case8 rest ih
  | case9 rest ih | case19 folding rest _ ih | case20 folding c rest _ _ _ _ _ ih =>
    simp_all [basicLinesRest]
  | case3 c rest _ hblank ih =>
    have hreturn : c ≠ '\r' := by
      rintro rfl
      cases hblank
    rw [List.cons_append, basicLinesRest, if_pos hblank]
    · exact ih
    · exact fun _ h => absurd h hreturn
  | case10 folding rest hfold =>
    rw [show '"' :: '"' :: '"' :: '"' :: '"' :: rest ++ '\n' :: more =
      '"' :: '"' :: '"' :: '"' :: '"' :: (rest ++ '\n' :: more) from rfl, basicLinesRest]
    · exact .done _ rest
    · exact hfold
  | case11 folding rest hfold hquote =>
    have hquote' := append_break_ne ['"'] (by decide) hquote more
    rw [show '"' :: '"' :: '"' :: '"' :: rest ++ '\n' :: more =
      '"' :: '"' :: '"' :: '"' :: (rest ++ '\n' :: more) from rfl, basicLinesRest]
    · exact .done _ rest
    all_goals assumption
  | case12 folding rest hfold hquotes hquote =>
    have hquote' := append_break_ne ['"'] (by decide) hquote more
    have hquotes' := append_break_ne ['"', '"'] (by decide) hquotes more
    rw [show '"' :: '"' :: '"' :: rest ++ '\n' :: more =
      '"' :: '"' :: '"' :: (rest ++ '\n' :: more) from rfl, basicLinesRest]
    · exact .done _ rest
    all_goals assumption
  | case13 folding rest hfold hfold' ih => simpa [basicLinesRest, hfold, hfold'] using ih.consRead _
  | case14 folding rest hfold hfold' ih => simpa [basicLinesRest, hfold, hfold'] using ih.consRead _
  | case15 folding a b c d rest hfold x hx ih =>
    simpa [basicLinesRest, hfold, hx] using ih.consRead x
  | case17 folding a b c d e f g h rest hfold x hx ih =>
    simpa [basicLinesRest, hfold, hx] using ih.consRead x
  | case21 folding c rest hfold hu hU hr hbreak hblank ih =>
    have hc : c = ' ' ∨ c = '\t' := by simpa using hblank
    have hne : folding ≠ .beforeBreak := hfold
    rw [List.cons_append, List.cons_append, basicLinesRest, if_neg hbreak, if_pos hblank]
    · exact ih
    all_goals rcases hc with rfl | rfl <;> simp [hne]
  | case22 folding c rest hfold hu hU hr hbreak hblank x hx ih =>
    obtain ⟨hnu, hnU, hnr⟩ := shortEscape_ne hx
    have hne : folding ≠ .beforeBreak := hfold
    rw [List.cons_append, List.cons_append, basicLinesRest, if_neg hbreak, if_neg hblank, hx]
    · exact ih.consRead x
    all_goals simp [hne, hnu, hnU, hnr]
  | case24 folding c rest _ hfold hspace htab _ _ _ _ hquotes _ _ _ _ _ _ hplain ih =>
    obtain ⟨hp, hback⟩ : isPlain c = true ∧ c ≠ '\\' := by simpa using hplain
    have hquotes' : c = '"' → ∀ more', rest ++ '\n' :: more ≠ '"' :: '"' :: more' := by
      intro hc
      exact append_break_ne ['"', '"'] (by decide) (fun r => hquotes r hc) more
    rw [List.cons_append, basicLinesRest_plain hfold hspace htab hquotes' hp hback]
    exact ih.consRead c

theorem literalLinesRest_plain {c : Char} {rest : List Char}
    (hquotes : c = '\'' → ∀ more, rest ≠ '\'' :: '\'' :: more) (hplain : isPlain c = true) :
    literalLinesRest (c :: rest) = consRead c (literalLinesRest rest) := by
  obtain ⟨hbreak, hreturn⟩ := isPlain_ne hplain
  rw [literalLinesRest, if_pos hplain]
  all_goals simp_all

theorem settled_literalLinesRest : Settled literalLinesRest := by
  intro cs more
  fun_induction literalLinesRest cs with
  | case1 | case8 => exact .none _
  | case2 rest => exact .done ['\'', '\''] rest
  | case3 rest hquote =>
    have hquote' := append_break_ne ['\''] (by decide) hquote more
    rw [show '\'' :: '\'' :: '\'' :: '\'' :: rest ++ '\n' :: more =
      '\'' :: '\'' :: '\'' :: '\'' :: (rest ++ '\n' :: more) from rfl, literalLinesRest]
    · exact .done ['\''] rest
    · exact hquote'
  | case4 rest hquotes hquote =>
    have hquote' := append_break_ne ['\''] (by decide) hquote more
    have hquotes' := append_break_ne ['\'', '\''] (by decide) hquotes more
    rw [show '\'' :: '\'' :: '\'' :: rest ++ '\n' :: more =
      '\'' :: '\'' :: '\'' :: (rest ++ '\n' :: more) from rfl, literalLinesRest]
    · exact .done [] rest
    all_goals assumption
  | case5 rest ih => simpa [literalLinesRest] using ih.consRead '\n'
  | case6 rest ih => simpa [literalLinesRest] using ih.consRead '\n'
  | case7 c rest _ _ hquotes _ _ hplain ih =>
    have hquotes' : c = '\'' → ∀ more', rest ++ '\n' :: more ≠ '\'' :: '\'' :: more' := by
      intro hc
      exact append_break_ne ['\'', '\''] (by decide) (fun r => hquotes r hc) more
    rw [List.cons_append, literalLinesRest_plain hquotes' hplain]
    exact ih.consRead c

/-- A line break is left out in the same way, unless the text ends in the middle of it. -/
theorem dropBreak_append_break {cs : List Char} (hne : cs ≠ []) (hreturn : cs ≠ ['\r'])
    (more : List Char) : dropBreak (cs ++ '\n' :: more) = dropBreak cs ++ '\n' :: more := by
  match cs with
  | [] => exact absurd rfl hne
  | [c] =>
    have hc : c ≠ '\r' := fun h => hreturn (by rw [h])
    by_cases hbreak : c = '\n'
    · rw [hbreak]
      rfl
    · simp [dropBreak, hc, hbreak]
  | c :: d :: cs =>
    unfold dropBreak
    split <;> simp_all

theorem keeps_dropBreak {read : Reader α} (h : Settled read) (hnil : read [] = none)
    (hreturn : read ['\r'] = none) (cs more : List Char) :
    Keeps ('\n' :: more) (read (dropBreak cs)) (read (dropBreak (cs ++ '\n' :: more))) := by
  by_cases hcs : cs = [] ∨ cs = ['\r']
  · have hfails : read (dropBreak cs) = none := by
      rcases hcs with rfl | rfl
      · exact hnil
      · exact hreturn
    rw [hfails]
    exact .none _
  · obtain ⟨hne, hret⟩ := not_or.mp hcs
    rw [dropBreak_append_break hne hret]
    exact h _ more

theorem settled_anyString : Settled anyString? := by
  intro cs more
  fun_cases anyString? cs with
  | case1 rest => exact keeps_dropBreak (settled_basicLinesRest .none) rfl rfl rest more
  | case2 rest => exact keeps_dropBreak settled_literalLinesRest rfl rfl rest more
  | case3 cs hbasic hliteral =>
    have hbasic' := append_break_ne ['"', '"', '"'] (by decide) hbasic more
    have hliteral' := append_break_ne ['\'', '\'', '\''] (by decide) hliteral more
    rw [anyString?]
    · exact settled_lineString _ more
    all_goals assumption

end RelayKeeper.Toml
