import Mathlib.Data.List.Induction
import RelayKeeper.Files.Tree

/-! # The steps of a path

Joining a name to a path adds one step. The paths that contain a path take its steps one by one
back, up to steps that stay in place. -/
namespace RelayKeeper

namespace Text

theorem splitAt_of_notMem {sep : Char} {cs : List Char} (h : sep ∉ cs) :
    splitAt sep cs = [cs] := by
  induction cs with
  | nil => rfl
  | cons c cs ih =>
    have hc : c ≠ sep := by
      rintro rfl
      simp at h
    have hcs : sep ∉ cs := fun hm => h (by simp [hm])
    rw [splitAt, if_neg hc, ih hcs, consFirst]

theorem splitAt_append (sep : Char) (cs ds : List Char) :
    splitAt sep (cs ++ sep :: ds) = splitAt sep cs ++ splitAt sep ds := by
  induction cs with
  | nil => simp [splitAt]
  | cons c cs ih =>
    by_cases hc : c = sep
    · simp [splitAt, hc, ih]
    · cases hs : splitAt sep cs with
      | nil => exact absurd hs (splitAt_ne_nil sep cs)
      | cons piece pieces => simp [splitAt, hc, ih, hs, consFirst]

theorem splitAt_joinWith {sep : Char} {pieces : List (List Char)} (hne : pieces ≠ [])
    (h : ∀ piece ∈ pieces, sep ∉ piece) : splitAt sep (joinWith [sep] pieces) = pieces := by
  induction pieces with
  | nil => exact absurd rfl hne
  | cons piece pieces ih =>
    have hp : sep ∉ piece := h piece (by simp)
    cases pieces with
    | nil => rw [joinWith, splitAt_of_notMem hp]
    | cons next rest =>
      have hr := ih (by simp) fun other ho => h other (by simp [ho])
      rw [joinWith, List.append_assoc, List.singleton_append, splitAt_append,
        splitAt_of_notMem hp, hr]
      · rfl
      · simp

theorem notMem_of_mem_splitAt {sep : Char} {cs piece : List Char} (h : piece ∈ splitAt sep cs) :
    sep ∉ piece := by
  induction cs generalizing piece with
  | nil =>
    obtain rfl : piece = [] := by simpa [splitAt] using h
    simp
  | cons c cs ih =>
    by_cases hc : c = sep
    · rw [splitAt, if_pos hc, List.mem_cons] at h
      rcases h with rfl | h
      · simp
      · exact ih h
    · cases hs : splitAt sep cs with
      | nil => exact absurd hs (splitAt_ne_nil sep cs)
      | cons first pieces =>
        rw [splitAt, if_neg hc, hs, consFirst, List.mem_cons] at h
        rcases h with rfl | h
        · have hf : sep ∉ first := ih (by simp [hs])
          simp [hf, Ne.symm hc]
        · exact ih (by simp [hs, h])

theorem mem_iff_mem_splitAt {sep d : Char} (hd : d ≠ sep) (cs : List Char) :
    d ∈ cs ↔ ∃ piece ∈ splitAt sep cs, d ∈ piece := by
  induction cs with
  | nil => simp [splitAt]
  | cons c cs ih =>
    by_cases hc : c = sep
    · subst hc
      simp [splitAt, ih, hd]
    · cases hs : splitAt sep cs with
      | nil => exact absurd hs (splitAt_ne_nil sep cs)
      | cons first pieces =>
        rw [hs] at ih
        simp only [List.mem_cons, ih, splitAt, if_neg hc, hs, consFirst]
        grind

end Text

namespace Path

theorem stems_append (before ss ts : List (List Char)) :
    stems before (ss ++ ts) = stems before ss ++ stems (before ++ ss) ts := by
  induction ss generalizing before with
  | nil => simp [stems]
  | cons s ss ih =>
    by_cases h : isComponent before s <;> simp [stems, h, ih]

theorem stems_singleton (before : List (List Char)) (s : List Char) :
    stems before [s] =
      if isComponent before s then [(s, Text.joinWith ['/'] (before ++ [s]))] else [] := by
  by_cases h : isComponent before s <;> simp [stems, h]

theorem segments_ne_nil (p : Path) : p.segments ≠ [] :=
  Text.splitAt_ne_nil '/' p.chars

theorem isAbsolute_iff (p : Path) : p.isAbsolute ↔ ∃ s ss, p.segments = [] :: s :: ss := by
  unfold isAbsolute segments
  cases p.chars with
  | nil => simp [Text.splitAt]
  | cons c cs =>
    cases hs : Text.splitAt '/' cs with
    | nil => exact absurd hs (Text.splitAt_ne_nil '/' cs)
    | cons piece pieces =>
      by_cases hc : c = '/' <;> simp [Text.splitAt, hc, hs, Text.consFirst]

def Trimmed (ss : List (List Char)) : Prop :=
  ss = [] ∨ ∃ before c, ss = before ++ [c] ∧ isComponent before c

/-- What follows the last component leaves no trace in the stems. -/
theorem exists_trimmed (ss : List (List Char)) :
    ∃ here, here <+: ss ∧ Trimmed here ∧ stems [] here = stems [] ss := by
  induction ss using List.reverseRecOn with
  | nil => exact ⟨[], List.prefix_refl _, .inl rfl, rfl⟩
  | append_singleton ss c ih =>
    by_cases hc : isComponent ss c
    · exact ⟨ss ++ [c], List.prefix_refl _, .inr ⟨ss, c, rfl, hc⟩, rfl⟩
    · obtain ⟨here, hp, ht, hs⟩ := ih
      refine ⟨here, hp.trans (List.prefix_append _ _), ht, ?_⟩
      rw [stems_append, stems_singleton, List.nil_append, if_neg hc, List.append_nil, hs]

theorem chars_join {name : String} (p : Path) (hs : '/' ∉ name.toList) :
    (p.join name).chars =
      if p.chars = [] ∨ p.chars.getLast? = some '/' then p.chars ++ name.toList
      else p.chars ++ '/' :: name.toList := by
  have hhead : name.toList.head? ≠ some '/' := fun h => hs (List.mem_of_head? h)
  unfold join
  rw [if_neg hhead]
  by_cases h : p.chars = [] ∨ p.chars.getLast? = some '/'
  · rw [if_pos (by simpa using h), if_pos h]
    simp [chars]
  · rw [if_neg (by simpa using h), if_neg h]
    simp [chars]

/-- A path joined with a name has the name as its last segment. -/
theorem segments_join {name : String} (p : Path) (hs : '/' ∉ name.toList) :
    ∃ ss, (p.join name).segments = ss ++ [name.toList] ∧
      (p.segments = ss ∨ p.segments = ss ++ [[]]) := by
  have hj := chars_join p hs
  by_cases he : p.chars = []
  · rw [if_pos (.inl he), he, List.nil_append] at hj
    refine ⟨[], ?_, .inr ?_⟩
    · rw [segments, hj, Text.splitAt_of_notMem hs, List.nil_append]
    · rw [segments, he, Text.splitAt, List.nil_append]
  by_cases hl : p.chars.getLast? = some '/'
  · obtain ⟨cs, hcs⟩ := List.getLast?_eq_some_iff.mp hl
    rw [if_pos (.inr hl), hcs, List.append_assoc, List.singleton_append] at hj
    refine ⟨Text.splitAt '/' cs, ?_, .inr ?_⟩
    · rw [segments, hj, Text.splitAt_append, Text.splitAt_of_notMem hs]
    · rw [segments, hcs, Text.splitAt_append, Text.splitAt]
  · rw [if_neg (by simp [he, hl])] at hj
    refine ⟨p.segments, ?_, .inl rfl⟩
    rw [segments, hj, Text.splitAt_append, Text.splitAt_of_notMem hs, segments]

/-- The names among segments: neither empty nor `.`. -/
def namesIn (ss : List (List Char)) : List String :=
  ((ss.filter (!·.isEmpty)).map String.ofList).filter (· ≠ ".")

def names (p : Path) : List String :=
  (FileTree.stepsOf p).filter (· ≠ ".")

theorem names_eq (p : Path) : p.names = namesIn p.segments := rfl

theorem namesIn_append (ss ts : List (List Char)) :
    namesIn (ss ++ ts) = namesIn ss ++ namesIn ts := by
  simp [namesIn]

theorem stepsOf_join {name : String} (p : Path) (hne : name ≠ "") (hs : '/' ∉ name.toList) :
    FileTree.stepsOf (p.join name) = FileTree.stepsOf p ++ [name] := by
  obtain ⟨ss, hj, hp⟩ := segments_join p hs
  have hn : (!name.toList.isEmpty) = true := by simpa using hne
  unfold FileTree.stepsOf
  rw [hj]
  rcases hp with hp | hp <;> simp [hp, hn]

theorem isAbsolute_join {name : String} (p : Path) (hs : '/' ∉ name.toList) :
    (p.join name).isAbsolute = p.isAbsolute := by
  have hhead : name.toList.head? ≠ some '/' := fun h => hs (List.mem_of_head? h)
  unfold isAbsolute
  rw [chars_join p hs]
  cases hc : p.chars with
  | nil => simp [hhead]
  | cons c cs => split <;> simp

/-- The path whose segments are given, or the base of `p` if there are none. -/
def ofSegments (p : Path) (here : List (List Char)) : Path :=
  if here = [] then p.base else ⟨String.ofList (Text.joinWith ['/'] here)⟩

theorem segments_ofSegments {p : Path} {here : List (List Char)} (hne : here ≠ [])
    (h : ∀ s ∈ here, '/' ∉ s) : (p.ofSegments here).segments = here := by
  rw [ofSegments, if_neg hne, segments, chars, String.toList_ofList, Text.splitAt_joinWith hne h]

theorem parents_base (p : Path) : p.base.parents = [] := by
  unfold base
  split <;> rfl

/-- The names of the path end in `name`, which is its last step too. -/
structure Ends (p : Path) (names : List String) (name : String) : Prop where
  steps : ∃ steps, FileTree.stepsOf p = steps ++ [name] ∧ steps.filter (· ≠ ".") = names
  slash : FileTree.endsInSlash p = false

/-- The path `q`, of the names given, is the nearest that contains `p`. -/
structure Holder (p : Path) (names : List String) (q : Path) : Prop where
  parents : p.parents = q :: q.parents
  absolute : q.isAbsolute = p.isAbsolute
  names : q.names = names
  nul : '\x00' ∉ p.chars → '\x00' ∉ q.chars
  trimmed : q.names = [] ∨ Trimmed q.segments

/-- The names among segments are those of the components, a leading `.` apart. -/
theorem namesIn_eq_stems (before ss : List (List Char)) :
    namesIn ss = ((stems before ss).map fun stem => String.ofList stem.1).filter (· ≠ ".") := by
  induction ss generalizing before with
  | nil => rfl
  | cons s ss ih =>
    have ih := ih (before ++ [s])
    by_cases he : s = []
    · have hc : isComponent before s = false := by simp [isComponent, he]
      rw [stems, if_neg (by simp [hc]), ← ih]
      simp [namesIn, he]
    by_cases hd : s = ['.']
    · have hdot : String.ofList s = "." := by rw [hd]
      have hn : namesIn (s :: ss) = namesIn ss := by simp [namesIn, hd]
      rw [hn, ih, stems]
      by_cases hc : isComponent before s <;> simp [hc, hdot]
    · have hc : isComponent before s = true := by simp [isComponent, he, hd]
      have hdot : String.ofList s ≠ "." := by
        intro h
        exact hd (by simpa using congrArg String.toList h)
      have hn : namesIn (s :: ss) = String.ofList s :: namesIn ss := by
        simp [namesIn, he, hdot]
      rw [hn, ih, stems]
      simp [hc, hdot]

theorem ne_nil_of_isComponent {before : List (List Char)} {c : List Char}
    (h : isComponent before c) : c ≠ [] := by
  rintro rfl
  simp [isComponent] at h

theorem parents_of_component {p : Path} {ss : List (List Char)} {c : List Char}
    (hp : p.segments = ss ++ [c]) (hc : isComponent ss c) :
    p.parents = (stems [] ss).reverse.map (fun stem => ⟨String.ofList stem.2⟩) ++ [p.base] := by
  unfold parents
  rw [hp, stems_append, stems_singleton, List.nil_append, if_pos hc]
  simp

theorem base_congr {p q : Path} (h : q.isAbsolute = p.isAbsolute) : q.base = p.base := by
  rw [base, base, h]

theorem nul_of_segments {p q : Path} (h : ∀ s ∈ q.segments, s ∈ p.segments)
    (hp : '\x00' ∉ p.chars) : '\x00' ∉ q.chars := by
  have hz : '\x00' ≠ '/' := by decide
  intro hq
  obtain ⟨s, hs, hmem⟩ := (Text.mem_iff_mem_splitAt hz q.chars).mp hq
  exact hp ((Text.mem_iff_mem_splitAt hz p.chars).mpr ⟨s, h s hs, hmem⟩)

theorem exists_holder {p : Path} {ss : List (List Char)} {c : List Char}
    (hp : p.segments = ss ++ [c]) (hc : isComponent ss c) : ∃ q, Holder p (namesIn ss) q := by
  obtain ⟨here, hpre, ht, hs⟩ := exists_trimmed ss
  have hparents := parents_of_component hp hc
  -- The parent is the root or the working directory if there are no components before the last.
  rcases ht with rfl | ⟨before, d, rfl, hd⟩
  · rw [← hs, stems, List.reverse_nil, List.map_nil, List.nil_append] at hparents
    refine ⟨p.base, ?_, ?_, ?_, ?_, .inl ?_⟩
    · rw [hparents, parents_base]
    · unfold base
      split <;> simp_all [isAbsolute, chars]
    · rw [namesIn_eq_stems [] ss, ← hs]
      unfold base
      split <;> rfl
    · intro _
      unfold base
      split <;> decide
    · unfold base
      split <;> rfl
  · have hmem : ∀ s ∈ before ++ [d], s ∈ p.segments := by
      intro s h
      rw [hp]
      exact List.mem_append_left _ (hpre.subset h)
    have hslash : ∀ s ∈ before ++ [d], '/' ∉ s := fun s h => Text.notMem_of_mem_splitAt (hmem s h)
    have hseg := segments_ofSegments (p := p) (by simp) hslash
    have habs : (p.ofSegments (before ++ [d])).isAbsolute = p.isAbsolute := by
      obtain ⟨after, hafter⟩ := hpre
      have hne := ne_nil_of_isComponent hd
      rw [Bool.eq_iff_iff, isAbsolute_iff, isAbsolute_iff, hseg, hp, ← hafter]
      cases before with
      | nil => simp [hne]
      | cons b before => cases before <;> simp
    refine ⟨p.ofSegments (before ++ [d]), ?_, habs, ?_, ?_, .inr ?_⟩
    · rw [hparents, ← hs, parents_of_component hseg hd, base_congr habs, stems_append,
        stems_singleton, List.nil_append, if_pos hd]
      simp [ofSegments]
    · rw [names_eq, hseg, namesIn_eq_stems [] (before ++ [d]), hs, ← namesIn_eq_stems]
    · refine nul_of_segments fun s h => ?_
      rw [hseg] at h
      exact hmem s h
    · rw [hseg]
      exact .inr ⟨before, d, rfl, hd⟩

theorem endsInSlash_of_segments {p : Path} {ss : List (List Char)} {c : List Char}
    (hp : p.segments = ss ++ [c]) (hc : c ≠ []) : FileTree.endsInSlash p = false := by
  cases h : FileTree.endsInSlash p with
  | false => rfl
  | true =>
    obtain ⟨cs, hcs⟩ := List.getLast?_eq_some_iff.mp (show p.chars.getLast? = some '/' by
      simpa [FileTree.endsInSlash] using h)
    rw [segments, hcs, Text.splitAt_append] at hp
    exact absurd (List.append_inj_right' hp rfl) (by simpa [Text.splitAt] using hc.symm)

theorem names_of_component {p : Path} {before : List (List Char)} {c : List Char}
    (hp : p.segments = before ++ [c]) (hc : isComponent before c) (hn : p.names ≠ []) :
    p.names = namesIn before ++ [String.ofList c] := by
  have hne := ne_nil_of_isComponent hc
  have hdot : c ≠ ['.'] := by
    rintro rfl
    have hb : before = [] := by simpa [isComponent] using hc
    simp [names_eq, hp, hb, namesIn] at hn
  have hs : String.ofList c ≠ "." := by
    intro h
    exact hdot (by simpa using congrArg String.toList h)
  rw [names_eq, hp, namesIn_append]
  simp [namesIn, hne, hs]

/-- A trimmed path ends in its last name, and the rest of its names are those of its parent. -/
theorem exists_holder_of_names {p : Path} {names : List String} {name : String}
    (ht : Trimmed p.segments) (hp : p.names = names ++ [name]) :
    Ends p names name ∧ ∃ q, Holder p names q := by
  rcases ht with h | ⟨before, c, hseg, hc⟩
  · exact absurd h p.segments_ne_nil
  have hnames := names_of_component hseg hc (by simp [hp])
  rw [hp] at hnames
  obtain ⟨rfl, hlast⟩ := List.append_inj' hnames rfl
  obtain rfl : name = String.ofList c := by simpa using hlast
  have hne := ne_nil_of_isComponent hc
  refine ⟨⟨⟨(before.filter (!·.isEmpty)).map String.ofList, ?_, rfl⟩, ?_⟩, exists_holder hseg hc⟩
  · simp [FileTree.stepsOf, hseg, hne]
  · exact endsInSlash_of_segments hseg hne

/-- A stem is the text of the segments up to its component. -/
theorem exists_of_mem_stems {before ss : List (List Char)} {c stem : List Char}
    (h : (c, stem) ∈ stems before ss) :
    ∃ front after, before ++ ss = front ++ [c] ++ after ∧
      stem = Text.joinWith ['/'] (front ++ [c]) ∧ isComponent front c := by
  induction ss generalizing before with
  | nil => cases h
  | cons s ss ih =>
    have hrest : (c, stem) ∈ stems (before ++ [s]) ss →
        ∃ front after, before ++ s :: ss = front ++ [c] ++ after ∧
          stem = Text.joinWith ['/'] (front ++ [c]) ∧ isComponent front c := by
      intro hmem
      obtain ⟨front, after, hsplit, hstem⟩ := ih hmem
      exact ⟨front, after, by rw [← hsplit, List.append_assoc, List.singleton_append], hstem⟩
    rw [stems] at h
    by_cases hc : isComponent before s = true
    · rw [if_pos hc, List.mem_cons] at h
      rcases h with h | h
      · obtain ⟨rfl, rfl⟩ := Prod.mk.inj h
        exact ⟨before, ss, by rw [List.append_assoc, List.singleton_append], rfl, hc⟩
      · exact hrest h
    · rw [if_neg hc] at h
      exact hrest h

theorem isAbsolute_base (p : Path) : p.base.isAbsolute = p.isAbsolute := by
  rw [base]
  by_cases h : p.isAbsolute = true
  · rw [if_pos h, h]
    rfl
  · rw [if_neg h, Bool.eq_false_iff.mpr h]
    rfl

theorem names_base (p : Path) : p.base.names = [] := by
  unfold base
  split <;> rfl

/-- A path that contains another starts where it starts, and takes the first of its names. -/
theorem of_mem_parents {p q : Path} (h : q ∈ p.parents) :
    q.isAbsolute = p.isAbsolute ∧ q.names <+: p.names := by
  have hcases : q = p.base ∨ ∃ c stem, (c, stem) ∈ stems [] p.segments ∧
      q = ⟨String.ofList stem⟩ := by
    rw [parents] at h
    cases hstems : (stems [] p.segments).reverse with
    | nil =>
      rw [hstems] at h
      cases h
    | cons last above =>
      rw [hstems, List.mem_append, List.mem_map, List.mem_singleton] at h
      rcases h with ⟨⟨c, stem⟩, hmem, rfl⟩ | h
      · refine .inr ⟨c, stem, ?_, rfl⟩
        rw [← List.mem_reverse, hstems]
        exact List.mem_cons_of_mem _ hmem
      · exact .inl h
  rcases hcases with rfl | ⟨c, stem, hmem, rfl⟩
  · rw [names_base]
    exact ⟨p.isAbsolute_base, List.nil_prefix⟩
  · obtain ⟨front, after, hsplit, rfl, hc⟩ := exists_of_mem_stems hmem
    have hne := ne_nil_of_isComponent hc
    have hslash : ∀ s ∈ front ++ [c], '/' ∉ s := by
      intro s hs
      have hmem : s ∈ p.segments := by
        rw [← List.nil_append p.segments, hsplit]
        exact List.mem_append_left _ hs
      exact Text.notMem_of_mem_splitAt hmem
    have hseg : (⟨String.ofList (Text.joinWith ['/'] (front ++ [c]))⟩ : Path).segments =
        front ++ [c] := by
      rw [segments, chars, String.toList_ofList, Text.splitAt_joinWith (by simp) hslash]
    rw [List.nil_append] at hsplit
    constructor
    · rw [Bool.eq_iff_iff, isAbsolute_iff, isAbsolute_iff, hseg, hsplit]
      cases front with
      | nil => simp [hne]
      | cons b front => cases front <;> simp
    · rw [names_eq, names_eq, hseg, hsplit, namesIn_append (front ++ [c]) after]
      exact List.prefix_append _ _

end Path

end RelayKeeper
