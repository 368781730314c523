import RelayKeeper.Proofs.TreeWalk

/-! # Making directories

A path is vacant if it leads to an empty directory, or through directories to a name from which on
nothing is there. Making the directories of a vacant path adds those that are missing and changes
nothing else. -/
namespace RelayKeeper.FileTree

/-- The names lead from a place to an empty directory, or would if the missing ones were made. -/
inductive Vacant (t : FileTree) : Place → List String → Place → Prop where
  | empty {a} : t.node? a = some .directory →
      (∀ name below, t.node? (a ++ name :: below) = none) → Vacant t a [] a
  | into {a b c name names} : t.enter a name = .ok b → Vacant t b names c →
      Vacant t a (name :: names) c
  | absent {a name names} : t.node? a = some .directory →
      (∀ below, t.node? (a ++ name :: below) = none) → (∀ n ∈ name :: names, IsName n) →
      Vacant t a (name :: names) (a ++ name :: names)

def build (t : FileTree) (place : Place) : List String → FileTree
  | [] => t
  | name :: names => (t.put (place ++ [name]) .directory).build (place ++ [name]) names

theorem directory_put {t : FileTree} (p : Place) {q : Place}
    (h : t.node? q = some .directory) : (t.put p .directory).node? q = some .directory := by
  by_cases hp : p = []
  · subst hp
    by_cases hq : q = []
    · rw [hq, node?_nil]
    · have hc : compare [] q ≠ .eq := by
        rw [ne_eq, Std.LawfulEqOrd.compare_eq_iff_eq]
        exact Ne.symm hq
      simpa [node?, put, hq, Std.ExtTreeMap.getElem?_insert, hc] using h
  · rw [node?_put hp]
    split
    · rfl
    · exact h

section build

variable {t : FileTree} {a : Place} {names : List String}

theorem build_append (t : FileTree) (a : Place) (names : List String) (name : String) :
    t.build a (names ++ [name]) = (t.build a names).put (a ++ names ++ [name]) .directory := by
  induction names generalizing t a with
  | nil => simp [build]
  | cons n names ih => simp [build, ih]

@[simp] theorem current_build (t : FileTree) (a : Place) (names : List String) :
    (t.build a names).current = t.current := by
  induction names generalizing t a with
  | nil => rfl
  | cons n names ih => rw [build, ih, put]

theorem node?_build_of_ne {q : Place}
    (h : ∀ made, made ≠ [] → made <+: names → q ≠ a ++ made) :
    (t.build a names).node? q = t.node? q := by
  induction names generalizing t a with
  | nil => rfl
  | cons n names ih =>
    have hq : q ≠ a ++ [n] := h [n] (by simp) ⟨names, rfl⟩
    rw [build, ih, node?_put_of_ne (by simp) _ hq]
    intro made hne hp
    have hm := h (n :: made) (by simp) (by simpa using hp)
    simpa using hm

theorem directory_build {q : Place} (h : t.node? q = some .directory) :
    (t.build a names).node? q = some .directory := by
  induction names generalizing t a with
  | nil => exact h
  | cons n names ih => exact ih (directory_put _ h)

theorem leads_build (ha : t.node? a = some .directory) (hn : ∀ n ∈ names, IsName n) :
    Leads (t.build a names) a names (a ++ names) := by
  induction names generalizing t a with
  | nil =>
    rw [List.append_nil]
    exact .here ha
  | cons n names ih =>
    have hname := hn n (by simp)
    have hput : (t.put (a ++ [n]) .directory).node? (a ++ [n]) = some .directory :=
      node?_put_self (by simp) _
    have hl := ih hput fun m hm => hn m (by simp [hm])
    rw [List.append_assoc, List.singleton_append] at hl
    have hstart : ((t.put (a ++ [n]) .directory).build (a ++ [n]) names).node? a =
        some .directory := directory_build (directory_put _ ha)
    exact .into (enter_name hstart hname) hl

/-- Below the last directory made there is what was there before. -/
theorem node?_build_below (t : FileTree) (a : Place) (names : List String) {below : Place}
    (hb : below ≠ []) : (t.build a names).node? (a ++ names ++ below) =
      t.node? (a ++ names ++ below) := by
  refine node?_build_of_ne fun made _ hp heq => ?_
  rw [List.append_assoc, List.append_cancel_left_eq] at heq
  have hl := hp.length_le
  have hpos := List.length_pos_iff.mpr hb
  rw [← heq, List.length_append] at hl
  omega

end build

namespace Vacant

variable {t : FileTree} {a c : Place} {names : List String}

/-- The names that are there and those that are missing. -/
theorem split (h : Vacant t a names c) :
    ∃ there b missing, names = there ++ missing ∧ Leads t a there b ∧ c = b ++ missing ∧
      (∀ n ∈ missing, IsName n) ∧
      ∀ below, below ≠ [] → missing = [] ∨ missing.head? = below.head? →
        t.node? (b ++ below) = none := by
  induction h with
  | empty ha he =>
    refine ⟨[], _, [], rfl, .here ha, by simp, by simp, fun below hb _ => ?_⟩
    cases below with
    | nil => exact absurd rfl hb
    | cons name below => exact he name below
  | into he _ ih =>
    obtain ⟨there, b, missing, rfl, hl, hc, hn, hb⟩ := ih
    exact ⟨_ :: there, b, missing, rfl, .into he hl, hc, hn, hb⟩
  | absent ha he hn =>
    refine ⟨[], _, _, rfl, .here ha, rfl, hn, fun below _ hor => ?_⟩
    cases below with
    | nil => simp at hor
    | cons name below =>
      obtain rfl : _ = name := by simpa using hor
      exact he below

theorem of_leads {b : Place} {more : List String} (h : Leads t a names b)
    (hv : Vacant t b more c) : Vacant t a (names ++ more) c := by
  induction h with
  | here _ => exact hv
  | into he _ ih => exact .into he (ih hv)

theorem snoc {name : String} (h : Vacant t a names c) (hn : IsName name) :
    Vacant t a (names ++ [name]) (c ++ [name]) := by
  induction h with
  | empty ha he => exact .absent ha (he name) (by simpa using hn)
  | into he _ ih => exact .into he ih
  | absent ha he hns =>
    rw [List.append_assoc, List.cons_append]
    refine .absent ha he fun n hm => ?_
    rw [← List.cons_append, List.mem_append, List.mem_singleton] at hm
    rcases hm with hm | rfl
    · exact hns n hm
    · exact hn

theorem nothing_below (h : Vacant t a names c) {below : Place} (hb : below ≠ []) :
    t.node? (c ++ below) = none := by
  obtain ⟨there, b, missing, -, -, rfl, -, hn⟩ := h.split
  rw [List.append_assoc]
  refine hn _ (by simp [hb]) ?_
  cases missing with
  | nil => exact .inl rfl
  | cons m missing => exact .inr rfl

end Vacant

theorem find_of_missing {t : FileTree} {p : Path} {names more : List String} {name : String}
    {b : Place} (hnul : '\x00' ∉ p.chars) (hp : p.names = names ++ name :: more)
    (hl : Leads t (t.start p) names b) (hn : IsName name) (hm : t.node? (b ++ [name]) = none) :
    t.find p = .error .notFound := by
  have hs : stepsOf p ≠ [] := by
    intro h
    simp [Path.names, h] at hp
  have hw := walk_of_missing hp hl hn hm
  unfold find
  rw [checkPath_ok hnul hs, hw]
  rfl

/-! ## What making directories does -/

theorem walk_snoc {t : FileTree} {a c : Place} {names : List String} {name : String}
    (h : t.walk a (names ++ [name]) = .ok c) :
    ∃ b, t.walk a names = .ok b ∧ t.enter b name = .ok c ∧ (t.node? c).isSome := by
  rw [walk_append] at h
  obtain ⟨b, hw, hlast⟩ := of_bind h
  obtain ⟨d, he, hn, hd⟩ := of_walk_cons hlast
  obtain rfl : d = c := Except.ok.inj hd
  exact ⟨b, hw, he, hn⟩

theorem Rooted.isDirectory {t : FileTree} {p : Path} {place : Place} (h : Rooted t p place)
    (hc : p.chars ≠ []) : t.isDirectory p = true := by
  rw [FileTree.isDirectory, h.find_eq hc]

theorem Rooted.makeDirectory_eq {t : FileTree} {p : Path} {place : Place} (h : Rooted t p place)
    (hc : p.chars ≠ []) : t.makeDirectory p = .error .alreadyExists := by
  have hnul := h.nul
  have hcheck : checkPath p = .ok () := by simp [checkPath, hnul, hc]
  unfold makeDirectory findParent
  rw [hcheck]
  rcases List.eq_nil_or_concat (stepsOf p) with hs | ⟨steps, last, hs⟩
  · rw [hs]
    rfl
  · have hw := h.walk_eq
    rw [hs, List.concat_eq_append] at hw
    rw [hs, List.concat_eq_append]
    obtain ⟨b, hb, he, hsome⟩ := walk_snoc hw
    by_cases hdots : last = "." ∨ last = ".."
    · simp [bind, Except.bind, hb, he, hdots]
    · have hplace : place = b ++ [last] := by
        obtain ⟨-, ⟨hdot, -⟩ | ⟨hup, -⟩ | ⟨-, -, -, hplace⟩⟩ := of_enter he
        · exact absurd (.inl hdot) hdots
        · exact absurd (.inr hup) hdots
        · exact hplace
      subst hplace
      simp [bind, Except.bind, hb, he, hdots, hsome]

theorem Points.makeDirectory_eq {t : FileTree} {p : Path} {place : Place} {name : String}
    (h : Points t p place name) (hn : t.node? (place ++ [name]) = none) :
    t.makeDirectory p = .ok (t.put (place ++ [name]) .directory) := by
  unfold makeDirectory
  rw [h.findParent_eq]
  simp [bind, Except.bind, hn]

theorem makeDirectory_of_missing {t : FileTree} {p : Path} {names more : List String}
    {last name : String} {b : Place} (hnul : '\x00' ∉ p.chars)
    (hp : p.Ends (names ++ name :: more) last) (hl : Leads t (t.start p) names b)
    (hn : IsName name) (hm : t.node? (b ++ [name]) = none) :
    t.makeDirectory p = .error .notFound := by
  obtain ⟨steps, hs, hf⟩ := hp.steps
  have hw := walk_of_missing hf hl hn hm
  unfold makeDirectory findParent
  rw [checkPath_ok hnul (by simp [hs]), hs]
  simp [bind, Except.bind, hw]

theorem points_of_ends {t : FileTree} {p : Path} {names : List String}
    {name : String} {b : Place} (h : p.Ends names name) (hnul : '\x00' ∉ p.chars)
    (hl : Leads t (t.start p) names b) (hn : IsName name) : Points t p b name := by
  obtain ⟨steps, hs, rfl⟩ := h.steps
  exact ⟨hnul, h.slash, ⟨steps, hs, hl⟩, hn⟩

theorem chars_ne_nil_of_ends {p : Path} {names : List String} {name : String}
    (h : p.Ends names name) : p.chars ≠ [] := by
  obtain ⟨steps, hs, -⟩ := h.steps
  intro hc
  simp [stepsOf, Path.segments, hc, Text.splitAt] at hs

/-- Where the parents can be made, so can a directory whose parent is then there. -/
theorem makeDirectories_of_parent {t u made : FileTree} {p q : Path} {names : List String}
    (hc : p.chars ≠ []) (hq : p.Holder names q) (hfail : t.makeDirectory p = .error .notFound)
    (hparent : t.makeDirectories q = (.ok (), u)) (hmade : u.makeDirectory p = .ok made) :
    t.makeDirectories p = (.ok (), made) := by
  unfold makeDirectories at hparent ⊢
  rw [hq.parents, makeChain, if_neg (by simpa using hc), hfail]
  simp only [hparent, hmade]

theorem start_congr {t u : FileTree} {p q : Path} (hc : u.current = t.current)
    (h : q.isAbsolute = p.isAbsolute) : u.start q = t.start p := by
  rw [start, start, hc, h]

/-- Making the directories of a path adds those that are missing. -/
theorem makeDirectories_of_split {t : FileTree} {p : Path} {there missing : List String}
    {b : Place} (hnul : '\x00' ∉ p.chars) (ht : p.names = [] ∨ Path.Trimmed p.segments)
    (hp : p.names = there ++ missing) (hl : Leads t (t.start p) there b)
    (hn : ∀ n ∈ missing, IsName n)
    (hnone : ∀ below, below ≠ [] → missing.head? = below.head? → t.node? (b ++ below) = none) :
    t.makeDirectories p = (.ok (), t.build b missing) := by
  -- From the last directory that is missing back: it cannot be made before its parent.
  induction missing using List.reverseRecOn generalizing p with
  | nil =>
    rw [List.append_nil] at hp
    have hr : Rooted t p b := ⟨hnul, hp ▸ hl⟩
    unfold makeDirectories makeChain
    by_cases hc : p.chars = []
    · simp [hc, build]
    · simp [hc, hr.makeDirectory_eq hc, hr.isDirectory hc, build]
  | append_singleton missing m ih =>
    rw [← List.append_assoc] at hp
    have hm : IsName m := hn m (by simp)
    obtain ⟨hends, q, hq⟩ := Path.exists_holder_of_names
      (ht.resolve_left (by simp [hp])) hp
    cases missing with
    | nil =>
      rw [List.append_nil] at hends
      have hfree : t.node? (b ++ [m]) = none := hnone [m] (by simp) rfl
      have hmade := (points_of_ends hends hnul hl hm).makeDirectory_eq hfree
      unfold makeDirectories makeChain
      simp [chars_ne_nil_of_ends hends, hmade, build]
    | cons first missing =>
      have hns : ∀ n ∈ first :: missing, IsName n := fun n h => hn n (List.mem_append_left _ h)
      have hstart : t.start q = t.start p := start_congr rfl hq.absolute
      have hparent := ih (hq.nul hnul) hq.trimmed hq.names (hstart ▸ hl) hns
        fun below hb h => hnone below hb h
      have hgrown : Leads (t.build b (first :: missing))
          ((t.build b (first :: missing)).start p) (there ++ first :: missing)
          (b ++ first :: missing) := by
        rw [start_congr (current_build ..) rfl]
        exact (hl.mono fun _ => directory_build).append (leads_build hl.target hns)
      have hfree : (t.build b (first :: missing)).node? (b ++ first :: missing ++ [m]) = none := by
        rw [node?_build_below t b _ (by simp), List.append_assoc]
        exact hnone _ (by simp) rfl
      have hmade := (points_of_ends hends hnul hgrown hm).makeDirectory_eq hfree
      have hfail := makeDirectory_of_missing hnul hends hl (hns first (by simp))
        (hnone [first] (by simp) rfl)
      rw [build_append]
      exact makeDirectories_of_parent (chars_ne_nil_of_ends hends) hq hfail hparent hmade

end RelayKeeper.FileTree
