import RelayKeeper.Proofs.TreeAdditions

/-! # Where paths lead as a tree grows

Directories are made where one of the given paths leads. What a path cannot be found for stays that
way, unless something was missing; and in a closed tree a path whose names are names leads to a
directory, or is vacant, or meets a file. -/
namespace RelayKeeper.FileTree

variable {t u v : FileTree} {p : Path} {ps rs : List Path} {a b place q : Place} {name : String}

/-! ## What is made -/

/-- Only directories are new, and one of the paths leads to each of them. -/
structure Makes (ps : List Path) (t u : FileTree) : Prop extends Grows t u where
  made : ∀ q, t.node? q = none → u.node? q = some .directory →
    ∃ p ∈ ps, u.find p = .ok (q, .directory)
  start : u = t ∨ ∃ p ∈ ps, t.node? (t.start p) = some .directory

namespace Makes

theorem refl (ps : List Path) (t : FileTree) : Makes ps t t where
  toGrows := .refl t
  made q hnone hd := by
    rw [hnone] at hd
    cases hd
  start := .inl rfl

theorem trans (h : Makes ps t u) (k : Makes ps u v) : Makes ps t v where
  toGrows := h.toGrows.trans k.toGrows
  made q hnone hd := by
    rcases h.node q with heq | ⟨-, hu⟩
    · exact k.made q (heq.trans hnone) hd
    · obtain ⟨p, hp, hfind⟩ := h.made q hnone hu
      refine ⟨p, hp, find_of_directories k.current (fun _ hr => k.directory hr) hfind ?_⟩
      rw [hu, hd]
  start := by
    rcases k.start with rfl | ⟨p, hp, hu⟩
    · exact h.start
    · rcases h.start with rfl | ht
      · exact .inr ⟨p, hp, hu⟩
      · exact .inr ht

theorem mono (h : Makes ps t u) (hps : ∀ p ∈ ps, p ∈ rs) : Makes rs t u where
  toGrows := h.toGrows
  made q hnone hd := by
    obtain ⟨p, hp, hfind⟩ := h.made q hnone hd
    exact ⟨p, hps p hp, hfind⟩
  start := by
    rcases h.start with rfl | ⟨p, hp, hd⟩
    · exact .inl rfl
    · exact .inr ⟨p, hps p hp, hd⟩

end Makes

theorem makes_makeDirectory (h : t.makeDirectory p = .ok u) : Makes [p] t u := by
  obtain ⟨parent, hparent, hmade⟩ := of_bind h
  cases parent with
  | none => cases hmade
  | some found =>
    obtain ⟨place, name⟩ := found
    dsimp only at hmade
    split at hmade
    · cases hmade
    obtain rfl := Except.ok.inj hmade
    obtain ⟨hcheck, henter, steps, hs, hw⟩ := of_findParent hparent
    have hleads := leads_of_walk hw (directory_of_enter henter)
    have hwalk : (t.put (place ++ [name]) .directory).walk (t.start p) steps = .ok place :=
      walk_of_leads (hleads.mono fun _ => directory_put _)
    refine ⟨grows_makeDirectory h, ?_, .inr ⟨p, by simp, hleads.start⟩⟩
    intro q hnone hd
    have hq : q = place ++ [name] := by
      by_contra hne
      rw [node?_put_of_ne (by simp) _ hne, hnone] at hd
      cases hd
    subst hq
    refine ⟨p, by simp, find_of_walk hcheck ?_ hd fun _ => rfl⟩
    rw [hs, walk_append]
    change ((t.put (place ++ [name]) .directory).walk (t.start p) steps).bind _ = _
    rw [hwalk]
    have hstays := directory_put (place ++ [name]) (directory_of_enter henter)
    exact walk_cons_directory (enter_congr henter hstays) hd []

theorem makes_makeChain (t : FileTree) (ps : List Path) : Makes ps t (t.makeChain ps).2 := by
  induction ps with
  | nil => exact .refl [] t
  | cons p above ih =>
    have hself : ∀ r ∈ [p], r ∈ p :: above := by simp
    have habove : Makes (p :: above) t (t.makeChain above).2 :=
      ih.mono fun r hr => List.mem_cons_of_mem p hr
    rw [makeChain]
    by_cases hc : p.chars.isEmpty = true
    · rw [if_pos hc]
      exact .refl _ t
    · rw [if_neg hc]
      split
      · next made hm => exact (makes_makeDirectory hm).mono hself
      · split
        · next hchain =>
          rw [hchain] at habove
          exact habove
        · next v hchain =>
          rw [hchain] at habove
          split
          · next made hm => exact habove.trans ((makes_makeDirectory hm).mono hself)
          · exact habove
      · exact .refl _ t

theorem Closed.nothing_below (ht : Closed t) (hq : t.node? q = none) (below : Place) :
    t.node? (q ++ below) = none := by
  by_cases hb : below = []
  · rw [hb, List.append_nil, hq]
  · cases hnode : t.node? (q ++ below) with
    | none => rfl
    | some node =>
      have hd := ht.directory hb (by rw [hnode]; rfl)
      rw [hq] at hd
      cases hd

/-- What is there stays. -/
theorem Grows.kept {node : Node} (h : Grows t u) (hq : t.node? q = some node) :
    u.node? q = some node := by
  rcases h.node q with heq | ⟨hnone, -⟩
  · exact heq.trans hq
  · rw [hq] at hnone
    cases hnone

/-- In a closed tree what is made holds nothing but directories. -/
theorem Grows.below_new (h : Grows t u) (ht : Closed t) (hq : t.node? q = none) (below : Place) :
    u.node? (q ++ below) = none ∨ u.node? (q ++ below) = some .directory := by
  rcases h.node (q ++ below) with heq | ⟨-, hd⟩
  · exact .inl (heq.trans (ht.nothing_below hq below))
  · exact .inr hd

/-! ## What is found -/

theorem isDirectory_iff :
    t.isDirectory p = true ↔ ∃ place, t.find p = .ok (place, .directory) := by
  unfold isDirectory
  constructor
  · intro h
    split at h
    · exact ⟨_, by assumption⟩
    · cases h
  · rintro ⟨place, h⟩
    rw [h]

theorem nul_of_join (hn : IsPlain name) (h : '\x00' ∉ (p.join name).chars) : '\x00' ∉ p.chars := by
  rw [Path.chars_join p hn.slash] at h
  split at h <;> simp_all

theorem nul_of_missing (h : t.find p = .error .notFound) : '\x00' ∉ p.chars := by
  intro hnul
  have hcheck : checkPath p = .error .nulInName := by simp [checkPath, hnul]
  rw [find, hcheck] at h
  cases h

/-- The path before a name that is found leads to the directory where it is, unless it is empty. -/
theorem directory_of_find_join {node : Node} (hn : IsPlain name) (hp : p.chars ≠ [])
    (h : t.find (p.join name) = .ok (q, node)) :
    ∃ place, t.find p = .ok (place, .directory) ∧ IsName name ∧ q = place ++ [name] := by
  obtain ⟨hcheck, hwalk, -, -⟩ := of_find h
  rw [Path.stepsOf_join p hn.nonempty hn.slash, start_join t p hn] at hwalk
  obtain ⟨place, hplace, henter, -⟩ := walk_snoc hwalk
  have hnul := nul_of_join hn (nul_of_checkPath hcheck)
  have hself : checkPath p = .ok () := by simp [checkPath, hnul, hp]
  have hfind := find_of_walk hself hplace (directory_of_enter henter) fun _ => rfl
  exact ⟨place, hfind, isName_of_enter hn henter⟩

theorem find_join_of_error {fault : Fault} (hn : IsPlain name) (hnul : '\x00' ∉ p.chars)
    (hw : t.walk (t.start p) (stepsOf p ++ [name]) = .error fault) :
    t.find (p.join name) = .error fault := by
  have hsteps := Path.stepsOf_join p hn.nonempty hn.slash
  have hcheck : checkPath (p.join name) = .ok () :=
    checkPath_ok (nul_join hnul hn) (by simp [hsteps])
  rw [find, hcheck, hsteps, start_join t p hn, hw]
  rfl

theorem Rooted.find_long (h : Rooted t p place) (hn : IsPlain name)
    (hlong : longestName < name.utf8ByteSize) :
    t.find (p.join name) = .error .nameTooLong := by
  have hd := h.leads.target
  have henter : t.enter place name = .error .nameTooLong := by
    simp [enter, hd, hn.dot, hn.dots, hlong]
  refine find_join_of_error hn h.nul ?_
  rw [walk_append, h.walk_eq]
  change t.walk place [name] = _
  rw [walk, henter]
  rfl

/-! ## Faults that stay -/

structure Keeps (t u : FileTree) : Prop where
  current : u.current = t.current
  directory : ∀ q, t.node? q = some .directory → u.node? q = some .directory
  file : ∀ q content mode, t.node? q = some (.file content mode) →
    ∃ content mode, u.node? q = some (.file content mode)

theorem Keeps.enter_eq (h : Keeps t u) (ha : (t.node? a).isSome) (name : String) :
    u.enter a name = t.enter a name := by
  cases hnode : t.node? a with
  | none => simp [hnode] at ha
  | some node =>
    cases node with
    | directory => simp only [enter, hnode, h.directory a hnode]
    | file content mode =>
      obtain ⟨_, _, hu⟩ := h.file a content mode hnode
      simp [enter, hnode, hu]

theorem Keeps.isSome (h : Keeps t u) (ha : (t.node? a).isSome) : (u.node? a).isSome := by
  cases hnode : t.node? a with
  | none => simp [hnode] at ha
  | some node =>
    cases node with
    | directory => rw [h.directory a hnode]; rfl
    | file content mode =>
      obtain ⟨_, _, hu⟩ := h.file a content mode hnode
      rw [hu]
      rfl

theorem Keeps.walk_of_error (h : Keeps t u) {steps : List String} {fault : Fault}
    (ha : (t.node? a).isSome) (hw : t.walk a steps = .error fault) (hf : fault ≠ .notFound) :
    u.walk a steps = .error fault := by
  -- Up to the fault every place is there, and what is there is entered as before.
  induction steps generalizing a with
  | nil => cases hw
  | cons name rest ih =>
    have henter := h.enter_eq ha name
    cases he : t.enter a name with
    | error other =>
      rw [walk, he] at hw
      rw [walk, henter, he]
      exact hw
    | ok b =>
      rw [walk_cons he] at hw
      rw [he] at henter
      cases hb : t.node? b with
      | none =>
        rw [hb] at hw
        exact absurd (Except.error.inj hw).symm hf
      | some node =>
        have hthere : (t.node? b).isSome := by rw [hb]; rfl
        have hstays := h.isSome hthere
        rw [hb] at hw
        rw [walk_cons henter, if_neg (by simp [Option.isSome_iff_ne_none.mp hstays])]
        exact ih hthere hw

/-- What stands in the way of a path goes on standing there. -/
theorem Keeps.find_of_error (h : Keeps t u) {fault : Fault} (hstart : (t.node? (t.start p)).isSome)
    (hs : endsInSlash p = false) (hfind : t.find p = .error fault) (hf : fault ≠ .notFound) :
    u.find p = .error fault := by
  have hsame : u.start p = t.start p := start_congr h.current rfl
  unfold find at hfind ⊢
  rw [hsame]
  cases hc : checkPath p with
  | error other =>
    rw [hc] at hfind
    exact hfind
  | ok _ =>
    rw [hc] at hfind
    cases hw : t.walk (t.start p) (stepsOf p) with
    | error other =>
      rw [hw] at hfind
      obtain rfl : other = fault := Except.error.inj hfind
      rw [h.walk_of_error hstart hw hf]
      rfl
    | ok place =>
      rw [hw] at hfind
      simp only [bind, Except.bind, hs] at hfind
      split at hfind
      · exact absurd (Except.error.inj hfind).symm hf
      · cases hfind
      · cases hfind

/-! ## Closed trees -/

theorem walk_of_not_directory {steps : List String} (ha : t.node? a ≠ some .directory)
    (hs : steps ≠ []) : t.walk a steps = .error .notDirectory := by
  cases steps with
  | nil => exact absurd rfl hs
  | cons name rest =>
    rw [walk, enter, if_pos (by simpa using ha)]
    rfl

/-- Names lead to a directory, or nothing is from one of them on, or one of them is a file. -/
theorem Closed.reach (ht : Closed t) {steps : List String} (ha : t.node? a = some .directory)
    (hn : ∀ n ∈ steps.filter (· ≠ "."), IsName n) :
    (∃ b, Leads t a (steps.filter (· ≠ ".")) b) ∨ (∃ b, Vacant t a (steps.filter (· ≠ ".")) b) ∨
      ∀ last, t.walk a (steps ++ [last]) = .error .notDirectory := by
  induction steps generalizing a with
  | nil => exact .inl ⟨a, .here ha⟩
  | cons step rest ih =>
    by_cases hdot : step = "."
    · subst hdot
      rcases ih ha hn with hl | hv | hw
      · exact .inl hl
      · exact .inr (.inl hv)
      · refine .inr (.inr fun last => ?_)
        rw [List.cons_append, walk_cons_directory (enter_dot ha) ha]
        exact hw last
    · rw [List.filter_cons_of_pos (by simpa using hdot)] at hn ⊢
      have he := enter_name ha (hn step List.mem_cons_self)
      cases hnode : t.node? (a ++ [step]) with
      | none =>
        refine .inr (.inl ⟨_, .absent ha (fun below => ?_) hn⟩)
        rw [List.append_cons]
        exact ht.nothing_below hnode below
      | some node =>
        cases node with
        | directory =>
          rcases ih hnode fun n h => hn n (List.mem_cons_of_mem _ h) with ⟨b, hl⟩ | ⟨b, hv⟩ | hw
          · exact .inl ⟨b, .into he hl⟩
          · exact .inr (.inl ⟨b, .into he hv⟩)
          · refine .inr (.inr fun last => ?_)
            rw [List.cons_append, walk_cons_directory he hnode]
            exact hw last
        | file content mode =>
          refine .inr (.inr fun last => ?_)
          rw [List.cons_append, walk_cons he, hnode]
          exact walk_of_not_directory (by simp [hnode]) (by simp)

end RelayKeeper.FileTree
