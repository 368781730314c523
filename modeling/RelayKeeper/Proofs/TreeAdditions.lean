import RelayKeeper.Proofs.TreeBeside

/-! # What is added to a tree

Making directories adds directories, where there was nothing, and writing puts one file where no
directory stands. Directories stay in either case, and so does everything else that a path finds. -/
namespace RelayKeeper.FileTree

variable {t u v : FileTree} {p : Path} {a b place q : Place} {name : String}

/-! ## Where things are done -/

theorem nul_of_checkPath (h : checkPath p = .ok ()) : '\x00' ∉ p.chars := by
  intro hnul
  have hbad : checkPath p = .error .nulInName := by simp [checkPath, hnul]
  rw [hbad] at h
  cases h

theorem leads_of_walk {steps : List String} (h : t.walk a steps = .ok b)
    (hb : t.node? b = some .directory) : Leads t a (steps.filter (· ≠ ".")) b := by
  induction steps generalizing a with
  | nil =>
    obtain rfl : a = b := Except.ok.inj h
    exact .here hb
  | cons step steps ih =>
    obtain ⟨c, he, -, hw⟩ := of_walk_cons h
    have hrest := ih hw
    by_cases hdot : step = "."
    · subst hdot
      rw [enter_dot (directory_of_enter he)] at he
      obtain rfl : a = c := Except.ok.inj he
      exact hrest
    · rw [List.filter_cons_of_pos (by simpa using hdot)]
      exact .into he hrest

/-- A path that finds a directory leads there. -/
theorem rooted_of_find (h : t.find p = .ok (place, .directory)) : Rooted t p place := by
  obtain ⟨hcheck, hwalk, hnode, -⟩ := of_find h
  exact ⟨nul_of_checkPath hcheck, leads_of_walk hwalk hnode⟩

/-- The paths that contain one that leads to a directory do so too. -/
theorem Rooted.parent {r : Path} (h : Rooted t p place) (hr : r ∈ p.parents) (hnul : '\x00' ∉ r.chars) :
    ∃ q, Rooted t r q := by
  obtain ⟨habsolute, rest, hrest⟩ := Path.of_mem_parents hr
  have hleads := h.leads
  rw [← hrest] at hleads
  obtain ⟨q, hq, -⟩ := hleads.of_append
  have hstart : t.start r = t.start p := start_congr rfl habsolute
  exact ⟨q, hnul, hstart ▸ hq⟩

/-- A path that ends in a name ends there whatever it finds. -/
theorem exists_of_find_join {node : Node} (hn : IsPlain name)
    (h : t.find (p.join name) = .ok (q, node)) : ∃ b, q = b ++ [name] := by
  have hw := (of_find h).2.1
  rw [Path.stepsOf_join p hn.nonempty hn.slash] at hw
  obtain ⟨b, -, he, -⟩ := walk_snoc hw
  exact ⟨b, (isName_of_enter hn he).2⟩

/-- A path that ends in a name leads to the directory where the name is, or would be. -/
theorem of_findParent (h : t.findParent p = .ok (some (place, name))) :
    checkPath p = .ok () ∧ t.enter place name = .ok (place ++ [name]) ∧
      ∃ steps, stepsOf p = steps ++ [name] ∧ t.walk (t.start p) steps = .ok place := by
  obtain ⟨_, hc, h⟩ := of_bind h
  rcases List.eq_nil_or_concat (stepsOf p) with hs | ⟨steps, last, hs⟩
  · rw [hs] at h
    cases h
  rw [List.concat_eq_append] at hs
  rw [hs] at h
  simp only [List.getLast?_concat, List.dropLast_concat] at h
  obtain ⟨b, hw, h⟩ := of_bind h
  obtain ⟨c, he, h⟩ := of_bind h
  split at h
  · cases h
  next hdots =>
  obtain ⟨rfl, rfl⟩ : b = place ∧ last = name := by simpa using h
  simp only [Bool.or_eq_true, decide_eq_true_eq, not_or] at hdots
  obtain ⟨-, ⟨hdot, -⟩ | ⟨hup, -⟩ | ⟨-, -, -, rfl⟩⟩ := of_enter he
  · exact absurd hdot hdots.1
  · exact absurd hup hdots.2
  · exact ⟨hc, he, steps, hs, hw⟩

theorem of_makeDirectory (h : t.makeDirectory p = .ok u) :
    ∃ place name, t.node? (place ++ [name]) = none ∧
      u = t.put (place ++ [name]) .directory := by
  obtain ⟨parent, -, h⟩ := of_bind h
  cases parent with
  | none => cases h
  | some found =>
    dsimp only at h
    split at h
    · cases h
    · next hnone => exact ⟨_, _, by simpa using hnone, (Except.ok.inj h).symm⟩

theorem of_write {content : ByteArray} (h : t.write p content = .ok u) :
    ∃ place name mode, t.findParent p = .ok (some (place, name)) ∧
      t.node? (place ++ [name]) ≠ some .directory ∧
      u = t.put (place ++ [name]) (.file content mode) := by
  obtain ⟨parent, hf, h⟩ := of_bind h
  cases parent with
  | none => cases h
  | some found =>
    dsimp only at h
    split at h
    · cases h
    · split at h
      · cases h
      · next old mode hn => exact ⟨_, _, mode, hf, by simp [hn], (Except.ok.inj h).symm⟩
      · next hn => exact ⟨_, _, newFileMode, hf, by simp [hn], (Except.ok.inj h).symm⟩

/-- Where a path joined with a name ends in that name, the path leads to the directory. -/
theorem rooted_of_findParent {last : String} (hn : IsPlain name)
    (h : t.findParent (p.join name) = .ok (some (place, last))) :
    last = name ∧ IsName name ∧ Rooted t p place := by
  obtain ⟨hcheck, henter, steps, hs, hw⟩ := of_findParent h
  rw [Path.stepsOf_join p hn.nonempty hn.slash] at hs
  obtain ⟨hsteps, hlast⟩ := List.append_inj' hs rfl
  obtain rfl : name = last := by simpa using hlast
  subst hsteps
  refine ⟨rfl, (isName_of_enter hn henter).1, ⟨?_, ?_⟩⟩
  · have hnul := nul_of_checkPath hcheck
    rw [Path.chars_join p hn.slash] at hnul
    split at hnul <;> simp_all
  · rw [start_join t p hn] at hw
    exact leads_of_walk hw (directory_of_enter henter)

/-! ## Growing trees -/

/-- From one tree to the other only directories are new, where there was nothing. -/
structure Grows (t u : FileTree) : Prop where
  current : u.current = t.current
  node : ∀ q, u.node? q = t.node? q ∨ t.node? q = none ∧ u.node? q = some .directory

namespace Grows

theorem refl (t : FileTree) : Grows t t :=
  ⟨rfl, fun _ => .inl rfl⟩

theorem trans (h : Grows t u) (k : Grows u v) : Grows t v where
  current := k.current.trans h.current
  node q := by
    rcases h.node q with hq | ⟨ht, hu⟩ <;> rcases k.node q with kq | ⟨ku, kv⟩
    · exact .inl (kq.trans hq)
    · exact .inr ⟨hq ▸ ku, kv⟩
    · exact .inr ⟨ht, kq.trans hu⟩
    · rw [hu] at ku
      cases ku

theorem directory (h : Grows t u) (hq : t.node? q = some .directory) :
    u.node? q = some .directory := by
  rcases h.node q with heq | ⟨-, hu⟩
  · exact heq.trans hq
  · exact hu

end Grows

theorem grows_makeDirectory (h : t.makeDirectory p = .ok u) : Grows t u := by
  obtain ⟨place, name, hnone, rfl⟩ := of_makeDirectory h
  refine ⟨rfl, fun q => ?_⟩
  by_cases hq : q = place ++ [name]
  · subst hq
    exact .inr ⟨hnone, node?_put_self (by simp) _⟩
  · exact .inl (node?_put_of_ne (by simp) _ hq)

theorem grows_makeChain (t : FileTree) (ps : List Path) : Grows t (t.makeChain ps).2 := by
  induction ps with
  | nil => exact .refl t
  | cons p above ih =>
    rw [makeChain]
    by_cases hc : p.chars.isEmpty = true
    · rw [if_pos hc]
      exact .refl t
    · rw [if_neg hc]
      split
      · next made hm => exact grows_makeDirectory hm
      · split
        · next hchain =>
          rw [hchain] at ih
          exact ih
        · next v hchain =>
          rw [hchain] at ih
          split
          · next made hm => exact ih.trans (grows_makeDirectory hm)
          · exact ih
      · exact .refl t

/-! ## Closed trees -/

/-- Whatever is there is in a directory. -/
def Closed (t : FileTree) : Prop :=
  ∀ place name, (t.node? (place ++ [name])).isSome → t.node? place = some .directory

theorem Closed.directory (h : Closed t) {below : List String} (hb : below ≠ [])
    (hq : (t.node? (q ++ below)).isSome) : t.node? q = some .directory := by
  induction below using List.reverseRecOn with
  | nil => exact absurd rfl hb
  | append_singleton below last ih =>
    rw [← List.append_assoc] at hq
    have hnext := h _ _ hq
    by_cases he : below = []
    · simpa [he] using hnext
    · exact ih he (by rw [hnext]; rfl)

/-- Names that do not step back lead where they lead in any tree with the directories on the way. -/
theorem Leads.of_directories {names : List String} (h : Leads u a names b) (hdots : ".." ∉ names)
    (hd : ∀ q, q <+: b → t.node? q = some .directory) : a <+: b ∧ Leads t a names b := by
  induction h with
  | here _ => exact ⟨List.prefix_refl _, .here (hd _ (List.prefix_refl _))⟩
  | @into a c b name names he _ ih =>
    obtain ⟨hfront, hleads⟩ := ih (fun hm => hdots (List.mem_cons_of_mem _ hm)) hd
    have hname : name ≠ ".." := fun heq => hdots (heq ▸ List.mem_cons_self)
    have hac : a <+: c := by
      obtain ⟨-, ⟨-, rfl⟩ | ⟨hup, -⟩ | ⟨-, -, -, rfl⟩⟩ := of_enter he
      · exact List.prefix_refl _
      · exact absurd hup hname
      · exact List.prefix_append _ _
    have hab := hac.trans hfront
    exact ⟨hab, .into (enter_congr he (hd a hab)) hleads⟩

end RelayKeeper.FileTree
