import RelayKeeper.Proofs.RecordBags
import RelayKeeper.Proofs.TreePairs

/-! # Joining in any tree

Whatever the files are, a consumer that joins either has a bag, and nothing changes, or gets an empty
one: the directories that are missing are made, and a file is put where the path of the bag leads
then. Whoever has joined can join again without a change. -/
namespace RelayKeeper.Record.Store

open FileTree (Closed Grows IsPlain Rooted Leads)

/-- The consumer, whose bag was not found, has an empty one at the place. -/
structure Registers (s : Store) (id : String) (path : Path) (place : Place) (t u : FileTree) :
    Prop where
  safe : IsSafeId id
  named : s.bagPath id = .ok path
  missing : t.contains path = false
  found : ∃ mode, u.find path = .ok (place, .file (written (Bag.toJson ∅)) mode)
  reads : s.relationData id u = .ok ∅
  current : u.current = t.current
  /-- Anywhere else only directories are new. -/
  rest : ∀ q, q ≠ place → u.node? q = t.node? q ∨ t.node? q = none ∧ u.node? q = some .directory
  /-- No directory stood at the place, and nothing at all if the path does not step back. -/
  dropped : t.node? place ≠ some .directory
  fresh : Closed t → ".." ∉ s.root.names → t.node? place = none

variable {s : Store} {id : String} {t u : FileTree} {path : Path} {place : Place}

theorem joinRelation_of_not_safe (s : Store) (t : FileTree) (h : ¬ IsSafeId id) :
    s.joinRelation id t = (.error (.invalidId id), t) := by
  unfold joinRelation
  rw [bagPath_of_not_safe s h]

/-- In a closed tree a file that stands where a path leads is found, unless the path steps back. -/
theorem contains_of_closed {p : Path} {name : String} (ht : Closed t) (hg : Grows t u)
    (hn : FileTree.IsName name) (hr : Rooted u p place) (hdots : ".." ∉ p.names)
    (hnode : (t.node? (place ++ [name])).isSome) : t.contains (p.join name) = true := by
  have hway : ∀ q, q <+: place → t.node? q = some .directory := by
    rintro q ⟨below, rfl⟩
    rw [List.append_assoc] at hnode
    exact ht.directory (by simp) hnode
  have hstart : t.start p = u.start p := FileTree.start_congr hg.current.symm rfl
  have hrooted : Rooted t p place := by
    refine ⟨hr.nul, ?_⟩
    rw [hstart]
    exact (hr.leads.of_directories hdots hway).2
  rw [(hrooted.points hn).finds.contains_eq]
  exact hnode

theorem of_writeJson {p : Path} {name : String} {value : Json} (hn : IsPlain name)
    (h : writeJson (p.join name) value t = (.ok (), u)) :
    ∃ made place mode, Grows t made ∧ FileTree.IsName name ∧ Rooted made p place ∧
      made.node? (place ++ [name]) ≠ some .directory ∧
      u = made.put (place ++ [name]) (.file (written value) mode) := by
  have hgrows := grows_makeParent (p.join name) t
  unfold writeJson at h
  rcases hm : makeParent (p.join name) t with ⟨error | _, made⟩
  · rw [hm] at h
    cases h
  · rw [hm] at h hgrows
    dsimp only [FileTree.writeText] at h
    rcases hw : made.write (p.join name) (String.ofList value.pretty).toUTF8 with fault | after
    · rw [hw] at h
      cases h
    · rw [hw] at h
      obtain rfl : after = u := (Prod.mk.inj h).2
      obtain ⟨place, last, mode, hparent, hfree, hafter⟩ := FileTree.of_write hw
      obtain ⟨rfl, hname, hr⟩ := FileTree.rooted_of_findParent hn hparent
      exact ⟨made, place, mode, hgrows, hname, hr, hfree, hafter⟩

/-- A bag that can be written is the only file that is new. -/
theorem registers_of_writeJson (hs : IsSafeId id)
    (hmissing : t.contains (s.relationsPath.join (bagName id)) = false)
    (h : writeJson (s.relationsPath.join (bagName id)) (Bag.toJson ∅) t = (.ok (), u)) :
    ∃ place, s.Registers id (s.relationsPath.join (bagName id)) place t u := by
  obtain ⟨made, place, mode, hgrows, hname, hr, hfree, hu⟩ := of_writeJson (isPlain_bagName hs) h
  have hput : u.node? (place ++ [bagName id]) = some (.file (written (Bag.toJson ∅)) mode) := by
    rw [hu, FileTree.node?_put_self (by simp)]
  have hafter : Rooted u s.relationsPath place := by
    rw [hu]
    exact rooted_put_file hr (by simp) hfree
  have hfinds := (hafter.points hname).finds
  refine ⟨place ++ [bagName id], hs, bagPath_of_safe s hs, hmissing, ⟨mode, ?_⟩, ?_, ?_, ?_, ?_,
    ?_⟩
  · rw [hfinds, hput]
  · have hstored : Stored u (place ++ [bagName id]) ((some ∅ : Option Bag).map Bag.toJson) :=
      ⟨mode, hput⟩
    have hread := readJson_of_finds hfinds Bag.readsBack hstored
    rw [relationData, bagPath_of_safe s hs]
    change (readJson _ _ _).map _ = _
    rw [hread]
    rfl
  · rw [hu]
    exact hgrows.current
  · intro q hq
    rw [hu, FileTree.node?_put_of_ne (by simp) _ hq]
    exact hgrows.node q
  · intro hd
    exact hfree (hgrows.directory hd)
  · intro hclosed hdots
    have hback : ".." ∉ s.relationsPath.names := by
      rw [names_relationsPath]
      simp [hdots, bagsName]
    -- Whatever stood there would have been found, and the bag was missing.
    cases hnode : t.node? (place ++ [bagName id]) with
    | none => rfl
    | some node =>
      have hfound := contains_of_closed hclosed hgrows hname hr hback (by rw [hnode]; rfl)
      rw [hmissing] at hfound
      cases hfound

theorem of_joinRelation (h : s.joinRelation id t = (.ok (), u)) :
    u = t ∨ ∃ path place, s.Registers id path place t u := by
  by_cases hs : IsSafeId id
  · unfold joinRelation at h
    rw [bagPath_of_safe s hs] at h
    dsimp only at h
    by_cases hc : t.contains (s.relationsPath.join (bagName id)) = true
    · rw [if_pos hc] at h
      exact .inl (Prod.mk.inj h).2.symm
    · rw [if_neg hc] at h
      obtain ⟨place, hr⟩ := registers_of_writeJson hs (Bool.eq_false_iff.mpr hc) h
      exact .inr ⟨_, place, hr⟩
  · rw [joinRelation_of_not_safe s t hs] at h
    cases h

theorem joinRelation_again (h : s.joinRelation id t = (.ok (), u)) :
    s.joinRelation id u = (.ok (), u) := by
  rcases of_joinRelation h with rfl | ⟨path, place, hr⟩
  · exact h
  · obtain ⟨mode, hf⟩ := hr.found
    have hc : u.contains path = true := by
      rw [FileTree.contains, hf]
      rfl
    unfold joinRelation
    rw [hr.named]
    exact if_pos hc

theorem Registers.directory (h : s.Registers id path place t u) {q : Place}
    (hq : t.node? q = some .directory) : u.node? q = some .directory := by
  have hne : q ≠ place := by
    rintro rfl
    exact h.dropped hq
  rcases h.rest q hne with heq | ⟨hnone, -⟩
  · exact heq.trans hq
  · rw [hq] at hnone
    cases hnone

/-- Whatever is found, and not replaced, is found as before. -/
theorem Registers.find_eq (h : s.Registers id path place t u) {p : Path} {q : Place} {node : Node}
    (hf : t.find p = .ok (q, node)) (hq : u.node? q = t.node? q) : u.find p = .ok (q, node) :=
  FileTree.find_of_directories h.current (fun _ hr => h.directory hr) hf hq.symm

/-- In a directory that was there, a file that is not JSON is found as before. -/
theorem Registers.find_join (h : s.Registers id path place t u) {p : Path} {q : Place}
    {name : String} (hr : Rooted t p q) (hn : FileTree.IsName name)
    (hj : ¬ FileTree.IsJsonName name) :
    u.find (p.join name) = t.find (p.join name) ∨
      t.find (p.join name) = .error .notFound ∧
        u.find (p.join name) = .ok (q ++ [name], .directory) := by
  have hfinds := (hr.points hn).finds
  have hafter := ((hr.mono h.current fun _ hd => h.directory hd).points hn).finds
  -- The bag's own place ends in a JSON name.
  have hne : q ++ [name] ≠ place := by
    intro heq
    obtain ⟨mode, hf⟩ := h.found
    obtain rfl := Except.ok.inj ((bagPath_of_safe s h.safe).symm.trans h.named)
    obtain ⟨b, hb⟩ := FileTree.exists_of_find_join (isPlain_bagName h.safe) hf
    obtain ⟨-, hlast⟩ := List.append_inj' (heq.trans hb) rfl
    obtain rfl : name = bagName id := by simpa using hlast
    exact hj (isJsonName_bagName id)
  unfold FileTree.Finds at hfinds hafter
  rcases h.rest _ hne with hsame | ⟨hnone, hdir⟩
  · rw [hsame] at hafter
    exact .inl (hafter.trans hfinds.symm)
  · rw [hnone] at hfinds
    rw [hdir] at hafter
    exact .inr ⟨hfinds, hafter⟩

end RelayKeeper.Record.Store
