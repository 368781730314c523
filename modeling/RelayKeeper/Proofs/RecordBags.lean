import Mathlib.Data.List.Sort
import RelayKeeper.Proofs.RecordFiles

/-! # The bags on disk

A directory of bags shows a map from ids to bags if each bag is in its file and no other file counts
as a consumer's. Listing gives the ids of the map, joining and updating change the map, and what is
done to the other files of the record leaves it as it is. -/
namespace RelayKeeper.Record.Store

open FileTree (IsName IsJsonName Beside Rooted Points Finds)

/-- The directory of bags below a place shows these bags, and no others. -/
structure ShowsBags (t : FileTree) (place : Place) (bags : Bags) : Prop where
  ready : BagsReady t place
  stored : ∀ id, id ≠ "" →
    Stored t (bagsPlace place ++ [bagName id]) (bags[id]?.map Bag.toJson)
  ids : ∀ id ∈ bags, IsSafeId id ∧ FitsName id

variable {s : Store} {t u : FileTree} {place : Place} {bags : Bags} {id : String}

/-! ## Listing -/

theorem idOfName_eq_some {name : String} :
    idOfName? name = some id ↔ id ≠ "" ∧ name = bagName id := by
  simp only [idOfName?]
  constructor
  · intro h
    split at h
    · next hc =>
      simp only [Bool.and_eq_true, decide_eq_true_eq, Bool.not_eq_true'] at hc
      obtain rfl := Option.some.inj h
      refine ⟨?_, ?_⟩
      · intro he
        have hl := congrArg String.toList he
        simp_all
      · apply String.toList_injective
        rw [toList_bagName, String.toList_ofList, ← hc.2, List.take_append_drop]
    · cases h
  · rintro ⟨hne, rfl⟩
    have hid : id.toList ≠ [] := by simpa using hne
    have hlen : (bagName id).toList.length - 5 = id.toList.length := by
      simp [toList_bagName]
    rw [hlen, toList_bagName, List.take_left, List.drop_left]
    simp [hid]

theorem mem_idsOfNames {names : List String} :
    id ∈ idsOfNames names ↔ id ≠ "" ∧ bagName id ∈ names := by
  simp only [idsOfNames, List.mem_mergeSort, List.mem_filterMap, idOfName_eq_some]
  constructor
  · rintro ⟨name, hm, hne, rfl⟩
    exact ⟨hne, hm⟩
  · rintro ⟨hne, hm⟩
    exact ⟨_, hm, hne, rfl⟩

theorem nodup_idsOfNames {names : List String} (h : names.Nodup) : (idsOfNames names).Nodup := by
  refine (List.mergeSort_perm _ _).nodup_iff.mpr (h.filterMap fun name other id hn ho => ?_)
  rw [(idOfName_eq_some.mp hn).2, (idOfName_eq_some.mp ho).2]

theorem sorted_idsOfNames (names : List String) :
    (idsOfNames names).Pairwise (· ≤ ·) := by
  have h := @List.pairwise_mergeSort _ (fun a b : String => decide (a ≤ b))
    (fun a b c hab hbc => by simpa using String.le_trans (by simpa using hab) (by simpa using hbc))
    (fun a b => by simpa using String.le_total a b) (names.filterMap idOfName?)
  exact h.imp fun hab => by simpa using hab

theorem sorted_keys (bags : Bags) : bags.keys.Pairwise (· ≤ ·) := by
  refine bags.ordered_keys.imp fun {a b} h => ?_
  have hlt : a < b := compareOfLessAndEq_eq_lt.mp h
  exact Std.le_of_lt hlt

theorem idsOfNames_eq {names : List String} (hn : names.Nodup)
    (hm : ∀ id, id ≠ "" → (bagName id ∈ names ↔ id ∈ bags)) (hne : ∀ id ∈ bags, id ≠ "") :
    idsOfNames names = bags.keys := by
  have hmem : ∀ id, id ∈ idsOfNames names ↔ id ∈ bags.keys := by
    intro id
    rw [mem_idsOfNames, Std.ExtTreeMap.mem_keys]
    constructor
    · rintro ⟨h, hb⟩
      exact (hm id h).mp hb
    · intro hb
      exact ⟨hne id hb, (hm id (hne id hb)).mpr hb⟩
  -- Both lists are sorted, and have the same ids, each once.
  have hp := (List.perm_ext_iff_of_nodup (nodup_idsOfNames hn) bags.nodup_keys).mpr hmem
  exact hp.eq_of_pairwise' (sorted_idsOfNames names) (sorted_keys bags)

theorem ShowsBags.isSome_iff (h : ShowsBags t place bags) (hne : id ≠ "") :
    (t.node? (bagsPlace place ++ [bagName id])).isSome ↔ id ∈ bags := by
  rw [(h.stored id hne).isSome_node, Option.isSome_map]
  exact Std.ExtTreeMap.isSome_getElem?_iff_mem

theorem ShowsBags.relations_eq (h : ShowsBags t place bags) (hl : s.Lies t place) :
    s.relations t = .ok bags.keys := by
  have hf : Finds t s.relationsPath (bagsPlace place) := hl.finds_top isName_bags
  have hne : ∀ id ∈ bags, id ≠ "" := fun id hm => (h.ids id hm).1.1
  unfold Finds at hf
  rcases h.ready with hd | hn
  · rw [hd] at hf
    obtain ⟨names, hlist, hnodup, hm⟩ := FileTree.list_of_directory hf
    unfold relations
    rw [hlist]
    refine congrArg Except.ok (idsOfNames_eq hnodup (fun id hid => ?_) hne)
    rw [hm, h.isSome_iff hid]
  · have hnone := hn []
    rw [List.append_nil] at hnone
    rw [hnone] at hf
    have hkeys : idsOfNames [] = bags.keys := by
      refine idsOfNames_eq List.nodup_nil (fun id hid => ?_) hne
      rw [← h.isSome_iff hid, hn]
      simp
    have hnil : idsOfNames [] = [] := by simp [idsOfNames]
    unfold relations
    rw [FileTree.list_of_missing hf, ← hkeys, hnil]

/-- Bags are shown by what is below their directory alone. -/
theorem ShowsBags.congr (h : ShowsBags t place bags)
    (hsame : ∀ below, u.node? (bagsPlace place ++ below) = t.node? (bagsPlace place ++ below)) :
    ShowsBags u place bags where
  ready := by
    rcases h.ready with hd | hn
    · left
      simpa using (hsame []).trans (by simpa using hd)
    · exact .inr fun below => (hsame below).trans (hn below)
  stored id hne := (h.stored id hne).congr (hsame _)
  ids := h.ids

theorem WritesFile.showsBags {name : String} (h : WritesFile s t u place name)
    (hne : name ≠ bagsName)
    (hb : ShowsBags t place bags) : ShowsBags u place bags := by
  refine hb.congr fun below => ?_
  have hrest := h.rest (bagsName :: below) (by simp) (by simp [hne.symm])
  simpa [bagsPlace] using hrest

/-! ## Reading and writing bags -/

theorem ShowsBags.finds (h : ShowsBags t place bags) (hl : s.Lies t place) (hs : IsSafeId id)
    (hf : FitsName id) :
    Finds t (s.relationsPath.join (bagName id)) (bagsPlace place ++ [bagName id]) :=
  hl.finds_bag h.ready (isName_bagName hs hf)

theorem ShowsBags.readJson_eq (h : ShowsBags t place bags) (hl : s.Lies t place)
    (hs : IsSafeId id) (hf : FitsName id) :
    readJson Bag.ofJson? (s.relationsPath.join (bagName id)) t = .ok bags[id]? :=
  readJson_of_finds (h.finds hl hs hf) Bag.readsBack (h.stored id hs.1)

theorem ShowsBags.relationData_eq (h : ShowsBags t place bags) (hl : s.Lies t place)
    (hs : IsSafeId id) (hf : FitsName id) :
    s.relationData id t = .ok (bags[id]?.getD ∅) := by
  rw [relationData, bagPath_of_safe s hs]
  change (readJson _ _ t).map _ = _
  rw [h.readJson_eq hl hs hf]
  rfl

theorem isJsonName_bagName (id : String) : IsJsonName (bagName id) := by
  rw [IsJsonName, toList_bagName]
  exact List.suffix_append _ _

structure WritesBag (s : Store) (t u : FileTree) (place : Place) (bags : Bags) : Prop where
  lies : s.Lies u place
  shows : ShowsBags u place bags
  rest : ∀ name, name ≠ bagsName → u.node? (place ++ [name]) = t.node? (place ++ [name])
  beside : Rooted t s.relationsPath (bagsPlace place) → Beside t u

theorem getElem?_insert_bags (bags : Bags) (id other : String) (bag : Bag) :
    (bags.insert id bag)[other]? = if other = id then some bag else bags[other]? := by
  have hc : compare id other = .eq ↔ other = id := by
    rw [Std.LawfulEqOrd.compare_eq_iff_eq, eq_comm]
  simp [Std.ExtTreeMap.getElem?_insert, hc]

theorem mem_insert_bags (bags : Bags) (id other : String) (bag : Bag) :
    other ∈ bags.insert id bag ↔ other = id ∨ other ∈ bags := by
  rw [Std.ExtTreeMap.mem_insert, Std.LawfulEqOrd.compare_eq_iff_eq, eq_comm]

theorem insertIfNew_of_mem (hm : id ∈ bags) (bag : Bag) : bags.insertIfNew id bag = bags := by
  apply Std.ExtTreeMap.ext_getElem?
  intro other
  simp [Std.ExtTreeMap.getElem?_insertIfNew, hm]

theorem insertIfNew_of_not_mem (hm : id ∉ bags) (bag : Bag) :
    bags.insertIfNew id bag = bags.insert id bag := by
  apply Std.ExtTreeMap.ext_getElem?
  intro other
  simp [Std.ExtTreeMap.getElem?_insertIfNew, Std.ExtTreeMap.getElem?_insert, hm]

theorem ShowsBags.writeJson_eq (h : ShowsBags t place bags) (hl : s.Lies t place)
    (hs : IsSafeId id) (hf : FitsName id) (bag : Bag) :
    ∃ u, writeJson (s.relationsPath.join (bagName id)) bag.toJson t = (.ok (), u) ∧
      WritesBag s t u place (bags.insert id bag) := by
  have hn := isName_bagName hs hf
  obtain ⟨u, hmade, hr, hsame⟩ := hl.makeParent_bag h.ready hn.toIsPlain
  have hbag : ∀ name, u.node? (bagsPlace place ++ [name]) = t.node? (bagsPlace place ++ [name]) := by
    intro name
    have h := hsame (bagsName :: [name]) (by simp) (by simp)
    simpa [bagsPlace] using h
  have hd : u.node? (bagsPlace place ++ [bagName id]) ≠ some .directory :=
    hbag _ ▸ (h.stored id hs.1).not_directory
  obtain ⟨mode, hw⟩ := Store.writeJson_eq bag.toJson hmade (hr.points hn) hd
  refine ⟨_, hw, ?_, ⟨?_, ?_, ?_⟩, ?_, ?_⟩
  · exact .of_rooted (rooted_put_file (rooted_of_bags hr hl.nul) (by simp) hd)
  · exact .inl (directory_put_file (by simp) hd hr.leads.target)
  · intro other hne
    rw [getElem?_insert_bags]
    split
    · next heq =>
      subst heq
      exact ⟨mode, FileTree.node?_put_self (by simp) _⟩
    · next hother =>
      have hplace : bagsPlace place ++ [bagName other] ≠ bagsPlace place ++ [bagName id] := by
        intro heq
        exact hother (bagName_injective (by simpa using heq))
      refine (h.stored other hne).congr ?_
      rw [FileTree.node?_put_of_ne (by simp) _ hplace, hbag]
  · intro other hm
    rcases (mem_insert_bags ..).mp hm with rfl | hm
    · exact ⟨hs, hf⟩
    · exact h.ids other hm
  · intro name hne
    have hplace : place ++ [name] ≠ bagsPlace place ++ [bagName id] := by
      intro heq
      simpa [bagsPlace] using congrArg List.length heq
    rw [FileTree.node?_put_of_ne (by simp) _ hplace]
    exact hsame [name] (by simp) (by simpa using hne)
  · intro hrooted
    rw [makeParent_of_rooted hn.toIsPlain hrooted] at hmade
    obtain rfl := (Prod.mk.inj hmade).2
    exact .put hd (isJsonName_bagName id)

theorem ShowsBags.joinRelation_eq (h : ShowsBags t place bags) (hl : s.Lies t place)
    (hs : IsSafeId id) (hf : FitsName id) :
    ∃ u, s.joinRelation id t = (.ok (), u) ∧
      WritesBag s t u place (bags.insertIfNew id ∅) := by
  have hc := (h.finds hl hs hf).contains_eq
  rw [(h.stored id hs.1).isSome_node, Option.isSome_map] at hc
  by_cases hm : id ∈ bags
  · rw [insertIfNew_of_mem hm]
    refine ⟨t, ?_, hl, h, fun _ _ => rfl, fun _ => .refl t⟩
    unfold joinRelation
    rw [bagPath_of_safe s hs]
    simp [hc, hm]
  · rw [insertIfNew_of_not_mem hm]
    obtain ⟨u, hw, hu⟩ := h.writeJson_eq hl hs hf ∅
    refine ⟨u, ?_, hu⟩
    unfold joinRelation
    rw [bagPath_of_safe s hs]
    simp [hc, hm, hw]

theorem ShowsBags.updateRelation_eq (h : ShowsBags t place bags) (hl : s.Lies t place)
    (hs : IsSafeId id) (hf : FitsName id) (data : Bag) :
    ∃ u, s.updateRelation id data t = (.ok (), u) ∧
      WritesBag s t u place (bags.insert id ((bags[id]?.getD ∅).overlay data)) := by
  obtain ⟨u, hw, hu⟩ := h.writeJson_eq hl hs hf ((bags[id]?.getD ∅).overlay data)
  refine ⟨u, ?_, hu⟩
  simp only [updateRelation, bagPath_of_safe s hs, h.readJson_eq hl hs hf, hw]

end RelayKeeper.Record.Store
