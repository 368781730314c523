import RelayKeeper.Proofs.LedgerRefinement

/-! # What becomes of the bags

The bags that a store holds are told by the directory of bags alone. Joining adds an empty bag or
changes nothing, updating puts entries over a bag, and everything else leaves the bags as they are,
whatever the other files of the record are. -/
namespace RelayKeeper.Record.Store

open FileTree (IsPlain IsName IsJsonName Beside Rooted)

structure Holds (s : Store) (t : FileTree) (place : Place) (bags : Bags) : Prop where
  lies : s.Lies t place
  shows : ShowsBags t place bags

/-- The directory of bags stays where it is, with what is in it. -/
structure Untouched (s : Store) (place : Place) (t u : FileTree) : Prop where
  lies : s.Lies t place → s.Lies u place
  bags : ∀ below, u.node? (bagsPlace place ++ below) = t.node? (bagsPlace place ++ below)

theorem Untouched.refl (s : Store) (place : Place) (t : FileTree) : s.Untouched place t t :=
  ⟨id, fun _ => rfl⟩

variable {s : Store} {t u : FileTree} {place : Place} {bags : Bags} {id : String}

namespace Holds

theorem untouched (h : s.Holds t place bags) (hu : s.Untouched place t u) :
    s.Holds u place bags :=
  ⟨hu.lies h.lies, h.shows.congr hu.bags⟩

theorem relations_eq (h : s.Holds t place bags) : s.relations t = .ok bags.keys :=
  h.shows.relations_eq h.lies

theorem relationData_eq (h : s.Holds t place bags) (hm : id ∈ bags) :
    s.relationData id t = .ok (bags[id]?.getD ∅) := by
  obtain ⟨hs, hf⟩ := h.shows.ids id hm
  exact h.shows.relationData_eq h.lies hs hf

theorem rooted_bags (h : s.Holds t place bags) (hm : id ∈ bags) :
    Rooted t s.relationsPath (bagsPlace place) := by
  rcases h.lies.bags h.shows.ready with hr | hv
  · exact hr
  · have hsome := (h.shows.isSome_iff (h.shows.ids id hm).1.1).mpr hm
    rw [hv.nothing_below (by simp)] at hsome
    cases hsome

theorem rooted (h : s.Holds t place bags) (hm : id ∈ bags) : Rooted t s.root place :=
  rooted_of_bags (h.rooted_bags hm) h.lies.nul

/-! ## The other files of the record -/

theorem writeJson (h : s.Holds t place bags) {name : String} (hn : IsName name)
    (hj : IsJsonName name) (hne : name ≠ bagsName) (value : Json) :
    ∃ r u, Store.writeJson (s.root.join name) value t = (r, u) ∧ s.Holds u place bags ∧
      ∀ id ∈ bags, Beside t u := by
  obtain ⟨r, u, hw, hu, -⟩ := h.lies.writeJson_eq hn value
  refine ⟨r, u, hw, ⟨hu.lies, hu.showsBags hne h.shows⟩, ?_⟩
  intro id hm
  exact hu.beside hj (h.rooted hm)

theorem setStatus (h : s.Holds t place bags) (status : Status) :
    ∃ r u, s.setStatus status t = (r, u) ∧ s.Holds u place bags ∧ ∀ id ∈ bags, Beside t u :=
  h.writeJson isName_status (by decide) (by decide) status.toJson

theorem openPort_cases (s : Store) (port : UInt16) (t : FileTree) :
    (∃ r, s.openPort port t = (r, t)) ∨
      ∃ ports, s.openPort port t = Store.writeJson s.portsPath (Ports.toJson ports) t := by
  cases hp : s.openedPorts t with
  | error error =>
    left
    refine ⟨.error error, ?_⟩
    delta openPort
    rw [hp]
  | ok ports =>
    rw [openPort_of_ports hp]
    by_cases hm : port ∈ ports
    · exact .inl ⟨.ok (), if_pos hm⟩
    · exact .inr ⟨ports.insert port, if_neg hm⟩

theorem openPort (h : s.Holds t place bags) (port : UInt16) :
    ∃ r u, s.openPort port t = (r, u) ∧ s.Holds u place bags := by
  rcases openPort_cases s port t with ⟨r, heq⟩ | ⟨ports, heq⟩
  · exact ⟨r, t, heq, h⟩
  · obtain ⟨r, u, hw, hu, -⟩ :=
      h.writeJson isName_ports (by decide) (by decide) (Ports.toJson ports)
    exact ⟨r, u, heq.trans hw, hu⟩

/-! ## The bags -/

theorem updateRelation (h : s.Holds t place bags) (hm : id ∈ bags) (data : Bag) :
    ∃ r u, s.updateRelation id data t = (r, u) ∧
      s.Holds u place (bags.insert id ((bags[id]?.getD ∅).overlay data)) ∧ Beside t u := by
  obtain ⟨hs, hf⟩ := h.shows.ids id hm
  obtain ⟨u, hu, hw⟩ := h.shows.updateRelation_eq h.lies hs hf data
  exact ⟨_, u, hu, ⟨hw.lies, hw.shows⟩, hw.beside (h.rooted_bags hm)⟩

/-- A file whose name does not fit is not written, but its directory is made. -/
theorem writeJson_long (h : s.Holds t place bags) (hs : IsSafeId id) (hf : ¬ FitsName id)
    (value : Json) :
    ∃ r u, Store.writeJson (s.relationsPath.join (bagName id)) value t = (r, u) ∧
      s.Holds u place bags := by
  have hn := isPlain_bagName hs
  obtain ⟨u, hmade, hr, hsame⟩ := h.lies.makeParent_bag h.shows.ready hn
  have hw : u.writeText (s.relationsPath.join (bagName id)) (String.ofList value.pretty) =
      .error .nameTooLong := hr.write_long hn (Nat.not_le.mp hf) _
  refine ⟨_, u, by simp only [Store.writeJson, hmade, hw]; rfl, ?_, .inl hr.leads.target, ?_, ?_⟩
  · exact .of_rooted (rooted_of_bags hr h.lies.nul)
  · intro other hne
    refine (h.shows.stored other hne).congr ?_
    have hbelow := hsame [bagsName, bagName other] (by simp) (by simp)
    simpa [bagsPlace] using hbelow
  · exact h.shows.ids

/-- Joining adds an empty bag for a new consumer, and changes no other. -/
theorem joinRelation (h : s.Holds t place bags) (id : String) :
    ∃ r u next, s.joinRelation id t = (r, u) ∧ s.Holds u place next ∧
      (next = bags ∨ id ∉ bags ∧ next = bags.insert id ∅) := by
  by_cases hs : IsSafeId id
  · by_cases hf : FitsName id
    · obtain ⟨u, hu, hw⟩ := h.shows.joinRelation_eq h.lies hs hf
      refine ⟨_, u, _, hu, ⟨hw.lies, hw.shows⟩, ?_⟩
      by_cases hm : id ∈ bags
      · exact .inl (insertIfNew_of_mem hm ∅)
      · exact .inr ⟨hm, insertIfNew_of_not_mem hm ∅⟩
    · unfold Store.joinRelation
      rw [bagPath_of_safe s hs]
      dsimp only
      by_cases hc : t.contains (s.relationsPath.join (bagName id)) = true
      · exact ⟨_, t, bags, if_pos hc, h, .inl rfl⟩
      · obtain ⟨r, u, hw, hu⟩ := h.writeJson_long hs hf (Bag.toJson ∅)
        exact ⟨r, u, bags, (if_neg hc).trans hw, hu, .inl rfl⟩
  · unfold Store.joinRelation
    rw [bagPath_of_not_safe s hs]
    exact ⟨_, t, bags, rfl, h, .inl rfl⟩

end Holds

end RelayKeeper.Record.Store
