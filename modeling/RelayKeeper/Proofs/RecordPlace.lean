import RelayKeeper.Proofs.TreeGrowth
import RelayKeeper.Proofs.WrittenRoundTrip

/-! # Where the record lies

The root of a store leads to a directory, or is vacant and its directory can be made. Either way the
files of the record have their places, and reading and writing them is told by what stands there. -/
namespace RelayKeeper.Record.Store

open FileTree (IsPlain IsName Leads Vacant Rooted Finds)

/-- The root leads to the place, or would if the missing directories were made. -/
structure Lies (s : Store) (t : FileTree) (place : Place) : Prop where
  nul : '\x00' ∉ s.root.chars
  reach : Leads t (t.start s.root) s.root.names place ∨
    Vacant t (t.start s.root) s.root.names place

def bagsName : String := "relations"

def bagName (id : String) : String := id ++ ".json"

def bagsPlace (place : Place) : Place := place ++ [bagsName]

theorem isName_status : IsName "status.json" := by
  decide

theorem isName_ports : IsName "ports.json" := by
  decide

theorem isName_bags : IsName bagsName := by
  decide

theorem names_relationsPath (s : Store) : s.relationsPath.names = s.root.names ++ [bagsName] :=
  FileTree.names_join isName_bags.toIsPlain

theorem start_relationsPath (s : Store) (t : FileTree) :
    t.start s.relationsPath = t.start s.root :=
  FileTree.start_join t s.root isName_bags.toIsPlain

theorem trimmed_join {p : Path} {name : String} (hn : IsPlain name) :
    Path.Trimmed (p.join name).segments := by
  have hne := hn.nonempty
  have hdot : name.toList ≠ ['.'] := by
    intro h
    exact hn.dot (String.toList_injective h)
  obtain ⟨ss, hj, -⟩ := p.segments_join hn.slash
  exact .inr ⟨ss, name.toList, hj, by simp [Path.isComponent, hne, hdot]⟩

theorem exists_holder_join (p : Path) {name : String} (hn : IsPlain name) :
    ∃ q, (p.join name).Holder p.names q :=
  (Path.exists_holder_of_names (trimmed_join hn) (FileTree.names_join hn)).2

/-- Making the directory of a file adds the directories that are missing. -/
theorem makeParent_of_split {t : FileTree} {p : Path} {name : String}
    {there missing : List String} {b : Place} (hn : IsPlain name) (hnul : '\x00' ∉ p.chars)
    (hp : p.names = there ++ missing) (hl : Leads t (t.start p) there b)
    (hns : ∀ n ∈ missing, IsName n)
    (hnone : ∀ below, below ≠ [] → missing.head? = below.head? → t.node? (b ++ below) = none) :
    makeParent (p.join name) t = (.ok (), t.build b missing) := by
  obtain ⟨q, hq⟩ := exists_holder_join p hn
  have hstart : t.start q = t.start p :=
    FileTree.start_congr rfl (hq.absolute.trans (Path.isAbsolute_join p hn.slash))
  have hmade := FileTree.makeDirectories_of_split (hq.nul (FileTree.nul_join hnul hn)) hq.trimmed
    (hq.names.trans hp) (hstart ▸ hl) hns hnone
  have hparent : (p.join name).parent? = some q := by
    rw [Path.parent?, hq.parents]
    rfl
  rw [makeParent, hparent]
  simp only [hmade]
  rfl

theorem makeParent_of_rooted {t : FileTree} {p : Path} {name : String} {place : Place}
    (hn : IsPlain name) (hr : Rooted t p place) : makeParent (p.join name) t = (.ok (), t) := by
  have hnone : ∀ below : Place, below ≠ [] → ([] : List String).head? = below.head? →
      t.node? (place ++ below) = none := by
    intro below hb h
    cases below with
    | nil => exact absurd rfl hb
    | cons n below => simp at h
  exact makeParent_of_split hn hr.nul (List.append_nil _).symm hr.leads (by simp) hnone

/-- Making the directory of a file below a vacant path puts the path there, and changes nothing but
the way to it. -/
theorem makeParent_of_vacant {t : FileTree} {p : Path} {name : String} {place : Place}
    (hn : IsPlain name) (hnul : '\x00' ∉ p.chars) (hv : Vacant t (t.start p) p.names place) :
    ∃ u, makeParent (p.join name) t = (.ok (), u) ∧ Rooted u p place ∧
      ∀ q, ¬ q <+: place → u.node? q = t.node? q := by
  obtain ⟨there, b, missing, hp, hl, rfl, hns, hnone⟩ := hv.split
  refine ⟨t.build b missing, ?_, ⟨hnul, ?_⟩, ?_⟩
  · exact makeParent_of_split hn hnul hp hl hns fun below hb h => hnone below hb (.inr h)
  · rw [FileTree.start_congr (FileTree.current_build ..) rfl, hp]
    exact (hl.mono fun _ => FileTree.directory_build).append (FileTree.leads_build hl.target hns)
  · intro q hq
    refine FileTree.node?_build_of_ne fun made _ hm heq => hq ?_
    rw [heq]
    exact (List.prefix_append_right_inj b).mpr hm

theorem not_prefix_of_below {place below : Place} (hb : below ≠ []) :
    ¬ place ++ below <+: place := by
  intro h
  have hl := h.length_le
  have hpos := List.length_pos_iff.mpr hb
  rw [List.length_append] at hl
  omega

theorem find_of_vacant {t : FileTree} {p : Path} {name : String} {place : Place}
    (hn : IsName name) (hnul : '\x00' ∉ p.chars) (hv : Vacant t (t.start p) p.names place) :
    t.find (p.join name) = .error .notFound := by
  obtain ⟨there, b, missing, hp, hl, hc, hns, hnone⟩ := (hv.snoc hn).split
  have hstart := FileTree.start_join t p hn.toIsPlain
  cases missing with
  | nil =>
    obtain rfl : place ++ [name] = b := by simpa using hc
    have hd := hl.target
    rw [hv.nothing_below (by simp)] at hd
    cases hd
  | cons m more =>
    refine FileTree.find_of_missing (FileTree.nul_join hnul hn.toIsPlain)
      ((FileTree.names_join hn.toIsPlain).trans hp) (hstart.symm ▸ hl) (hns m (by simp)) ?_
    exact hnone [m] (by simp) (.inr rfl)

/-! ## Below the root -/

section top

variable {s : Store} {t : FileTree} {place : Place} {name : String}

/-- Before a file of the record is written, its directory is there. -/
theorem Lies.makeParent_top (h : s.Lies t place) (hn : IsPlain name) :
    ∃ u, makeParent (s.root.join name) t = (.ok (), u) ∧ Rooted u s.root place ∧
      ∀ below, below ≠ [] → u.node? (place ++ below) = t.node? (place ++ below) := by
  rcases h.reach with hl | hv
  · exact ⟨t, makeParent_of_rooted hn ⟨h.nul, hl⟩, ⟨h.nul, hl⟩, fun _ _ => rfl⟩
  · obtain ⟨u, hu, hr, hsame⟩ := makeParent_of_vacant hn h.nul hv
    exact ⟨u, hu, hr, fun below hb => hsame _ (not_prefix_of_below hb)⟩

theorem Lies.finds_top (h : s.Lies t place) (hn : IsName name) :
    Finds t (s.root.join name) (place ++ [name]) := by
  rcases h.reach with hl | hv
  · exact (Rooted.points ⟨h.nul, hl⟩ hn).finds
  · rw [Finds, hv.nothing_below (by simp)]
    exact find_of_vacant hn h.nul hv

theorem Lies.of_rooted (h : Rooted t s.root place) : s.Lies t place :=
  ⟨h.nul, .inl h.leads⟩

end top

/-! ## Below the directory of bags -/

/-- The directory of bags is there, or neither it nor anything below. -/
def BagsReady (t : FileTree) (place : Place) : Prop :=
  t.node? (bagsPlace place) = some .directory ∨
    ∀ below, t.node? (bagsPlace place ++ below) = none

section bags

variable {s : Store} {t : FileTree} {place : Place} {name : String}

theorem Lies.bags (h : s.Lies t place) (hb : BagsReady t place) :
    Rooted t s.relationsPath (bagsPlace place) ∨
      Vacant t (t.start s.relationsPath) s.relationsPath.names (bagsPlace place) := by
  have hnames := s.names_relationsPath
  have hstart := s.start_relationsPath t
  rcases h.reach with hl | hv
  · rcases hb with hd | hn
    · exact .inl (Rooted.join ⟨h.nul, hl⟩ isName_bags hd)
    · right
      rw [hnames, hstart]
      refine Vacant.of_leads hl (.absent hl.target ?_ ?_)
      · intro below
        simpa [bagsPlace] using hn below
      · simpa using isName_bags
  · right
    rw [hnames, hstart]
    exact hv.snoc isName_bags

theorem Lies.nul_bags (h : s.Lies t place) : '\x00' ∉ s.relationsPath.chars :=
  FileTree.nul_join h.nul isName_bags.toIsPlain

theorem Lies.finds_bag (h : s.Lies t place) (hb : BagsReady t place) (hn : IsName name) :
    Finds t (s.relationsPath.join name) (bagsPlace place ++ [name]) := by
  rcases h.bags hb with hr | hv
  · exact (hr.points hn).finds
  · rw [Finds, hv.nothing_below (by simp)]
    exact find_of_vacant hn h.nul_bags hv

theorem rooted_of_bags {u : FileTree} (h : Rooted u s.relationsPath (bagsPlace place))
    (hnul : '\x00' ∉ s.root.chars) : Rooted u s.root place := by
  have hnames := s.names_relationsPath
  have hstart := s.start_relationsPath u
  have hl := h.leads
  rw [hnames, hstart] at hl
  obtain ⟨mid, hmid, hlast⟩ := hl.of_append
  refine ⟨hnul, ?_⟩
  cases hlast with
  | into he hrest =>
    rw [FileTree.enter_name hmid.target isName_bags] at he
    cases hrest with
    | here _ =>
      obtain rfl : mid = place := List.append_cancel_right (Except.ok.inj he)
      exact hmid

/-- Before a bag is written, its directory is there; the rest of the record stays. -/
theorem Lies.makeParent_bag (h : s.Lies t place) (hb : BagsReady t place) (hn : IsPlain name) :
    ∃ u, makeParent (s.relationsPath.join name) t = (.ok (), u) ∧
      Rooted u s.relationsPath (bagsPlace place) ∧
      ∀ below, below ≠ [] → below ≠ [bagsName] →
        u.node? (place ++ below) = t.node? (place ++ below) := by
  rcases h.bags hb with hr | hv
  · exact ⟨t, makeParent_of_rooted hn hr, hr, fun _ _ _ => rfl⟩
  · obtain ⟨u, hu, hr, hsame⟩ := makeParent_of_vacant hn h.nul_bags hv
    refine ⟨u, hu, hr, fun below hne hbags => hsame _ fun hp => ?_⟩
    rw [bagsPlace, List.prefix_append_right_inj, List.prefix_cons_iff] at hp
    rcases hp with rfl | ⟨rest, rfl, hrest⟩
    · exact hne rfl
    · exact hbags (by rw [List.prefix_nil.mp hrest])

end bags

end RelayKeeper.Record.Store
