import RelayKeeper.Proofs.ConsumerFiles
import RelayKeeper.Proofs.HandingOut

/-! # Publishing in any tree

Whatever the files are, every consumer whose file holds a bag is told, everything else stays as it
is, and each consumer that is listed and not told is logged once. Telling the same again changes
nothing. -/
namespace RelayKeeper

namespace FileTree

theorem Points.write_of_file {t : FileTree} {p : Path} {place : Place} {name : String}
    {old : ByteArray} {mode : Nat} (h : Points t p place name)
    (hnode : t.node? (place ++ [name]) = some (.file old mode)) (content : ByteArray) :
    t.write p content = .ok (t.put (place ++ [name]) (.file content mode)) := by
  unfold write
  rw [h.findParent_eq]
  simp only [bind, Except.bind, h.slash, Bool.false_eq_true, if_false, hnode]

theorem put_self {t : FileTree} {q : Place} {node : Node} (hq : q ≠ [])
    (h : t.node? q = some node) : t.put q node = t := by
  have hget : t.nodes[q]? = some node := by simpa [node?, hq] using h
  have hnodes : t.nodes.insert q node = t.nodes := by
    apply Std.ExtTreeMap.ext_getElem?
    intro r
    by_cases hr : compare q r = .eq
    · obtain rfl := Std.LawfulEqOrd.compare_eq_iff_eq.mp hr
      simp [hget]
    · simp [Std.ExtTreeMap.getElem?_insert, hr]
  unfold put
  rw [hnodes]

structure SameDirectories (t u : FileTree) : Prop where
  current : u.current = t.current
  directory : ∀ q, u.node? q = some .directory ↔ t.node? q = some .directory

namespace SameDirectories

variable {t u v : FileTree} {p : Path} {q : Place}

theorem refl (t : FileTree) : SameDirectories t t :=
  ⟨rfl, fun _ => Iff.rfl⟩

theorem trans (h : SameDirectories t u) (k : SameDirectories u v) : SameDirectories t v :=
  ⟨k.current.trans h.current, fun q => (k.directory q).trans (h.directory q)⟩

theorem put_file {old content : ByteArray} {mode mode' : Nat} (hq : q ≠ [])
    (h : t.node? q = some (.file old mode)) :
    SameDirectories t (t.put q (.file content mode')) where
  current := rfl
  directory r := by
    by_cases hr : r = q
    · subst hr
      rw [node?_put_self hq, h]
      simp
    · rw [node?_put_of_ne hq _ hr]

theorem find_iff (h : SameDirectories t u) :
    u.find p = .ok (q, .directory) ↔ t.find p = .ok (q, .directory) := by
  constructor
  · intro hu
    have hd := (of_find hu).2.2.1
    refine find_of_directories h.current.symm (fun r hr => (h.directory r).mp hr) hu ?_
    rw [hd, (h.directory q).mp hd]
  · intro ht
    have hd := (of_find ht).2.2.1
    refine find_of_directories h.current (fun r hr => (h.directory r).mpr hr) ht ?_
    rw [hd, (h.directory q).mpr hd]

end SameDirectories

end FileTree

namespace Record

open FileTree (IsPlain IsName SameDirectories)

variable {s : Store} {t u : FileTree} {id other : String} {place q : Place} {mode : Nat}
  {bag data : Bag} {content : ByteArray}

/-! ## Files that hold bags -/

/-- The text of an object of strings; of a repeated name the last value counts. -/
def HoldsBag (content : ByteArray) (bag : Bag) : Prop :=
  ∃ text entries, String.fromUTF8? content = some text ∧
    Json.parse? text.toList =
      some (.record (entries.map fun (name, value) => (name, .text value))) ∧
    bag = .ofList entries

theorem eq_map_of_mapM {f : α → Option β} {g : β → α} (hf : ∀ a b, f a = some b → a = g b)
    {list : List α} {out : List β} (h : list.mapM f = some out) : list = out.map g := by
  induction list generalizing out with
  | nil =>
    obtain rfl : [] = out := by simpa using h
    rfl
  | cons a list ih =>
    rw [List.mapM_cons] at h
    obtain ⟨b, hb, rest, hrest, rfl⟩ : ∃ b, f a = some b ∧ ∃ rest, list.mapM f = some rest ∧
        b :: rest = out := by simpa [Option.bind_eq_some_iff] using h
    rw [List.map_cons, ← hf a b hb, ← ih hrest]

theorem Bag.ofJson_eq_some_iff {json : Json} :
    Bag.ofJson? json = some bag ↔
      ∃ entries : List (String × String),
        json = .record (entries.map fun (name, value) => (name, .text value)) ∧
        bag = .ofList entries := by
  constructor
  · intro h
    cases json with
    | object members =>
      obtain ⟨entries, hentries, hbag⟩ : ∃ entries,
          members.mapM (fun (member : Option String × Json) => do
            some (← member.1, ← member.2.text?)) = some entries ∧ .ofList entries = bag := by
        simpa [Bag.ofJson?, Option.bind_eq_some_iff] using h
      refine ⟨entries, ?_, hbag.symm⟩
      have hmembers : members = entries.map fun entry => (some entry.1, Json.text entry.2) := by
        refine eq_map_of_mapM (fun ⟨name, value⟩ entry hmember => ?_) hentries
        cases name with
        | none => cases hmember
        | some name =>
          cases value with
          | string text =>
            cases text with
            | none => cases hmember
            | some text =>
              cases hmember
              rfl
          | _ => cases hmember
      rw [hmembers, Json.record, List.map_map]
      rfl
    | _ => cases h
  · rintro ⟨entries, rfl, rfl⟩
    unfold Bag.ofJson? Json.record
    dsimp only
    rw [List.map_map, mapM_map_eq_some (k := id), List.map_id]
    · rfl
    · intro entry
      rfl

theorem holdsBag_iff : HoldsBag content bag ↔ ∃ text, String.fromUTF8? content = some text ∧
    (Json.parse? text.toList).bind Bag.ofJson? = some bag := by
  simp only [Option.bind_eq_some_iff, Bag.ofJson_eq_some_iff, HoldsBag]
  constructor
  · rintro ⟨text, entries, htext, hparse, rfl⟩
    exact ⟨text, htext, _, hparse, entries, rfl, rfl⟩
  · rintro ⟨text, htext, _, hparse, entries, rfl, rfl⟩
    exact ⟨text, entries, htext, hparse, rfl⟩

theorem holdsBag_written (bag : Bag) : HoldsBag (written bag.toJson) bag :=
  holdsBag_iff.mpr ⟨_, fromUTF8_toUTF8 _, Bag.readsBack.parse bag⟩

theorem HoldsBag.unique {bag' : Bag} (h : HoldsBag content bag) (h' : HoldsBag content bag') :
    bag = bag' := by
  obtain ⟨text, htext, hbag⟩ := holdsBag_iff.mp h
  obtain ⟨text', htext', hbag'⟩ := holdsBag_iff.mp h'
  obtain rfl := Option.some.inj (htext.symm.trans htext')
  exact Option.some.inj (hbag.symm.trans hbag')

theorem Bag.overlay_overlay (bag data : Bag) :
    (bag.overlay data).overlay data = bag.overlay data := by
  apply Std.ExtTreeMap.ext_getElem?
  intro name
  rw [Bag.getElem?_overlay, Bag.getElem?_overlay]
  cases data[name]? <;> rfl

/-! ## Reading bags -/

theorem readJson_of_bag {path : Path} (hfind : t.find path = .ok (q, .file content mode))
    (h : HoldsBag content bag) : Store.readJson Bag.ofJson? path t = .ok (some bag) := by
  obtain ⟨text, htext, hbag⟩ := holdsBag_iff.mp h
  rw [Store.readJson, FileTree.readText_of_file hfind htext]
  simp only [hbag]

theorem of_readJson_bag {path : Path} (h : Store.readJson Bag.ofJson? path t = .ok (some bag)) :
    ∃ q content mode, t.find path = .ok (q, .file content mode) ∧ HoldsBag content bag := by
  unfold Store.readJson at h
  split at h
  · next text hread =>
    obtain ⟨q, content, mode, hfind, htext⟩ := FileTree.of_readText hread
    split at h
    · next value hvalue =>
      obtain rfl : value = bag := Option.some.inj (Except.ok.inj h)
      exact ⟨q, content, mode, hfind, holdsBag_iff.mpr ⟨text, htext, hvalue⟩⟩
    · cases h
  · cases h
  · cases h

theorem missing_of_readJson {path : Path} (h : Store.readJson Bag.ofJson? path t = .ok none) :
    t.find path = .error .notFound := by
  cases hfind : t.find path with
  | error fault =>
    rw [Store.readJson, FileTree.readText_of_missing hfind] at h
    cases fault with
    | notFound => rfl
    | _ => cases h
  | ok found =>
    obtain ⟨q, node⟩ := found
    unfold Store.readJson at h
    cases node with
    | directory =>
      rw [FileTree.readText_of_directory hfind] at h
      cases h
    | file content mode =>
      cases htext : String.fromUTF8? content with
      | none =>
        rw [FileTree.readText_of_invalid hfind htext] at h
        cases h
      | some text =>
        rw [FileTree.readText_of_file hfind htext] at h
        dsimp only at h
        split at h <;> cases h

namespace Store

/-! ## Telling one consumer -/

structure Tellable (s : Store) (t : FileTree) (id : String) (place : Place) (mode : Nat)
    (bag : Bag) : Prop where
  safe : IsSafeId id
  file : ∃ content, t.find (s.relationsPath.join (bagName id)) = .ok (place, .file content mode) ∧
    HoldsBag content bag

theorem writeJson_of_write {path : Path} {value : Json} {v : FileTree}
    (hm : makeParent path t = (.ok (), u)) (hw : u.write path (written value) = .ok v) :
    writeJson path value t = (.ok (), v) := by
  have hw' : u.writeText path (String.ofList value.pretty) = .ok v := hw
  simp only [writeJson, hm, hw']

/-- The file is told by what stands in the directory of bags. -/
theorem tellable_iff : Tellable s t id q mode bag ↔ IsSafeId id ∧ IsName (bagName id) ∧
    ∃ place content, t.find s.relationsPath = .ok (place, .directory) ∧
      q = place ++ [bagName id] ∧ t.node? q = some (.file content mode) ∧ HoldsBag content bag := by
  constructor
  · rintro ⟨hs, content, hfind, hbag⟩
    obtain ⟨place, hdirectory, hname, hq⟩ :=
      FileTree.directory_of_find_join (isPlain_bagName hs) s.chars_relationsPath hfind
    exact ⟨hs, hname, place, content, hdirectory, hq, (FileTree.of_find hfind).2.2.1, hbag⟩
  · rintro ⟨hs, hname, place, content, hdirectory, rfl, hnode, hbag⟩
    have hr := FileTree.rooted_of_find hdirectory
    refine ⟨hs, content, ?_, hbag⟩
    rw [(hr.points hname).finds, hnode]

theorem Tellable.unique {place' : Place} {mode' : Nat} {bag' : Bag}
    (h : Tellable s t id place mode bag) (h' : Tellable s t id place' mode' bag') :
    place' = place ∧ mode' = mode ∧ bag' = bag := by
  obtain ⟨content, hfind, hbag⟩ := h.file
  obtain ⟨content', hfind', hbag'⟩ := h'.file
  cases hfind.symm.trans hfind'
  exact ⟨rfl, rfl, hbag'.unique hbag⟩

theorem Tellable.id_eq {mode' : Nat} {bag' : Bag} (h : Tellable s t id place mode bag)
    (h' : Tellable s u other place mode' bag') : id = other := by
  obtain ⟨-, -, b, _, -, hb, -⟩ := tellable_iff.mp h
  obtain ⟨-, -, c, _, -, hc, -⟩ := tellable_iff.mp h'
  exact id_eq_of_append (hb.symm.trans hc)

theorem tellable_congr (h : SameDirectories t u)
    (hnode : ∀ place, t.find s.relationsPath = .ok (place, .directory) →
      u.node? (place ++ [bagName id]) = t.node? (place ++ [bagName id])) :
    Tellable s u id q mode bag ↔ Tellable s t id q mode bag := by
  rw [tellable_iff, tellable_iff]
  constructor
  · rintro ⟨hs, hname, place, content, hdirectory, rfl, hfile, hbag⟩
    rw [h.find_iff] at hdirectory
    rw [hnode place hdirectory] at hfile
    exact ⟨hs, hname, place, content, hdirectory, rfl, hfile, hbag⟩
  · rintro ⟨hs, hname, place, content, hdirectory, rfl, hfile, hbag⟩
    rw [← hnode place hdirectory] at hfile
    exact ⟨hs, hname, place, content, h.find_iff.mpr hdirectory, rfl, hfile, hbag⟩

theorem Tellable.updateRelation_eq (h : Tellable s t id q mode bag) (data : Bag) :
    s.updateRelation id data t =
      (.ok (), t.put q (.file (written (bag.overlay data).toJson) mode)) := by
  obtain ⟨content, hfind, hbag⟩ := h.file
  have hn := isPlain_bagName h.safe
  obtain ⟨place, hdirectory, hname, rfl⟩ :=
    FileTree.directory_of_find_join hn s.chars_relationsPath hfind
  have hr := FileTree.rooted_of_find hdirectory
  have hnode := (FileTree.of_find hfind).2.2.1
  have hwrite := (hr.points hname).write_of_file hnode (written (bag.overlay data).toJson)
  have hread := readJson_of_bag hfind hbag
  unfold updateRelation
  rw [bagPath_of_safe s h.safe]
  simp only [hread, Option.getD_some]
  exact writeJson_of_write (makeParent_of_rooted hn hr) hwrite

def Listed (s : Store) (t : FileTree) (id : String) : Prop :=
  id ≠ "" ∧ ∃ place, t.find s.relationsPath = .ok (place, .directory) ∧
    (t.node? (place ++ [bagName id])).isSome

theorem Tellable.listed (h : Tellable s t id q mode bag) : Listed s t id := by
  obtain ⟨hs, -, place, content, hdirectory, rfl, hnode, -⟩ := tellable_iff.mp h
  refine ⟨hs.1, place, hdirectory, ?_⟩
  rw [hnode]
  rfl

theorem Listed.found (h : Listed s t id) (hs : IsSafeId id) :
    t.find (s.relationsPath.join (bagName id)) ≠ .error .notFound := by
  obtain ⟨-, place, hdirectory, hsome⟩ := h
  have hr := FileTree.rooted_of_find hdirectory
  by_cases hf : FitsName id
  · rw [(hr.points (isName_bagName hs hf)).finds]
    obtain ⟨node, hnode⟩ := Option.isSome_iff_exists.mp hsome
    rw [hnode]
    simp
  · rw [hr.find_long (isPlain_bagName hs) (Nat.not_le.mp hf)]
    simp

/-- A consumer that is listed and cannot be told is left as it is. -/
theorem Listed.updateRelation_eq (h : Listed s t id)
    (hno : ∀ place mode bag, ¬ Tellable s t id place mode bag) (data : Bag) :
    ∃ error, s.updateRelation id data t = (.error error, t) := by
  by_cases hs : IsSafeId id
  · rcases updateRelation_cases s hs data t with ⟨error, -, heq⟩ | ⟨bag?, hread, -⟩
    · exact ⟨error, heq⟩
    · cases bag? with
      | none => exact absurd (missing_of_readJson hread) (h.found hs)
      | some bag =>
        obtain ⟨q, content, mode, hfind, hbag⟩ := of_readJson_bag hread
        exact absurd ⟨hs, content, hfind, hbag⟩ (hno q mode bag)
  · refine ⟨.invalidId id, ?_⟩
    unfold updateRelation
    rw [bagPath_of_not_safe s hs]

theorem Tellable.listed_put {content : ByteArray} (h : Tellable s t id q mode bag)
    (hl : Listed s t other) : Listed s (t.put q (.file content mode)) other := by
  obtain ⟨-, -, b, old, -, hq, hnode, -⟩ := tellable_iff.mp h
  obtain ⟨hne, place, hdirectory, hsome⟩ := hl
  have hne' : q ≠ [] := by simp [hq]
  refine ⟨hne, place, (SameDirectories.put_file hne' hnode).find_iff.mpr hdirectory, ?_⟩
  rw [FileTree.node?_put hne']
  split
  · rfl
  · exact hsome

theorem mem_relations {ids : List String} (h : s.relations t = .ok ids) :
    ids.Nodup ∧ ∀ id, id ∈ ids ↔ Listed s t id := by
  cases hfind : t.find s.relationsPath with
  | ok found =>
    obtain ⟨place, node⟩ := found
    cases node with
    | directory =>
      obtain ⟨listed, hlisted, hnodup, hmem⟩ := relations_of_directory hfind
      obtain rfl := Except.ok.inj (hlisted.symm.trans h)
      refine ⟨hnodup, fun id => (hmem id).trans ?_⟩
      constructor
      · rintro ⟨hne, hsome⟩
        exact ⟨hne, place, hfind, hsome⟩
      · rintro ⟨hne, place', hdirectory, hsome⟩
        cases hfind.symm.trans hdirectory
        exact ⟨hne, hsome⟩
    | file content mode =>
      rw [relations, FileTree.list, hfind] at h
      cases h
  | error fault =>
    rw [relations, FileTree.list, hfind] at h
    cases fault with
    | notFound =>
      obtain rfl := Except.ok.inj h
      refine ⟨List.nodup_nil, fun id => ?_⟩
      constructor
      · intro hm
        cases hm
      · rintro ⟨-, place, hdirectory, -⟩
        cases hfind.symm.trans hdirectory
    | _ => cases h

/-- What other consumers have stays when one is told. -/
theorem Tellable.tellable_other {content : ByteArray} {mode' : Nat} {bag' : Bag}
    (h : Tellable s t id q mode bag) (hne : other ≠ id) :
    Tellable s (t.put q (.file content mode)) other place mode' bag' ↔
      Tellable s t other place mode' bag' := by
  obtain ⟨-, -, b, old, hdirectory, rfl, hnode, -⟩ := tellable_iff.mp h
  refine tellable_congr (.put_file (by simp) hnode) fun c _ => ?_
  refine FileTree.node?_put_of_ne (by simp) _ fun heq => ?_
  exact hne (id_eq_of_append heq)

end Store

end Record

/-! ## Telling them all -/

namespace Relay

open Record (Store Profile Bag HoldsBag written)
open Record.Store (Tellable Listed bagName)

variable {ε : Type} {s : Store} {t u : FileTree} {data : Bag} {before after : Session FileTree}
  {id : String} {ids told : List String}

def asked (s : Store) (call : Record.Call) (before : Session FileTree) : Session FileTree :=
  { before with
    world := (s.answer call before.world).world
    trace := before.trace ++ [.record call (s.answer call before.world).reply]
    log := before.log ++ (s.answer call before.world).remarks }

theorem run_record (call : Record.Call) (before : Session FileTree) :
    (Hook.record s.site call : Hook FileTree ε call.Reply) before =
      (.ok (s.answer call before.world).reply, asked s call before) := rfl

theorem answer_updateRelation (id : String) (data : Bag) (t : FileTree) :
    s.answer (.updateRelation id data) t =
      ⟨(s.updateRelation id data t).1, (s.updateRelation id data t).2, []⟩ := rfl

theorem log_asked_updateRelation (id : String) (data : Bag) (before : Session FileTree) :
    (asked s (.updateRelation id data) before).log = before.log :=
  List.append_nil _

theorem run_updateAll_of_ok (ids : List String)
    (h : (s.updateRelation id data before.world).1 = .ok ()) {n : Nat}
    (hrest : (updateAll s.site data ids : Hook FileTree ε Nat)
      (asked s (.updateRelation id data) before) = (.ok n, after)) :
    (updateAll s.site data (id :: ids) : Hook FileTree ε Nat) before = (.ok (n + 1), after) := by
  rw [updateAll, Hook.run_bind, run_record, answer_updateRelation, h]
  dsimp only
  rw [Hook.run_bind, hrest]
  rfl

theorem run_updateAll_of_error (ids : List String) {error : Record.StoreError}
    (h : (s.updateRelation id data before.world).1 = .error error) {n : Nat}
    (hrest : (updateAll s.site data ids : Hook FileTree ε Nat)
      { asked s (.updateRelation id data) before with log := before.log ++ [notTold id] } =
        (.ok n, after)) :
    (updateAll s.site data (id :: ids) : Hook FileTree ε Nat) before = (.ok n, after) := by
  rw [updateAll, Hook.run_bind, run_record, answer_updateRelation, h]
  dsimp only
  rw [Hook.run_bind, Hook.logAll, log_asked_updateRelation]
  exact hrest

/-- Of the consumers `ids`, those whose files held bags have been told, and nothing else has
changed. -/
structure Tells (s : Store) (data : Bag) (t u : FileTree) (ids told : List String) : Prop where
  sub : told.Sublist ids
  mem : ∀ id ∈ ids, id ∈ told ↔ ∃ place mode bag, Tellable s t id place mode bag
  directories : FileTree.SameDirectories t u
  files : ∀ id ∈ ids, ∀ place mode bag, Tellable s t id place mode bag →
    u.node? place = some (.file (written (bag.overlay data).toJson) mode)
  rest : ∀ place, (∀ id ∈ ids, ∀ mode bag, ¬ Tellable s t id place mode bag) →
    u.node? place = t.node? place
  /-- Bags that hold what is told already are written as they are. -/
  settled : (∀ id ∈ ids, ∀ place mode bag, Tellable s t id place mode bag →
    t.node? place = some (.file (written (bag.overlay data).toJson) mode)) → u = t

theorem Tells.nil (s : Store) (data : Bag) (t : FileTree) : Tells s data t t [] [] :=
  ⟨.slnil, by simp, .refl _, by simp, fun _ _ => rfl, fun _ => rfl⟩

/-- If a consumer cannot be told, the rest goes on as if it were not there. -/
theorem Tells.skip (h : Tells s data t u ids told) (hnew : id ∉ ids)
    (hno : ∀ place mode bag, ¬ Tellable s t id place mode bag) :
    Tells s data t u (id :: ids) told where
  sub := h.sub.cons id
  mem other hm := by
    rcases List.mem_cons.mp hm with rfl | hm
    · constructor
      · intro htold
        exact absurd (h.sub.subset htold) hnew
      · rintro ⟨place, mode, bag, htellable⟩
        exact absurd htellable (hno place mode bag)
    · exact h.mem other hm
  directories := h.directories
  files other hm place mode bag htellable := by
    rcases List.mem_cons.mp hm with rfl | hm
    · exact absurd htellable (hno place mode bag)
    · exact h.files other hm place mode bag htellable
  rest place hother := h.rest place fun other hm => hother other (List.mem_cons_of_mem _ hm)
  settled hsame := h.settled fun other hm => hsame other (List.mem_cons_of_mem _ hm)

/-- If a consumer is told, the rest goes on with the others as they were. -/
theorem Tells.cons {place : Place} {mode : Nat} {bag : Bag}
    (htellable : Tellable s t id place mode bag)
    (h : Tells s data (t.put place (.file (written (bag.overlay data).toJson) mode)) u ids told)
    (hnew : id ∉ ids) : Tells s data t u (id :: ids) (id :: told) := by
  -- Distinct ids have distinct files, so the others can be told as before.
  have hother : ∀ other ∈ ids, ∀ q mode' bag',
      Tellable s (t.put place (.file (written (bag.overlay data).toJson) mode)) other q mode' bag' ↔
        Tellable s t other q mode' bag' := by
    intro other hm q mode' bag'
    exact htellable.tellable_other fun heq => hnew (heq ▸ hm)
  obtain ⟨-, -, b, content, -, hplace, hnode, -⟩ := Store.tellable_iff.mp htellable
  have hne : place ≠ [] := by simp [hplace]
  refine ⟨h.sub.cons_cons id, ?_, .trans (.put_file hne hnode) h.directories, ?_, ?_, ?_⟩
  · intro other hm
    rcases List.mem_cons.mp hm with rfl | hm
    · exact ⟨fun _ => ⟨place, mode, bag, htellable⟩, fun _ => List.mem_cons_self⟩
    · have hne' : other ≠ id := fun heq => hnew (heq ▸ hm)
      simp only [List.mem_cons, hne', false_or, h.mem other hm, hother other hm]
  · intro other hm q mode' bag' hq
    rcases List.mem_cons.mp hm with rfl | hm
    · obtain ⟨rfl, rfl, rfl⟩ := htellable.unique hq
      rw [h.rest q fun other' hm mode' bag' hq => hnew (htellable.id_eq hq ▸ hm)]
      exact FileTree.node?_put_self hne _
    · exact h.files other hm q mode' bag' ((hother other hm q mode' bag').mpr hq)
  · intro q hno
    rw [h.rest q fun other hm mode' bag' hq =>
      hno other (List.mem_cons_of_mem _ hm) mode' bag' ((hother other hm q mode' bag').mp hq)]
    refine FileTree.node?_put_of_ne hne _ fun heq => ?_
    exact hno id List.mem_cons_self mode bag (heq ▸ htellable)
  · intro hsame
    have hput : t.put place (.file (written (bag.overlay data).toJson) mode) = t :=
      FileTree.put_self hne (hsame id List.mem_cons_self place mode bag htellable)
    rw [hput] at h
    exact h.settled fun other hm => hsame other (List.mem_cons_of_mem _ hm)

theorem filter_cons_told (hnew : id ∉ ids) :
    (id :: ids).filter (· ∉ id :: told) = ids.filter (· ∉ told) := by
  rw [List.filter_cons_of_neg (by simp)]
  refine List.filter_congr fun other hm => ?_
  have hne : other ≠ id := fun heq => hnew (heq ▸ hm)
  simp [hne]

/-- All that can be told are told, and for each of the others an error is logged that names it. -/
theorem run_updateAll (data : Bag) (before : Session FileTree) (hnodup : ids.Nodup)
    (hlisted : ∀ id ∈ ids, Listed s before.world id) :
    ∃ told after,
      (updateAll s.site data ids : Hook FileTree ε Nat) before = (.ok told.length, after) ∧
      Tells s data before.world after.world ids told ∧
      after.log = before.log ++ (ids.filter (· ∉ told)).map notTold := by
  induction ids generalizing before with
  | nil => exact ⟨[], before, rfl, .nil s data before.world, (List.append_nil _).symm⟩
  | cons id ids ih =>
    obtain ⟨hnew, hnodup⟩ := List.nodup_cons.mp hnodup
    have hself := hlisted id List.mem_cons_self
    have hothers := fun other hm => hlisted other (List.mem_cons_of_mem id hm)
    by_cases htellable : ∃ place mode bag, Tellable s before.world id place mode bag
    -- The rest is told in the tree where this file is written, or in the tree as it is.
    · obtain ⟨place, mode, bag, htellable⟩ := htellable
      have hupdate := htellable.updateRelation_eq data
      have hworld : (asked s (.updateRelation id data) before).world =
          before.world.put place (.file (written (bag.overlay data).toJson) mode) :=
        congrArg Prod.snd hupdate
      have hstay : ∀ other ∈ ids,
          Listed s (asked s (.updateRelation id data) before).world other := by
        intro other hm
        rw [hworld]
        exact htellable.listed_put (hothers other hm)
      obtain ⟨told, after, hrun, htells, hlog⟩ := ih _ hnodup hstay
      rw [hworld] at htells
      refine ⟨id :: told, after, run_updateAll_of_ok ids (congrArg Prod.fst hupdate) hrun,
        htells.cons htellable hnew, ?_⟩
      rw [hlog, log_asked_updateRelation, filter_cons_told hnew]
    · have hno : ∀ place mode bag, ¬ Tellable s before.world id place mode bag :=
        fun place mode bag h => htellable ⟨place, mode, bag, h⟩
      obtain ⟨error, hupdate⟩ := hself.updateRelation_eq hno data
      have hworld : (asked s (.updateRelation id data) before).world = before.world :=
        congrArg Prod.snd hupdate
      obtain ⟨told, after, hrun, htells, hlog⟩ := ih { asked s (.updateRelation id data) before with
        log := before.log ++ [notTold id] } hnodup (hworld.symm ▸ hothers)
      have hid : id ∉ told := fun htold => hnew (htells.sub.subset htold)
      refine ⟨told, after, run_updateAll_of_error ids (congrArg Prod.fst hupdate) hrun, ?_, ?_⟩
      · rw [← hworld] at hno ⊢
        exact htells.skip hnew hno
      · rw [hlog, List.filter_cons_of_pos (by simpa using hid), List.map_cons, List.append_assoc,
          List.singleton_append]

/-! ## Publishing -/

def notListed : Log.Entry :=
  ⟨.error, publishComponent, "Failed to list consumers, not publishing", none⟩

/-- Every consumer whose file held a bag has been told, and nothing else has changed. -/
structure Published (s : Store) (data : Bag) (t u : FileTree) (told : List String) : Prop where
  nodup : told.Nodup
  mem : ∀ id, id ∈ told ↔ ∃ place mode bag, Tellable s t id place mode bag
  directories : FileTree.SameDirectories t u
  files : ∀ id place mode bag, Tellable s t id place mode bag →
    u.node? place = some (.file (written (bag.overlay data).toJson) mode)
  rest : ∀ place, (∀ id mode bag, ¬ Tellable s t id place mode bag) → u.node? place = t.node? place
  settled : (∀ id place mode bag, Tellable s t id place mode bag →
    t.node? place = some (.file (written (bag.overlay data).toJson) mode)) → u = t

theorem Tells.published (h : Tells s data t u ids told) (hids : s.relations t = .ok ids) :
    Published s data t u told := by
  obtain ⟨hnodup, hmem⟩ := Store.mem_relations hids
  have hlisted : ∀ id place mode bag, Tellable s t id place mode bag → id ∈ ids :=
    fun id place mode bag htellable => (hmem id).mpr htellable.listed
  refine ⟨h.sub.nodup hnodup, ?_, h.directories, ?_, ?_, ?_⟩
  · intro id
    constructor
    · intro htold
      exact (h.mem id (h.sub.subset htold)).mp htold
    · rintro ⟨place, mode, bag, htellable⟩
      exact (h.mem id (hlisted id place mode bag htellable)).mpr ⟨place, mode, bag, htellable⟩
  · intro id place mode bag htellable
    exact h.files id (hlisted id place mode bag htellable) place mode bag htellable
  · intro place hno
    exact h.rest place fun id _ => hno id
  · intro hsame
    exact h.settled fun id _ => hsame id

/-- Where the consumers cannot be listed, none has a file. -/
theorem published_of_error {error : Record.StoreError} (h : s.relations t = .error error) :
    Published s data t t [] := by
  have hno : ∀ id place mode bag, ¬ Tellable s t id place mode bag := by
    intro id place mode bag htellable
    obtain ⟨-, directory, hdirectory, -⟩ := htellable.listed
    obtain ⟨ids, hids, -⟩ := Store.relations_of_directory hdirectory
    cases h.symm.trans hids
  refine ⟨List.nodup_nil, ?_, .refl _, ?_, fun _ _ => rfl, fun _ => rfl⟩
  · intro id
    constructor
    · intro hm
      cases hm
    · rintro ⟨place, mode, bag, htellable⟩
      exact absurd htellable (hno id place mode bag)
  · intro id place mode bag htellable
    exact absurd htellable (hno id place mode bag)

/-- One error for each consumer that is listed and not told, or one if they cannot be listed. -/
def errorsOf (listed : Except Record.StoreError (List String)) (told : List String) :
    List Log.Entry :=
  match listed with
  | .ok ids => (ids.filter (· ∉ told)).map notTold
  | .error _ => [notListed]

theorem filter_notTold (ids : List String) :
    (ids.map notTold).filter (·.level = .error) = ids.map notTold := by
  refine List.filter_eq_self.mpr fun entry hm => ?_
  obtain ⟨-, -, rfl⟩ := List.mem_map.mp hm
  rfl

theorem run_publish (profile : Profile) (before : Session FileTree) :
    ∃ told after entries,
      (publish s.site profile : Hook FileTree ε Nat) before = (.ok told.length, after) ∧
        Published s profile.bag before.world after.world told ∧
        after.log = before.log ++ entries ∧
        entries.filter (·.level = .error) = errorsOf (s.relations before.world) told := by
  have hrecord : (Hook.record s.site .relations : Hook FileTree ε _) before =
      (.ok (s.relations before.world), asked s .relations before) := rfl
  have hlog : (asked s .relations before).log = before.log := List.append_nil _
  unfold publish
  rw [Hook.run_bind, hrecord]
  cases hids : s.relations before.world with
  | error error =>
    refine ⟨[], _, [notListed], rfl, published_of_error hids, ?_, rfl⟩
    exact congrArg (· ++ [notListed]) hlog
  | ok ids =>
    obtain ⟨hnodup, hmem⟩ := Store.mem_relations hids
    cases ids with
    | nil =>
      refine ⟨[], _, [⟨.warn, publishComponent, "No consumers to publish connection details to",
        none⟩], rfl, (Tells.nil s profile.bag before.world).published hids, ?_, rfl⟩
      exact congrArg (· ++ _) hlog
    | cons id ids =>
      obtain ⟨told, after, hrun, htells, hafter⟩ := run_updateAll (ε := ε) profile.bag
        (asked s .relations before) hnodup fun other hm => (hmem other).mp hm
      rw [hlog] at hafter
      dsimp only
      rw [Hook.run_bind, hrun]
      refine ⟨told, _, ((id :: ids).filter (· ∉ told)).map notTold ++
        [⟨.info, publishComponent, "Published connection details", none⟩], rfl,
        htells.published hids, ?_, ?_⟩
      · rw [← List.append_assoc, ← hafter]
      · rw [List.filter_append, filter_notTold]
        exact List.append_nil _

/-! ## Publishing again -/

/-- What has been told is found again as it was told. -/
theorem Published.tellable_iff {place : Place} {mode : Nat} {new : Bag}
    (h : Published s data t u told) : Tellable s u id place mode new ↔
      ∃ bag, Tellable s t id place mode bag ∧ new = bag.overlay data := by
  constructor
  · intro hu
    obtain ⟨hs, hname, b, content, hdirectory, hplace, hnode, hbag⟩ := Store.tellable_iff.mp hu
    by_cases ht : ∃ mode bag, Tellable s t id place mode bag
    · obtain ⟨mode', bag, ht⟩ := ht
      have hfile := h.files id place mode' bag ht
      rw [hnode] at hfile
      obtain ⟨rfl, rfl⟩ := Node.file.inj (Option.some.inj hfile)
      exact ⟨bag, ht, hbag.unique (Record.holdsBag_written _)⟩
    -- What was not told is as it was, so it could not have been told before either.
    · have hkept := h.rest place fun other mode' bag' hother =>
        ht ⟨mode', bag', hother.id_eq hu ▸ hother⟩
      rw [hkept] at hnode
      rw [h.directories.find_iff] at hdirectory
      exact absurd ⟨mode, new, Store.tellable_iff.mpr
        ⟨hs, hname, b, content, hdirectory, hplace, hnode, hbag⟩⟩ ht
  · rintro ⟨bag, ht, rfl⟩
    obtain ⟨hs, hname, b, content, hdirectory, rfl, hnode, hbag⟩ := Store.tellable_iff.mp ht
    exact Store.tellable_iff.mpr ⟨hs, hname, b, _, h.directories.find_iff.mpr hdirectory, rfl,
      h.files id _ mode bag ht, Record.holdsBag_written _⟩

/-- The entries of the profile are in the new bag, with every other entry of the old one. -/
structure Carries (profile : Profile) (old new : Bag) : Prop where
  entries : [new["host"]?, new["port"]?, new["rsa_fingerprint"]?, new["ed25519_fingerprint"]?] =
    [profile.host, toString profile.port, profile.rsa, profile.ed25519].map some
  rest : ∀ name, name ∉ ["host", "port", "rsa_fingerprint", "ed25519_fingerprint"] →
    new[name]? = old[name]?

theorem carries_overlay (profile : Profile) (bag : Bag) :
    Carries profile bag (bag.overlay profile.bag) := by
  constructor
  · have hfour := profile.getElem_bag
    simp only [List.map_cons, List.cons.injEq] at hfour
    obtain ⟨hhost, hport, hrsa, hed25519, -⟩ := hfour
    simp only [Bag.getElem?_overlay, hhost, hport, hrsa, hed25519]
    rfl
  · intro name hname
    have hnone : profile.bag[name]? = none := by
      apply Std.ExtTreeMap.getElem?_eq_none
      rwa [Record.Profile.mem_bag]
    rw [Bag.getElem?_overlay, hnone, Option.none_or]

/-- In any tree publishing succeeds: it counts and tells the consumers whose files hold a bag,
changes nothing else, and logs one error for each other consumer that is listed, which names it.
Doing so again gives the same count and changes nothing. -/
theorem publish_any_tree (s : Store) (profile : Profile) (before : Session FileTree) :
    ∃ told after entries,
      (publish s.site profile : Hook FileTree ε Nat) before = (.ok told.length, after) ∧
      Published s profile.bag before.world after.world told ∧
      (∀ bag, Carries profile bag (bag.overlay profile.bag)) ∧
      after.log = before.log ++ entries ∧
      entries.filter (·.level = .error) = errorsOf (s.relations before.world) told ∧
      ∀ later : Session FileTree, later.world = after.world → ∃ again,
        (publish s.site profile : Hook FileTree ε Nat) later = (.ok told.length, again) ∧
        again.world = after.world := by
  obtain ⟨told, after, entries, hrun, hpublished, hlog, herrors⟩ :=
    run_publish (s := s) (ε := ε) profile before
  refine ⟨told, after, entries, hrun, hpublished, carries_overlay profile, hlog, herrors, ?_⟩
  intro later hlater
  obtain ⟨told', again, _, hagain, hpublished', -⟩ := run_publish (s := s) (ε := ε) profile later
  rw [hlater] at hpublished'
  have hperm : told'.Perm told := by
    refine (List.perm_ext_iff_of_nodup hpublished'.nodup hpublished.nodup).mpr fun id => ?_
    rw [hpublished'.mem, hpublished.mem]
    constructor
    · rintro ⟨place, mode, new, hnew⟩
      obtain ⟨bag, hbag, -⟩ := hpublished.tellable_iff.mp hnew
      exact ⟨place, mode, bag, hbag⟩
    · rintro ⟨place, mode, bag, hbag⟩
      exact ⟨place, mode, _, hpublished.tellable_iff.mpr ⟨bag, hbag, rfl⟩⟩
  -- Every bag that is told again has the entries already, so it is written as it is.
  refine ⟨again, hperm.length_eq ▸ hagain, hpublished'.settled ?_⟩
  intro id place mode new hnew
  obtain ⟨bag, hbag, rfl⟩ := hpublished.tellable_iff.mp hnew
  rw [Bag.overlay_overlay]
  exact hpublished.files id place mode bag hbag

def mixedFiles : FileTree where
  nodes := .ofList
    [(["relations"], Node.directory),
      (["relations", "api.json"], Node.file (written (Bag.toJson (.ofList [("path", "/")]))) 0o600),
      (["relations", "old.json"], Node.file "?".toUTF8 0o644),
      (["relations", "web.json"], Node.directory),
      (["relations", "notes.txt"], Node.file "?".toUTF8 0o644)]
  current := []

theorem publish_any_tree_mixed :
    Tellable ⟨⟨"/"⟩⟩ mixedFiles "api" ["relations", "api.json"] 0o600 (.ofList [("path", "/")]) ∧
      (∀ place mode bag, ¬ Tellable ⟨⟨"/"⟩⟩ mixedFiles "old" place mode bag) ∧
      ∃ (told : List String) (after : Session FileTree),
        (publish (Store.site ⟨⟨"/"⟩⟩) ⟨"here", 22, "r", "e"⟩ : Hook FileTree Empty Nat)
          { world := mixedFiles } = (.ok told.length, after) ∧
        "api" ∈ told ∧ "old" ∉ told ∧
        after.world.node? ["relations", "api.json"] = some (.file (written
          (Bag.toJson (Bag.overlay (.ofList [("path", "/")]) (Profile.bag ⟨"here", 22, "r", "e"⟩))))
          0o600) := by
  have hapi : Tellable ⟨⟨"/"⟩⟩ mixedFiles "api" ["relations", "api.json"] 0o600
      (.ofList [("path", "/")]) :=
    ⟨by decide, _, rfl, Record.holdsBag_written _⟩
  have hold : ∀ place mode bag, ¬ Tellable ⟨⟨"/"⟩⟩ mixedFiles "old" place mode bag := by
    rintro place mode bag ⟨-, content, hfind, hbag⟩
    cases hfind
    obtain ⟨text, htext, hparse⟩ := Record.holdsBag_iff.mp hbag
    cases htext
    cases hparse
  obtain ⟨told, after, _, hrun, hpublished, -⟩ :=
    publish_any_tree (ε := Empty) ⟨⟨"/"⟩⟩ ⟨"here", 22, "r", "e"⟩ { world := mixedFiles }
  refine ⟨hapi, hold, told, after, hrun, (hpublished.mem "api").mpr ⟨_, _, _, hapi⟩, ?_, ?_⟩
  · intro htold
    obtain ⟨place, mode, bag, htellable⟩ := (hpublished.mem "old").mp htold
    exact hold place mode bag htellable
  · exact hpublished.files "api" _ _ _ hapi

end Relay

end RelayKeeper
