import RelayKeeper.Proofs.RecordWrites
import RelayKeeper.Proofs.TreeContents

/-! # Each consumer has its own file

An id that is not refused names one file, directly in the directory of bags. Requests about the
consumer read and write no other file, and listing gives the ids back. What another consumer is told
stays, unless a missing directory was made on a way that can be walked no further for other
reasons. -/
namespace RelayKeeper

open FileTree (Closed Makes Keeps IsPlain IsName Rooted Vacant Finds Spares)

theorem Path.parents_join {p : Path} {ss : List (List Char)} {c : List Char} {name : String}
    (hp : p.segments = ss ++ [c]) (hc : Path.isComponent ss c) (hn : IsPlain name) :
    (p.join name).parents = p :: p.parents ∧
      (p.join name).components = p.components ++ [name] := by
  have hne := Path.ne_nil_of_isComponent hc
  have hname : Path.isComponent (ss ++ [c]) name.toList := by
    have hnonempty := hn.nonempty
    have hdot : name.toList ≠ ['.'] := fun h => hn.dot (String.toList_injective h)
    simp [Path.isComponent, hnonempty, hdot]
  have hsegments : (p.join name).segments = ss ++ [c] ++ [name.toList] := by
    obtain ⟨front, hjoin, hfront | hfront⟩ := p.segments_join hn.slash
    · rw [hjoin, ← hfront, hp]
    · rw [hp] at hfront
      exact absurd (List.append_inj_right' hfront rfl) (by simpa using hne)
  have htext : (⟨String.ofList (Text.joinWith ['/'] (ss ++ [c]))⟩ : Path) = p := by
    rw [← hp, Path.segments, Text.joinWith_splitAt, Path.chars, String.ofList_toList]
  constructor
  · rw [Path.parents_of_component hsegments hname, Path.parents_of_component hp hc,
      Path.stems_append, Path.stems_singleton, List.nil_append, if_pos hc,
      Path.base_congr (Path.isAbsolute_join p hn.slash)]
    simp [htext]
  · rw [Path.components, Path.components, hsegments, hp, Path.stems_append, Path.stems_singleton,
      List.nil_append, if_pos hname]
    simp

theorem Path.isName_of_mem_names {p : Path} {name : String} (hnul : '\x00' ∉ p.chars)
    (hm : name ∈ p.names) (hdots : name ≠ "..")
    (hshort : name.utf8ByteSize ≤ FileTree.longestName) : IsName name := by
  rw [Path.names, List.mem_filter] at hm
  obtain ⟨hstep, hdot⟩ := hm
  obtain ⟨segment, hsegment, rfl⟩ := List.mem_map.mp hstep
  obtain ⟨hmem, hne⟩ := List.mem_filter.mp hsegment
  have hz : '\x00' ≠ '/' := by decide
  refine ⟨⟨?_, ?_, ?_, by simpa using hdot, hdots⟩, hshort⟩
  · simpa using hne
  · rw [String.toList_ofList]
    exact Text.notMem_of_mem_splitAt hmem
  · rw [String.toList_ofList]
    intro hzero
    exact hnul ((Text.mem_iff_mem_splitAt hz p.chars).mpr ⟨segment, hmem, hzero⟩)

namespace Record

variable {s : Store} {t u : FileTree} {id other name : String} {path r : Path} {place q : Place}

/-! ## The file of a consumer -/

structure Direct (s : Store) (id : String) (path : Path) : Prop where
  named : s.bagPath id = .ok path
  parent : path.parent? = some s.relationsPath
  parents : path.parents = s.relationsPath :: s.relationsPath.parents
  components : path.components = s.relationsPath.components ++ [id ++ ".json"]
  plain : IsPlain (id ++ ".json")

/-- Files of the same name are the same consumer's. -/
theorem Store.id_eq_of_append {a b : Place} (h : a ++ [bagName id] = b ++ [bagName other]) :
    id = other := by
  have hlast := (List.append_inj' h rfl).2
  exact bagName_injective (by simpa using hlast)

theorem Store.direct_bagPath (s : Store) (hs : IsSafeId id) :
    Direct s id (s.relationsPath.join (bagName id)) := by
  have hn := isPlain_bagName hs
  obtain hempty | ⟨before, c, hsegments, hc⟩ := trimmed_join (p := s.root) isName_bags.toIsPlain
  · exact absurd hempty (Path.segments_ne_nil _)
  · obtain ⟨hparents, hcomponents⟩ := Path.parents_join hsegments hc hn
    refine ⟨bagPath_of_safe s hs, ?_, hparents, hcomponents, hn⟩
    rw [Path.parent?]
    exact congrArg List.head? hparents

/-! ## What is read -/

/-- Both outcomes answer alike, and what files hold differs as before, but for the file that the
path leads to. -/
structure Redrawn (f : Place → ByteArray → ByteArray) (path : Path) (x y : Store.Outcome α) :
    Prop where
  reply : y.1 = x.1
  current : y.2.current = x.2.current
  node : ∀ q, y.2.node? q = (x.2.node? q).map (Node.redraw (f q)) ∨
    (∃ node, x.2.find path = .ok (q, node)) ∧ y.2.node? q = x.2.node? q

section redrawn

variable {f : Place → ByteArray → ByteArray}

theorem Redrawn.of_reply (reply : Except StoreError α) (t : FileTree) :
    Redrawn f path (reply, t) (reply, t.redraw f) :=
  ⟨rfl, rfl, fun q => .inl (FileTree.node?_redraw f t q)⟩

namespace Store

theorem makeParent_redraw (p : Path) (t : FileTree) :
    makeParent p (t.redraw f) = ((makeParent p t).1, (makeParent p t).2.redraw f) := by
  rw [makeParent, makeParent]
  cases p.parent? with
  | none => rfl
  | some parent =>
    dsimp only
    rw [FileTree.makeDirectories_redraw]

theorem redrawn_writeJson (hn : IsPlain name) (value : Json) (t : FileTree) :
    Redrawn f (r.join name) (writeJson (r.join name) value t)
      (writeJson (r.join name) value (t.redraw f)) := by
  unfold writeJson
  rw [makeParent_redraw]
  rcases makeParent (r.join name) t with ⟨error | _, made⟩
  · exact .of_reply _ made
  · dsimp only [FileTree.writeText]
    rcases FileTree.write_redraw f made (r.join name) (String.ofList value.pretty).toUTF8 with
      ⟨fault, hw, hw'⟩ | ⟨place, last, mode, hparent, hfree, hw, hw'⟩
    · rw [hw, hw']
      exact .of_reply _ made
    · rw [hw, hw']
      refine ⟨rfl, rfl, fun q => ?_⟩
      by_cases hq : q = place ++ [last]
      · obtain ⟨rfl, hname, hr⟩ := FileTree.rooted_of_findParent hn hparent
        subst hq
        refine .inr ⟨⟨_, find_put_file hr hname hfree _ mode⟩, ?_⟩
        rw [FileTree.node?_put_self (by simp), FileTree.node?_put_self (by simp)]
      · left
        rw [FileTree.node?_put_of_ne (by simp) _ hq, FileTree.node?_put_of_ne (by simp) _ hq,
          FileTree.node?_redraw]

theorem relationData_of_safe (s : Store) (hs : IsSafeId id) (t : FileTree) :
    s.relationData id t =
      (readJson Bag.ofJson? (s.relationsPath.join (bagName id)) t).map (·.getD ∅) := by
  rw [relationData, bagPath_of_safe s hs]
  rfl

theorem readJson_spared (h : Spares f t path) (decode : Json → Option α) :
    readJson decode path (t.redraw f) = readJson decode path t := by
  rw [readJson, readJson, h.readText_eq]

/-- A request about a consumer reads no file but the consumer's. -/
theorem perform_redraw {request : Request} (hid : request.id? = some id) (hs : IsSafeId id)
    (h : Spares f t (s.relationsPath.join (bagName id))) :
    Redrawn f (s.relationsPath.join (bagName id)) (s.perform t request)
      (s.perform (t.redraw f) request) := by
  have hn := isPlain_bagName hs
  have hread := readJson_spared h Bag.ofJson?
  cases request with
  | join other =>
    obtain rfl : other = id := by simpa [Request.id?] using hid
    simp only [perform, joinRelation, bagPath_of_safe s hs, FileTree.contains_redraw]
    by_cases hc : t.contains (s.relationsPath.join (bagName other)) = true
    · rw [if_pos hc, if_pos hc]
      exact .of_reply _ t
    · rw [if_neg hc, if_neg hc]
      exact redrawn_writeJson hn _ t
  | update other data =>
    obtain rfl : other = id := by simpa [Request.id?] using hid
    simp only [perform, updateRelation, bagPath_of_safe s hs, hread]
    cases readJson Bag.ofJson? (s.relationsPath.join (bagName other)) t with
    | error error => exact .of_reply _ t
    | ok bag => exact redrawn_writeJson hn _ t
  | relationData other =>
    obtain rfl : other = id := by simpa [Request.id?] using hid
    have hsame : s.relationData other (t.redraw f) = s.relationData other t := by
      rw [relationData_of_safe s hs, relationData_of_safe s hs, hread]
    simp only [perform, hsame]
    exact .of_reply _ t
  | _ => simp [Request.id?] at hid

end Store

end redrawn

/-! ## What is written -/

namespace Store

/-- A request about a consumer writes the consumer's file, or nothing. -/
theorem perform_writes {request : Request} (hid : request.id? = some id) (hs : IsSafeId id)
    (t : FileTree) : (s.perform t request).2 = t ∨
      ∃ value, (s.perform t request).2 =
        (writeJson (s.relationsPath.join (bagName id)) value t).2 := by
  cases request with
  | join joined =>
    obtain rfl : joined = id := by simpa [Request.id?] using hid
    rcases joinRelation_cases s hs t with heq | heq
    · exact .inl (congrArg Prod.snd heq)
    · exact .inr ⟨_, congrArg Prod.snd heq⟩
  | update updated data =>
    obtain rfl : updated = id := by simpa [Request.id?] using hid
    rcases updateRelation_cases s hs data t with ⟨error, -, heq⟩ | ⟨bag, -, heq⟩
    · exact .inl (congrArg Prod.snd heq)
    · exact .inr ⟨_, congrArg Prod.snd heq⟩
  | relationData read => exact .inl rfl
  | _ => simp [Request.id?] at hid

/-- It makes directories on the way to the file, or puts the file. -/
theorem perform_puts {request : Request} (hid : request.id? = some id) (hs : IsSafeId id)
    (t : FileTree) :
    Makes (s.relationsPath.join (bagName id)).parents t (s.perform t request).2 ∨
      ∃ place, Puts (s.relationsPath.join (bagName id)) t (s.perform t request).2 place := by
  rcases s.perform_writes hid hs t with heq | ⟨value, heq⟩
  · rw [heq]
    exact .inl (.refl _ t)
  · obtain ⟨made, -, hm, ⟨fault, hw⟩ | ⟨place, mode, hname, hr, hfree, hw⟩⟩ :=
      writeJson_cases (r := s.relationsPath) (isPlain_bagName hs) value t
    · rw [heq, hw]
      exact .inl hm
    · rw [heq, hw]
      exact .inr ⟨_, puts_file hm hname hr hfree⟩

end Store

/-- What a request about a consumer may do. -/
structure Confined (s : Store) (t : FileTree) (request : Request) (path : Path) : Prop where
  reads : ∀ f, Spares f t path →
    Redrawn f path (s.perform t request) (s.perform (t.redraw f) request)
  writes : ∀ q, (s.perform t request).2.node? q = t.node? q ∨
    (t.node? q = none ∧ (s.perform t request).2.node? q = some .directory ∧
      ∃ p ∈ path.parents, (s.perform t request).2.find p = .ok (q, .directory)) ∨
    ∃ content mode, (s.perform t request).2.find path = .ok (q, .file content mode)

theorem Store.confined {request : Request} (hid : request.id? = some id) (hs : IsSafeId id)
    (t : FileTree) : Confined s t request (s.relationsPath.join (bagName id)) where
  reads f h := perform_redraw hid hs h
  writes q := by
    rcases s.perform_puts hid hs t with hm | ⟨place, hp⟩
    · rcases hm.node q with heq | ⟨hnone, hd⟩
      · exact .inl heq
      · exact .inr (.inl ⟨hnone, hd, hm.made q hnone hd⟩)
    · by_cases hq : q = place
      · exact .inr (.inr (hq ▸ hp.found))
      · rcases hp.rest q hq with heq | hmade
        · exact .inl heq
        · exact .inr (.inl hmade)

/-! ## What another consumer is told -/

/-- Whatever was there stays, but for files of the name. -/
structure SparesOthers (path : Path) (name : String) (t u : FileTree) : Prop extends Keeps t u where
  start : u = t ∨ t.node? (t.start path) = some .directory
  same : ∀ q node, t.node? q = some node → (∀ b, q ≠ b ++ [name]) → u.node? q = some node

theorem SparesOthers.of_makes (h : Makes path.parents t u) : SparesOthers path name t u where
  current := h.current
  directory _ hd := h.kept hd
  file _ content mode hf := ⟨content, mode, h.kept hf⟩
  start := h.start_parents
  same _ _ hq _ := h.kept hq

theorem SparesOthers.of_puts (hn : IsPlain name) (h : Puts (r.join name) t u place) :
    SparesOthers (r.join name) name t u where
  toKeeps := h.keeps
  start := .inr h.start
  same q node hq hother := by
    obtain ⟨content, mode, hfound⟩ := h.found
    obtain ⟨b, rfl⟩ := FileTree.exists_of_find_join hn hfound
    exact h.kept (hother b) hq

namespace Store

theorem sparesOthers {request : Request} (hid : request.id? = some id) (hs : IsSafeId id)
    (t : FileTree) :
    SparesOthers (s.relationsPath.join (bagName id)) (bagName id) t (s.perform t request).2 := by
  rcases s.perform_puts hid hs t with hm | ⟨place, hp⟩
  · exact .of_makes hm
  · exact .of_puts (isPlain_bagName hs) hp

/-- What is found for another consumer is found as before, and so is what cannot be found, unless it
was missing. -/
theorem find_other {request : Request} (hid : request.id? = some id) (hs : IsSafeId id)
    (ho : IsSafeId other) (hne : other ≠ id)
    (hfind : t.find (s.relationsPath.join (bagName other)) ≠ .error .notFound) :
    (s.perform t request).2.find (s.relationsPath.join (bagName other)) =
      t.find (s.relationsPath.join (bagName other)) := by
  have hspares := s.sparesOthers hid hs t
  have hn := isPlain_bagName ho
  cases hf : t.find (s.relationsPath.join (bagName other)) with
  | ok found =>
    obtain ⟨q, node⟩ := found
    obtain ⟨b, hb⟩ := FileTree.exists_of_find_join hn hf
    have hnode := (FileTree.of_find hf).2.2.1
    have hsame := hspares.same q node hnode fun c heq =>
      hne (id_eq_of_append (hb.symm.trans heq))
    exact FileTree.find_of_directories hspares.current (fun x hx => hspares.directory x hx) hf
      (hnode.trans hsame.symm)
  | error fault =>
    have hfault : fault ≠ .notFound := by
      rintro rfl
      exact hfind hf
    rcases hspares.start with heq | hd
    · rw [heq, hf]
    · refine hspares.toKeeps.find_of_error ?_ (FileTree.endsInSlash_join _ hn) hf hfault
      rw [FileTree.start_join t s.relationsPath hn,
        ← FileTree.start_join t s.relationsPath (isPlain_bagName hs), hd]
      rfl

/-- The directory of bags is there, or would be if the missing directories were made. -/
def Reached (s : Store) (t : FileTree) (place : Place) : Prop :=
  Rooted t s.relationsPath place ∨
    '\x00' ∉ s.relationsPath.chars ∧ Vacant t (t.start s.relationsPath) s.relationsPath.names place

theorem Reached.finds (h : s.Reached t place) (hn : IsName name) :
    Finds t (s.relationsPath.join name) (place ++ [name]) := by
  rcases h with hr | ⟨hnul, hv⟩
  · exact (hr.points hn).finds
  · rw [Finds, hv.nothing_below (by simp)]
    exact find_of_vacant hn hnul hv

theorem Reached.makeParent (h : s.Reached t place) (hn : IsPlain name) :
    Rooted (makeParent (s.relationsPath.join name) t).2 s.relationsPath place ∧
      ∀ below, below ≠ [] → (makeParent (s.relationsPath.join name) t).2.node? (place ++ below) =
        t.node? (place ++ below) := by
  rcases h with hr | ⟨hnul, hv⟩
  · rw [makeParent_of_rooted hn hr]
    exact ⟨hr, fun _ _ => rfl⟩
  · obtain ⟨u, hu, hr, hsame⟩ := makeParent_of_vacant hn hnul hv
    rw [hu]
    exact ⟨hr, fun below hb => hsame _ (not_prefix_of_below hb)⟩

/-- Writing a consumer's file leaves the other files of the directory. -/
theorem Reached.find_writeJson (h : s.Reached t place) (hs : IsSafeId id) (ho : IsSafeId other)
    (hf : FitsName other) (hne : other ≠ id) (value : Json) :
    (writeJson (s.relationsPath.join (bagName id)) value t).2.find
        (s.relationsPath.join (bagName other)) = t.find (s.relationsPath.join (bagName other)) := by
  have hname := isName_bagName ho hf
  have hbefore := h.finds hname
  obtain ⟨hr, hsame⟩ := h.makeParent (isPlain_bagName hs)
  obtain ⟨made, hmade, -, ⟨fault, hw⟩ | ⟨b, mode, -, -, hfree, hw⟩⟩ :=
    writeJson_cases (r := s.relationsPath) (isPlain_bagName hs) value t
  · rw [hmade] at hr hsame
    rw [hw, (hr.points hname).finds, hsame [bagName other] (by simp), ← hbefore]
  · rw [hmade] at hr hsame
    have hplace : place ++ [bagName other] ≠ b ++ [bagName id] := by
      intro heq
      exact hne (id_eq_of_append heq)
    have hafter : Rooted (made.put (b ++ [bagName id]) (.file (written value) mode))
        s.relationsPath place := rooted_put_file hr (by simp) hfree
    rw [hw, (hafter.points hname).finds, FileTree.node?_put_of_ne (by simp) _ hplace,
      hsame [bagName other] (by simp), ← hbefore]

theorem relationData_congr (h : u.find (s.relationsPath.join (bagName id)) =
    t.find (s.relationsPath.join (bagName id))) (hs : IsSafeId id) :
    s.relationData id u = s.relationData id t := by
  have hread : u.readText (s.relationsPath.join (bagName id)) =
      t.readText (s.relationsPath.join (bagName id)) := by
    rw [FileTree.readText, FileTree.readText, FileTree.read, FileTree.read, h]
  rw [relationData_of_safe s hs, relationData_of_safe s hs, readJson, readJson, hread]

theorem relationData_of_missing (hs : IsSafeId id)
    (h : t.find (s.relationsPath.join (bagName id)) = .error .notFound) :
    s.relationData id t = .ok ∅ := by
  rw [relationData_of_safe s hs, readJson, FileTree.readText_of_missing h]
  rfl

theorem relationData_of_error {fault : Fault} (hs : IsSafeId id)
    (h : t.find (s.relationsPath.join (bagName id)) = .error fault) (hf : fault ≠ .notFound) :
    s.relationData id t = .error (.io (s.relationsPath.join (bagName id)) fault) := by
  rw [relationData_of_safe s hs, readJson, FileTree.readText_of_missing h]
  cases fault with
  | notFound => exact absurd rfl hf
  | _ => rfl

theorem Reached.find_perform {request : Request} (h : s.Reached t place)
    (hid : request.id? = some id) (hs : IsSafeId id) (ho : IsSafeId other) (hf : FitsName other)
    (hne : other ≠ id) : (s.perform t request).2.find (s.relationsPath.join (bagName other)) =
      t.find (s.relationsPath.join (bagName other)) := by
  rcases s.perform_writes hid hs t with heq | ⟨value, heq⟩
  · rw [heq]
  · rw [heq]
    exact h.find_writeJson hs ho hf hne value

theorem reached_of_directory (hs : IsSafeId id) (hdirectory : t.isDirectory s.relationsPath = true)
    (hmissing : t.find (s.relationsPath.join (bagName id)) = .error .notFound) :
    FitsName id ∧ ∃ place, s.Reached t place := by
  obtain ⟨place, hfind⟩ := FileTree.isDirectory_iff.mp hdirectory
  have hr := FileTree.rooted_of_find hfind
  refine ⟨?_, place, .inl hr⟩
  by_contra hlong
  rw [hr.find_long (isPlain_bagName hs) (Nat.not_le.mp hlong)] at hmissing
  cases hmissing

theorem reached_of_closed (hs : IsSafeId id) (hclosed : Closed t)
    (hroot : ∀ name ∈ s.root.names, name ≠ ".." ∧ name.utf8ByteSize ≤ FileTree.longestName)
    (hmissing : t.find (s.relationsPath.join (bagName id)) = .error .notFound) :
    ∃ place, s.Reached t place := by
  have hn := isPlain_bagName hs
  have hnul := FileTree.nul_of_join hn (FileTree.nul_of_missing hmissing)
  have hnames : ∀ n ∈ s.relationsPath.names, IsName n := by
    intro n hmem
    rw [names_relationsPath, List.mem_append, List.mem_singleton] at hmem
    rcases hmem with hmem | rfl
    · have hrootnul := FileTree.nul_of_join isName_bags.toIsPlain hnul
      exact Path.isName_of_mem_names hrootnul hmem (hroot n hmem).1 (hroot n hmem).2
    · exact isName_bags
  -- A file on the way, or nothing to start from, is another fault than that something is missing.
  have hway : t.walk (t.start s.relationsPath)
      (FileTree.stepsOf s.relationsPath ++ [bagName id]) ≠ .error .notDirectory := by
    intro hw
    rw [FileTree.find_join_of_error hn hnul hw] at hmissing
    cases hmissing
  have hstart : t.node? (t.start s.relationsPath) = some .directory := by
    by_contra hstart
    exact hway (FileTree.walk_of_not_directory hstart (by simp))
  rcases hclosed.reach hstart hnames with ⟨place, hl⟩ | ⟨place, hv⟩ | hblocked
  · exact ⟨place, .inl ⟨hnul, hl⟩⟩
  · exact ⟨place, .inr ⟨hnul, hv⟩⟩
  · exact absurd (hblocked _) hway

/-- Directories are missing on the way to the consumer's file, and the way leads elsewhere, or no
further, when they have been made. -/
structure Unsettled (s : Store) (t : FileTree) (id : String) : Prop where
  missing : ∀ path, s.bagPath id = .ok path → t.find path = .error .notFound
  absent : t.isDirectory s.relationsPath = false
  bent : Closed t → ¬ FitsName id ∨
    ∃ name ∈ s.root.names, name = ".." ∨ FileTree.longestName < name.utf8ByteSize

theorem relationData_other {request : Request} (hid : request.id? = some id) (hs : IsSafeId id)
    (ho : IsSafeId other) (hne : other ≠ id) :
    s.relationData other (s.perform t request).2 = s.relationData other t ∨
      (s.perform t request).2 ≠ t ∧ s.Unsettled t other := by
  by_cases hsame : (s.perform t request).2.find (s.relationsPath.join (bagName other)) =
      t.find (s.relationsPath.join (bagName other))
  · exact .inl (relationData_congr hsame ho)
  -- Only what was missing can be found otherwise, and then it is not for the file itself, which
  -- no request about another consumer makes, but for a directory on the way.
  have hmissing : t.find (s.relationsPath.join (bagName other)) = .error .notFound := by
    by_contra hfound
    exact hsame (s.find_other hid hs ho hne hfound)
  refine .inr ⟨?_, ?_, ?_, ?_⟩
  · intro heq
    exact hsame (by rw [heq])
  · intro path hpath
    obtain rfl := Except.ok.inj ((bagPath_of_safe s ho).symm.trans hpath)
    exact hmissing
  · by_contra hdirectory
    obtain ⟨hfits, place, hreached⟩ :=
      reached_of_directory ho (Bool.not_eq_false _ ▸ hdirectory) hmissing
    exact hsame (hreached.find_perform hid hs ho hfits hne)
  · intro hclosed
    by_contra hstraight
    simp only [not_or, not_not, not_exists, not_and, Nat.not_lt] at hstraight
    obtain ⟨place, hreached⟩ := reached_of_closed ho hclosed hstraight.2 hmissing
    exact hsame (hreached.find_perform hid hs ho hstraight.1 hne)

/-! ## Listing -/

theorem chars_relationsPath (s : Store) : s.relationsPath.chars ≠ [] := by
  intro hempty
  have hnames := s.names_relationsPath
  simp [Path.names, FileTree.stepsOf, Path.segments, hempty, Text.splitAt] at hnames

/-- What is listed are the ids whose files are in the directory of bags, each once. -/
theorem relations_of_directory (hdirectory : t.find s.relationsPath = .ok (place, .directory)) :
    ∃ ids, s.relations t = .ok ids ∧ ids.Nodup ∧
      ∀ id, id ∈ ids ↔ id ≠ "" ∧ (t.node? (place ++ [bagName id])).isSome := by
  obtain ⟨names, hlist, hnodup, hmem⟩ := FileTree.list_of_directory hdirectory
  refine ⟨idsOfNames names, ?_, nodup_idsOfNames hnodup, fun id => ?_⟩
  · rw [relations, hlist]
  · rw [mem_idsOfNames, hmem]

/-- A consumer whose file is there is listed once. -/
theorem listed_once (s : Store) (hs : IsSafeId id)
    (hfile : t.contains (s.relationsPath.join (bagName id)) = true) :
    ∃ ids place, s.relations t = .ok ids ∧ ids.count id = 1 ∧
      t.find s.relationsPath = .ok (place, .directory) ∧
      ∀ other, other ∈ ids ↔ other ≠ "" ∧ (t.node? (place ++ [other ++ ".json"])).isSome := by
  unfold FileTree.contains at hfile
  cases hfind : t.find (s.relationsPath.join (bagName id)) with
  | error fault =>
    rw [hfind] at hfile
    cases hfile
  | ok found =>
    obtain ⟨q, node⟩ := found
    obtain ⟨place, hdirectory, -, rfl⟩ :=
      FileTree.directory_of_find_join (isPlain_bagName hs) s.chars_relationsPath hfind
    obtain ⟨ids, hids, hnodup, hmem⟩ := relations_of_directory hdirectory
    have hlisted : id ∈ ids := by
      refine (hmem id).mpr ⟨hs.1, ?_⟩
      rw [(FileTree.of_find hfind).2.2.1]
      rfl
    exact ⟨ids, place, hids, List.count_eq_one_of_mem hnodup hlisted, hdirectory, hmem⟩

theorem of_bagPath (h : s.bagPath id = .ok path) :
    IsSafeId id ∧ path = s.relationsPath.join (bagName id) := by
  by_cases hs : IsSafeId id
  · rw [bagPath_of_safe s hs] at h
    exact ⟨hs, (Except.ok.inj h).symm⟩
  · rw [bagPath_of_not_safe s hs] at h
    cases h

/-- An id is refused before anything is read or written, or requests about the consumer stay in one
file directly in the directory of bags, which no other consumer has. What another consumer is told
stays, unless missing directories were made on a way that is bent or too long; and a consumer whose
file is there is listed once. -/
theorem consumer_files_apart (s : Store) (t : FileTree) :
    (∀ request id, request.id? = some id → ¬ IsSafeId id →
      s.perform t request = (.error (.invalidId id), t)) ∧
    (∀ id, IsSafeId id → ∃ path, Direct s id path ∧
      ∀ request, request.id? = some id → Confined s t request path) ∧
    (∀ id other path path', s.bagPath id = .ok path → s.bagPath other = .ok path' → other ≠ id →
      path' ≠ path ∧ ∀ q node q' node', t.find path = .ok (q, node) →
        t.find path' = .ok (q', node') → q' ≠ q) ∧
    (∀ request id other, request.id? = some id → IsSafeId id → IsSafeId other → other ≠ id →
      s.relationData other (s.perform t request).2 = s.relationData other t ∨
        (s.perform t request).2 ≠ t ∧ s.Unsettled t other) ∧
    ∀ id path, s.bagPath id = .ok path → t.contains path = true →
      ∃ ids place, s.relations t = .ok ids ∧ ids.count id = 1 ∧
        t.find s.relationsPath = .ok (place, .directory) ∧
        ∀ other, other ∈ ids ↔ other ≠ "" ∧ (t.node? (place ++ [other ++ ".json"])).isSome := by
  refine ⟨?_, ?_, ?_, ?_, ?_⟩
  · intro request id hid hs
    exact s.perform_unsafe t hid hs
  · intro id hs
    exact ⟨_, s.direct_bagPath hs, fun request hid => confined hid hs t⟩
  · intro id other path path' hpath hpath' hne
    obtain ⟨hs, rfl⟩ := of_bagPath hpath
    obtain ⟨ho, rfl⟩ := of_bagPath hpath'
    constructor
    · intro heq
      have hcomponents := (s.direct_bagPath ho).components
      rw [heq, (s.direct_bagPath hs).components] at hcomponents
      exact hne (id_eq_of_append hcomponents).symm
    · rintro q node _ node' hfind hfind' rfl
      obtain ⟨b, hb⟩ := FileTree.exists_of_find_join (isPlain_bagName hs) hfind
      obtain ⟨c, hc⟩ := FileTree.exists_of_find_join (isPlain_bagName ho) hfind'
      exact hne (id_eq_of_append (hc.symm.trans hb))
  · intro request id other hid hs ho hne
    exact relationData_other hid hs ho hne
  · intro id path hpath hfile
    obtain ⟨hs, rfl⟩ := of_bagPath hpath
    exact s.listed_once hs hfile

def oneBag : FileTree where
  nodes := .ofList
    [(["relations"], Node.directory),
      (["relations", "api.json"],
        Node.file (written (Bag.toJson (.ofList [("host", "here")]))) 0o644)]
  current := []

theorem consumer_files_apart_api :
    (IsSafeId "api" ∧ ¬ IsSafeId "../api" ∧ oneBag.contains ⟨"/relations/api.json"⟩ = true) ∧
      perform ⟨⟨"/"⟩⟩ oneBag (.join "../api") = (.error (.invalidId "../api"), oneBag) ∧
      (∃ path, Direct ⟨⟨"/"⟩⟩ "api" path ∧ Confined ⟨⟨"/"⟩⟩ oneBag (.join "api") path) ∧
      ∃ ids, relations ⟨⟨"/"⟩⟩ oneBag = .ok ids ∧ ids.count "api" = 1 := by
  have hsafe : IsSafeId "api" := by decide
  have hrefused : ¬ IsSafeId "../api" := by decide
  have hfile : oneBag.contains ⟨"/relations/api.json"⟩ = true := rfl
  obtain ⟨hrefuses, hconfined, -, -, hlisted⟩ := consumer_files_apart ⟨⟨"/"⟩⟩ oneBag
  obtain ⟨path, hdirect, hstays⟩ := hconfined "api" hsafe
  obtain ⟨ids, -, hids, hcount, -⟩ := hlisted "api" ⟨"/relations/api.json"⟩ rfl hfile
  exact ⟨⟨hsafe, hrefused, hfile⟩, hrefuses (.join "../api") _ rfl hrefused,
    ⟨path, hdirect, hstays (.join "api") rfl⟩, ids, hids, hcount⟩

/-- An id that is not refused, whose file name is one byte too long. -/
def longId : String := String.ofList (List.replicate 251 'a')

theorem not_fitsName_longId : ¬ FitsName longId := by
  decide +kernel

theorem isSafeId_longId : IsSafeId longId := by
  have hmem : ∀ c ∈ longId.toList, c = 'a' := by
    intro c hc
    have hchars : longId.toList = List.replicate 251 'a' := String.toList_ofList
    rw [hchars] at hc
    exact List.eq_of_mem_replicate hc
  refine ⟨by decide +kernel, ?_, ?_, ?_, ?_⟩
  · exact fun h => absurd (hmem _ h) (by decide)
  · exact fun h => absurd (hmem _ h) (by decide)
  · exact fun h => absurd (hmem _ h) (by decide)
  · exact fun h => absurd (hmem '.' (h.subset List.mem_cons_self)) (by decide)

/-- The directory that is made for one consumer makes another's file name too long, where the file
had only been missing. -/
theorem relationData_of_longId :
    IsSafeId longId ∧ IsSafeId "web" ∧ longId ≠ "web" ∧
      relationData ⟨⟨"/state"⟩⟩ longId .empty = .ok ∅ ∧
      (perform ⟨⟨"/state"⟩⟩ .empty (.join "web")).1 = .ok () ∧
      relationData ⟨⟨"/state"⟩⟩ longId (perform ⟨⟨"/state"⟩⟩ .empty (.join "web")).2 =
        .error (.io ((relationsPath ⟨⟨"/state"⟩⟩).join (bagName longId)) .nameTooLong) := by
  have hn := isPlain_bagName isSafeId_longId
  have hfits : (Request.join "web").Fits := by decide
  have hweb : FitsName "web" := by decide
  obtain ⟨place, hshows⟩ := fresh_empty.shows_empty
  obtain ⟨u, hu, hafter⟩ := hshows.perform_eq hfits
  refine ⟨isSafeId_longId, by decide, ?_, ?_, ?_, ?_⟩
  · intro heq
    exact not_fitsName_longId (heq ▸ hweb)
  · refine relationData_of_missing isSafeId_longId ?_
    have hnames : ((relationsPath ⟨⟨"/state"⟩⟩).join (bagName longId)).names =
        [] ++ "state" :: ["relations", bagName longId] := by
      rw [FileTree.names_join hn, names_relationsPath]
      rfl
    have hstart :
        FileTree.empty.start ((relationsPath ⟨⟨"/state"⟩⟩).join (bagName longId)) = [] := by
      rw [FileTree.start_join _ _ hn]
      rfl
    have hnul := FileTree.nul_join hshows.lies.nul_bags hn
    refine FileTree.find_of_missing (b := []) hnul hnames ?_ (by decide) rfl
    rw [hstart]
    exact .here (FileTree.node?_nil _)
  · rw [hu]
    rfl
  · have hlisted : "web" ∈ (Ledger.empty.perform (.join "web")).2.bags := by
      have hsafe : IsSafeId "web" := by decide
      simp [Ledger.perform, hsafe]
    have hr := Holds.rooted_bags ⟨hafter.lies, hafter.bags⟩ hlisted
    rw [hu]
    exact relationData_of_error isSafeId_longId
      (hr.find_long hn (Nat.not_le.mp not_fitsName_longId)) (by decide)

/-- What another consumer is told does not stay if its file name is too long, nor if the state
directory is a step back from a missing one. -/
theorem relationData_moved :
    (IsSafeId "web" ∧ IsSafeId longId ∧ longId ≠ "web" ∧
      relationData ⟨⟨"/state"⟩⟩ longId (perform ⟨⟨"/state"⟩⟩ .empty (.join "web")).2 ≠
        relationData ⟨⟨"/state"⟩⟩ longId .empty) ∧
    (IsSafeId "api" ∧
      relationData ⟨⟨"/spare/.."⟩⟩ "api" (perform ⟨⟨"/spare/.."⟩⟩ oneBag (.join "web")).2 ≠
        relationData ⟨⟨"/spare/.."⟩⟩ "api" oneBag) := by
  obtain ⟨hlong, hweb, hne, hbefore, -, hafter⟩ := relationData_of_longId
  constructor
  · refine ⟨hweb, hlong, hne, ?_⟩
    rw [hbefore, hafter]
    rintro ⟨⟩
  · have hmissing : relationData ⟨⟨"/spare/.."⟩⟩ "api" oneBag = .ok ∅ := rfl
    have hfound : relationData ⟨⟨"/spare/.."⟩⟩ "api"
        (perform ⟨⟨"/spare/.."⟩⟩ oneBag (.join "web")).2 =
          .ok (.ofList [("host", "here")]) := rfl
    refine ⟨by decide, ?_⟩
    rw [hfound, hmissing]
    intro heq
    have hhost : (some "here" : Option String) = none :=
      congrArg (fun bag : Bag => bag["host"]?) (Except.ok.inj heq)
    cases hhost

end Store

end Record

end RelayKeeper
