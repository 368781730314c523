import RelayKeeper.Proofs.BagKeeping
import RelayKeeper.Proofs.Registration
import RelayKeeper.Proofs.TreeReach

/-! # What a request writes

A request names at most one file. In any tree it changes no file if it fails, and at most the file
that it names if it succeeds; besides, directories that are missing on the way to the file may be
made. -/
namespace RelayKeeper

namespace FileTree

variable {path p : Path} {t u : FileTree}

theorem start_of_mem_parents (hp : p ∈ path.parents) (t : FileTree) : t.start p = t.start path :=
  start_congr rfl (Path.of_mem_parents hp).1

/-- Nothing is made on a way that starts nowhere. -/
theorem Makes.start_parents (h : Makes path.parents t u) :
    u = t ∨ t.node? (t.start path) = some .directory := by
  rcases h.start with heq | ⟨p, hp, hd⟩
  · exact .inl heq
  · rw [start_of_mem_parents hp] at hd
    exact .inr hd

end FileTree

namespace Record

open FileTree (Closed Grows Keeps Makes IsPlain IsName Rooted)

variable {path : Path} {t u made : FileTree} {place : Place}

/-- Only the file at the place, where the path leads, has changed. -/
structure Puts (path : Path) (t u : FileTree) (place : Place) : Prop where
  current : u.current = t.current
  start : t.node? (t.start path) = some .directory
  found : ∃ content mode, u.find path = .ok (place, .file content mode)
  /-- What the path led to before is what has changed. -/
  before : ∀ q node, t.find path = .ok (q, node) → q = place
  free : t.node? place ≠ some .directory
  /-- Anywhere else only directories on the way are new. -/
  rest : ∀ q, q ≠ place → u.node? q = t.node? q ∨
    t.node? q = none ∧ u.node? q = some .directory ∧
      ∃ p ∈ path.parents, u.find p = .ok (q, .directory)

theorem Puts.kept {q : Place} {node : Node} (h : Puts path t u place) (hne : q ≠ place)
    (hq : t.node? q = some node) : u.node? q = some node := by
  rcases h.rest q hne with heq | ⟨hnone, -⟩
  · exact heq.trans hq
  · rw [hq] at hnone
    cases hnone

theorem Puts.keeps (h : Puts path t u place) : Keeps t u where
  current := h.current
  directory q hd := by
    have hne : q ≠ place := by
      rintro rfl
      exact h.free hd
    exact h.kept hne hd
  file q content mode hf := by
    by_cases hq : q = place
    · obtain ⟨after, mode, hfound⟩ := h.found
      exact ⟨after, mode, hq ▸ (FileTree.of_find hfound).2.2.1⟩
    · exact ⟨content, mode, h.kept hq hf⟩

namespace Store

variable {s : Store} {r : Path} {name : String}

/-! ## Writing a file -/

/-- The directory of a file is made on the way there, and only the file is blamed if it is not. -/
theorem makeParent_cases (hn : IsPlain name) (t : FileTree) :
    ∃ made, Makes (r.join name).parents t made ∧
      (makeParent (r.join name) t = (.ok (), made) ∨
        ∃ fault, makeParent (r.join name) t = (.error (.io (r.join name) fault), made)) := by
  obtain ⟨q, hq⟩ := exists_holder_join r hn
  have hparent : (r.join name).parent? = some q := by
    rw [Path.parent?, hq.parents]
    rfl
  refine ⟨(t.makeDirectories q).2, ?_, ?_⟩
  · rw [hq.parents]
    exact FileTree.makes_makeChain t (q :: q.parents)
  · rw [makeParent, hparent]
    dsimp only
    rcases t.makeDirectories q with ⟨fault | _, made⟩
    · exact .inr ⟨fault, rfl⟩
    · exact .inl rfl

/-- Writing fails after directories were made, or puts the file where its path leads then. -/
theorem writeJson_cases (hn : IsPlain name) (value : Json) (t : FileTree) :
    ∃ made, (makeParent (r.join name) t).2 = made ∧ Makes (r.join name).parents t made ∧
      ((∃ fault, writeJson (r.join name) value t = (.error (.io (r.join name) fault), made)) ∨
        ∃ place mode, IsName name ∧ Rooted made r place ∧
          made.node? (place ++ [name]) ≠ some .directory ∧
          writeJson (r.join name) value t =
            (.ok (), made.put (place ++ [name]) (.file (written value) mode))) := by
  obtain ⟨made, hmakes, hm | ⟨fault, hm⟩⟩ := makeParent_cases hn t
  · refine ⟨made, congrArg Prod.snd hm, hmakes, ?_⟩
    unfold writeJson
    rw [hm]
    dsimp only [FileTree.writeText]
    cases hw : made.write (r.join name) (String.ofList value.pretty).toUTF8 with
    | error fault => exact .inl ⟨fault, rfl⟩
    | ok after =>
      obtain ⟨place, last, mode, hparent, hfree, rfl⟩ := FileTree.of_write hw
      obtain ⟨rfl, hname, hr⟩ := FileTree.rooted_of_findParent hn hparent
      exact .inr ⟨place, mode, hname, hr, hfree, rfl⟩
  · refine ⟨made, congrArg Prod.snd hm, hmakes, .inl ⟨fault, ?_⟩⟩
    unfold writeJson
    rw [hm]

theorem find_put_file (hr : Rooted made r place) (hn : IsName name)
    (hfree : made.node? (place ++ [name]) ≠ some .directory) (content : ByteArray) (mode : Nat) :
    (made.put (place ++ [name]) (.file content mode)).find (r.join name) =
      .ok (place ++ [name], .file content mode) := by
  have hafter : Rooted (made.put (place ++ [name]) (.file content mode)) r place :=
    rooted_put_file hr (by simp) hfree
  rw [(hafter.points hn).finds, FileTree.node?_put_self (by simp)]

theorem puts_file {content : ByteArray} {mode : Nat} (hm : Makes (r.join name).parents t made)
    (hn : IsName name) (hr : Rooted made r place)
    (hfree : made.node? (place ++ [name]) ≠ some .directory) :
    Puts (r.join name) t (made.put (place ++ [name]) (.file content mode)) (place ++ [name]) where
  current := hm.current
  start := by
    rcases hm.start_parents with rfl | hd
    · rw [FileTree.start_join made r hn.toIsPlain]
      exact hr.leads.start
    · exact hd
  found := ⟨content, mode, find_put_file hr hn hfree content mode⟩
  before q node hfind := by
    -- What was found is found where the directories have been made, and that is the place.
    have hnode := (FileTree.of_find hfind).2.2.1
    have hmade := FileTree.find_of_directories hm.current (fun _ hd => hm.directory hd) hfind
      (hnode.trans (hm.kept hnode).symm)
    have hfinds := (hr.points hn).finds
    rw [FileTree.Finds, hmade] at hfinds
    split at hfinds <;> cases hfinds
    rfl
  free hd := hfree (hm.directory hd)
  rest q hq := by
    rw [FileTree.node?_put_of_ne (by simp) _ hq]
    rcases hm.node q with heq | ⟨hnone, hd⟩
    · exact .inl heq
    · obtain ⟨p, hp, hfind⟩ := hm.made q hnone hd
      have hstay : ∀ x, made.node? x = some .directory →
          (made.put (place ++ [name]) (.file content mode)).node? x = some .directory :=
        fun _ hx => directory_put_file (by simp) hfree hx
      have hcurrent :
          (made.put (place ++ [name]) (.file content mode)).current = made.current := rfl
      refine .inr ⟨hnone, hd, p, hp, FileTree.find_of_directories hcurrent hstay hfind ?_⟩
      rw [FileTree.node?_put_of_ne (by simp) _ hq]

end Store

/-! ## Requests -/

/-- The request fails without a change to any file, or changes at most the file that it names. -/
structure Atomic (path? : Option Path) (t : FileTree) (outcome : Store.Outcome α) : Prop where
  error : ∀ error, outcome.1 = .error error → outcome.2 = t ∨
    ∃ path fault, path? = some path ∧ error = .io path fault ∧ Makes path.parents t outcome.2 ∧
      (Closed t → ∀ q below, t.node? q = none → outcome.2.node? (q ++ below) = none ∨
        outcome.2.node? (q ++ below) = some .directory)
  ok : ∀ value, outcome.1 = .ok value → outcome.2 = t ∨
    ∃ path place, path? = some path ∧ Puts path t outcome.2 place

def Request.path? (s : Store) : Request → Option Path
  | .setStatus _ | .status => some s.statusPath
  | .openPort _ | .openedPorts => some s.portsPath
  | .join id | .update id _ | .relationData id => (s.bagPath id).toOption
  | .relations => none

theorem Atomic.of_read {path? : Option Path} (reply : Except StoreError α) (t : FileTree) :
    Atomic path? t (reply, t) :=
  ⟨fun _ _ => .inl rfl, fun _ _ => .inl rfl⟩

namespace Store

variable {s : Store} {r : Path} {name id : String}

theorem path_of_safe (s : Store) {request : Request} (hid : request.id? = some id)
    (hs : IsSafeId id) : request.path? s = some (s.relationsPath.join (bagName id)) := by
  have hpath := congrArg Except.toOption (bagPath_of_safe s hs)
  cases request with
  | join other | update other data | relationData other =>
    obtain rfl : other = id := by simpa [Request.id?] using hid
    exact hpath
  | _ => simp [Request.id?] at hid

theorem atomic_writeJson (hn : IsPlain name) (value : Json) (t : FileTree) :
    Atomic (some (r.join name)) t (writeJson (r.join name) value t) := by
  obtain ⟨made, -, hm, ⟨fault, hw⟩ | ⟨place, mode, hname, hr, hfree, hw⟩⟩ :=
    writeJson_cases (r := r) hn value t
  · rw [hw]
    constructor
    · intro error heq
      cases heq
      exact .inr ⟨_, fault, rfl, rfl, hm, fun ht q below hq => hm.below_new ht hq below⟩
    · intro value heq
      cases heq
  · rw [hw]
    constructor
    · intro error heq
      cases heq
    · intro value _
      exact .inr ⟨_, _, rfl, puts_file hm hname hr hfree⟩

theorem joinRelation_cases (s : Store) (hs : IsSafeId id) (t : FileTree) :
    s.joinRelation id t = (.ok (), t) ∨
      s.joinRelation id t = writeJson (s.relationsPath.join (bagName id)) (Bag.toJson ∅) t := by
  unfold joinRelation
  rw [bagPath_of_safe s hs]
  dsimp only
  by_cases hc : t.contains (s.relationsPath.join (bagName id)) = true
  · exact .inl (if_pos hc)
  · exact .inr (if_neg hc)

/-- A bag that cannot be read is not written. -/
theorem updateRelation_cases (s : Store) (hs : IsSafeId id) (data : Bag) (t : FileTree) :
    (∃ error, readJson Bag.ofJson? (s.relationsPath.join (bagName id)) t = .error error ∧
      s.updateRelation id data t = (.error error, t)) ∨
    ∃ bag, readJson Bag.ofJson? (s.relationsPath.join (bagName id)) t = .ok bag ∧
      s.updateRelation id data t = writeJson (s.relationsPath.join (bagName id))
        (Bag.toJson ((bag.getD ∅).overlay data)) t := by
  unfold updateRelation
  rw [bagPath_of_safe s hs]
  dsimp only
  cases readJson Bag.ofJson? (s.relationsPath.join (bagName id)) t with
  | error error => exact .inl ⟨error, rfl, rfl⟩
  | ok bag => exact .inr ⟨bag, rfl, rfl⟩

/-- In any tree a request that fails changes no file, and makes directories only if it fails to
write; one that succeeds changes at most the file that it names. -/
theorem perform_atomic (s : Store) (t : FileTree) (request : Request) :
    Atomic (request.path? s) t (s.perform t request) := by
  have hunsafe : ∀ id, request.id? = some id → ¬ IsSafeId id →
      Atomic (request.path? s) t (s.perform t request) := by
    intro id hid hs
    rw [s.perform_unsafe t hid hs]
    exact .of_read _ t
  cases request with
  | setStatus status => exact atomic_writeJson isName_status.toIsPlain status.toJson t
  | openPort port =>
    change Atomic _ t (s.openPort port t)
    rcases Holds.openPort_cases s port t with ⟨reply, heq⟩ | ⟨ports, heq⟩
    · rw [heq]
      exact .of_read reply t
    · rw [heq]
      exact atomic_writeJson isName_ports.toIsPlain ports.toJson t
  | join id =>
    by_cases hs : IsSafeId id
    · rw [path_of_safe s rfl hs]
      change Atomic _ t (s.joinRelation id t)
      rcases joinRelation_cases s hs t with heq | heq
      · rw [heq]
        exact .of_read _ t
      · rw [heq]
        exact atomic_writeJson (isPlain_bagName hs) _ t
    · exact hunsafe id rfl hs
  | update id data =>
    by_cases hs : IsSafeId id
    · rw [path_of_safe s rfl hs]
      change Atomic _ t (s.updateRelation id data t)
      rcases updateRelation_cases s hs data t with ⟨error, -, heq⟩ | ⟨bag, -, heq⟩
      · rw [heq]
        exact .of_read _ t
      · rw [heq]
        exact atomic_writeJson (isPlain_bagName hs) _ t
    · exact hunsafe id rfl hs
  | relations => exact .of_read _ t
  | relationData id => exact .of_read _ t
  | status => exact .of_read _ t
  | openedPorts => exact .of_read _ t

def unreadablePorts : FileTree where
  nodes := .ofList [(["ports.json"], Node.file "?".toUTF8 0o644)]
  current := []

theorem perform_atomic_unreadable :
    (perform ⟨⟨"/"⟩⟩ unreadablePorts (.openPort 22)).1 = .error (.malformed ⟨"/ports.json"⟩) ∧
      (perform ⟨⟨"/"⟩⟩ unreadablePorts (.openPort 22)).2 = unreadablePorts := by
  have herror : (perform ⟨⟨"/"⟩⟩ unreadablePorts (.openPort 22)).1 =
      .error (.malformed ⟨"/ports.json"⟩) := rfl
  refine ⟨herror, ?_⟩
  rcases (perform_atomic ⟨⟨"/"⟩⟩ unreadablePorts (.openPort 22)).error _ herror with
    heq | ⟨_, _, -, hio, -⟩
  · exact heq
  · cases hio

end Store

end Record

end RelayKeeper
