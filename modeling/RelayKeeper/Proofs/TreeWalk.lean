import Mathlib.Data.List.Nodup
import RelayKeeper.Proofs.PathSteps

/-! # Walking and changing a file tree

Names lead from one directory to another, and go on doing so as long as directories stay. From
there follow what a path finds, what writing it does, and what making its directories does. -/
namespace RelayKeeper

/-- Only what has an answer is gone on with. -/
theorem of_bind {ε α β : Type} {x : Except ε α} {f : α → Except ε β} {b : β}
    (h : x >>= f = .ok b) : ∃ a, x = .ok a ∧ f a = .ok b := by
  cases x with
  | error _ => cases h
  | ok a => exact ⟨a, rfl, h⟩

theorem of_guard {ε β : Type} {p : Prop} [Decidable p] {e : ε} {f : PUnit → Except ε β}
    {x : Except ε β} {b : β}
    (h : (if p then (Except.error e : Except ε PUnit) >>= f else x) = .ok b) :
    ¬ p ∧ x = .ok b := by
  by_cases hp : p
  · rw [if_pos hp] at h
    cases h
  · rw [if_neg hp] at h
    exact ⟨hp, h⟩

namespace FileTree

/-- A name that no walk takes for a place it knows already. -/
structure IsPlain (name : String) : Prop where
  nonempty : name ≠ ""
  slash : '/' ∉ name.toList
  nul : '\x00' ∉ name.toList
  dot : name ≠ "."
  dots : name ≠ ".."

structure IsName (name : String) : Prop extends IsPlain name where
  short : name.utf8ByteSize ≤ longestName

instance (name : String) : Decidable (IsPlain name) :=
  decidable_of_iff (name ≠ "" ∧ '/' ∉ name.toList ∧ '\x00' ∉ name.toList ∧ name ≠ "." ∧ name ≠ "..")
    ⟨fun ⟨hne, hslash, hnul, hdot, hdots⟩ => ⟨hne, hslash, hnul, hdot, hdots⟩,
      fun h => ⟨h.nonempty, h.slash, h.nul, h.dot, h.dots⟩⟩

instance (name : String) : Decidable (IsName name) :=
  decidable_of_iff (IsPlain name ∧ name.utf8ByteSize ≤ longestName)
    ⟨fun ⟨hplain, hshort⟩ => ⟨hplain, hshort⟩, fun h => ⟨h.toIsPlain, h.short⟩⟩

inductive Leads (t : FileTree) : Place → List String → Place → Prop where
  | here {a} : t.node? a = some .directory → Leads t a [] a
  | into {a b c name names} : t.enter a name = .ok b → Leads t b names c →
      Leads t a (name :: names) c

@[simp] theorem node?_nil (t : FileTree) : t.node? [] = some .directory := by
  simp [node?]

theorem node?_put {t : FileTree} {p : Place} (hp : p ≠ []) (node : Node) (q : Place) :
    (t.put p node).node? q = if q = p then some node else t.node? q := by
  by_cases hq : q = []
  · subst hq
    simp [hp.symm]
  · have hc : compare p q = .eq ↔ q = p := by
      rw [Std.LawfulEqOrd.compare_eq_iff_eq, eq_comm]
    simp [node?, put, hq, Std.ExtTreeMap.getElem?_insert, hc]

theorem node?_put_self {t : FileTree} {p : Place} (hp : p ≠ []) (node : Node) :
    (t.put p node).node? p = some node := by
  rw [node?_put hp, if_pos rfl]

theorem node?_put_of_ne {t : FileTree} {p q : Place} (hp : p ≠ []) (node : Node) (hq : q ≠ p) :
    (t.put p node).node? q = t.node? q := by
  rw [node?_put hp, if_neg hq]

/-- Where a name leads to from a directory. -/
theorem of_enter {t : FileTree} {a b : Place} {name : String} (h : t.enter a name = .ok b) :
    t.node? a = some .directory ∧
      (name = "." ∧ b = a ∨ name = ".." ∧ b = a.dropLast ∨
        name ≠ "." ∧ name ≠ ".." ∧ name.utf8ByteSize ≤ longestName ∧ b = a ++ [name]) := by
  unfold enter at h
  split at h
  · cases h
  next hd =>
  refine ⟨by simpa using hd, ?_⟩
  split at h
  · next hdot => exact .inl ⟨hdot, (Except.ok.inj h).symm⟩
  next hdot =>
  split at h
  · next hdots => exact .inr (.inl ⟨hdots, (Except.ok.inj h).symm⟩)
  next hdots =>
  split at h
  · cases h
  · next hshort =>
    exact .inr (.inr ⟨hdot, hdots, Nat.not_lt.mp hshort, (Except.ok.inj h).symm⟩)

theorem directory_of_enter {t : FileTree} {a b : Place} {name : String}
    (h : t.enter a name = .ok b) : t.node? a = some .directory :=
  (of_enter h).1

/-- A plain name leads to its place, if it leads anywhere. -/
theorem isName_of_enter {t : FileTree} {a b : Place} {name : String} (hn : IsPlain name)
    (h : t.enter a name = .ok b) : IsName name ∧ b = a ++ [name] := by
  obtain ⟨-, ⟨hdot, -⟩ | ⟨hdots, -⟩ | ⟨-, -, hshort, hb⟩⟩ := of_enter h
  · exact absurd hdot hn.dot
  · exact absurd hdots hn.dots
  · exact ⟨⟨hn, hshort⟩, hb⟩

theorem enter_name {t : FileTree} {a : Place} {name : String} (ha : t.node? a = some .directory)
    (hn : IsName name) : t.enter a name = .ok (a ++ [name]) := by
  have hs : ¬ longestName < name.utf8ByteSize := Nat.not_lt.mpr hn.short
  simp [enter, ha, hn.dot, hn.dots, hs]

theorem enter_dot {t : FileTree} {a : Place} (ha : t.node? a = some .directory) :
    t.enter a "." = .ok a := by
  simp [enter, ha]

theorem enter_congr {t u : FileTree} {a b : Place} {name : String} (h : t.enter a name = .ok b)
    (hu : u.node? a = some .directory) : u.enter a name = .ok b := by
  have ht := directory_of_enter h
  unfold enter at h ⊢
  rw [ht] at h
  rwa [hu]

namespace Leads

variable {t u : FileTree} {a b c : Place} {names more : List String}

theorem start (h : Leads t a names b) : t.node? a = some .directory := by
  cases h with
  | here hd => exact hd
  | into he _ => exact directory_of_enter he

theorem target (h : Leads t a names b) : t.node? b = some .directory := by
  induction h with
  | here hd => exact hd
  | into _ _ ih => exact ih

theorem append (h : Leads t a names b) (k : Leads t b more c) : Leads t a (names ++ more) c := by
  induction h with
  | here _ => exact k
  | into he _ ih => exact .into he (ih k)

theorem of_append (h : Leads t a (names ++ more) c) :
    ∃ b, Leads t a names b ∧ Leads t b more c := by
  induction names generalizing a with
  | nil => exact ⟨a, .here h.start, h⟩
  | cons name names ih =>
    cases h with
    | into he hl =>
      obtain ⟨b, hb, hc⟩ := ih hl
      exact ⟨b, .into he hb, hc⟩

theorem name {n : String} (ha : t.node? a = some .directory) (hn : IsName n)
    (hd : t.node? (a ++ [n]) = some .directory) : Leads t a [n] (a ++ [n]) :=
  .into (enter_name ha hn) (.here hd)

theorem mono (h : Leads t a names b)
    (hd : ∀ p, t.node? p = some .directory → u.node? p = some .directory) :
    Leads u a names b := by
  induction h with
  | here ha => exact .here (hd _ ha)
  | into he _ ih => exact .into (enter_congr he (hd _ (directory_of_enter he))) ih

end Leads

theorem walk_cons {t : FileTree} {a b : Place} {name : String} (he : t.enter a name = .ok b)
    (names : List String) :
    t.walk a (name :: names) =
      if (t.node? b).isNone then .error .notFound else t.walk b names := by
  rw [walk, he]
  change (if (t.node? b).isNone then _ else _) = _
  cases t.node? b <;> rfl

theorem walk_cons_directory {t : FileTree} {a b : Place} {name : String}
    (he : t.enter a name = .ok b) (hb : t.node? b = some .directory) (names : List String) :
    t.walk a (name :: names) = t.walk b names := by
  rw [walk_cons he, hb]
  rfl

theorem of_walk_cons {t : FileTree} {a c : Place} {name : String} {names : List String}
    (h : t.walk a (name :: names) = .ok c) :
    ∃ b, t.enter a name = .ok b ∧ (t.node? b).isSome ∧ t.walk b names = .ok c := by
  obtain ⟨b, he, -⟩ := of_bind h
  rw [walk_cons he] at h
  cases hn : t.node? b with
  | none => simp [hn] at h
  | some node =>
    rw [hn] at h
    exact ⟨b, he, by rw [hn]; rfl, h⟩

theorem walk_append (t : FileTree) (a : Place) (names more : List String) :
    t.walk a (names ++ more) = (t.walk a names).bind fun b => t.walk b more := by
  induction names generalizing a with
  | nil => rfl
  | cons name names ih =>
    cases he : t.enter a name with
    | error fault =>
      rw [List.cons_append, walk, walk, he]
      rfl
    | ok b =>
      rw [List.cons_append, walk_cons he, walk_cons he, ih]
      split <;> rfl

/-- Steps that stay in place do not change where a walk leads. -/
theorem walk_of_leads {t : FileTree} {a b : Place} {steps : List String}
    (h : Leads t a (steps.filter (· ≠ ".")) b) : t.walk a steps = .ok b := by
  induction steps generalizing a with
  | nil =>
    cases h with
    | here _ => rfl
  | cons step steps ih =>
    by_cases hs : step = "."
    · subst hs
      rw [walk_cons_directory (enter_dot h.start) h.start]
      exact ih h
    · rw [List.filter_cons_of_pos (by simpa using hs)] at h
      cases h with
      | into he hl =>
        rw [walk_cons_directory he hl.start]
        exact ih hl

/-- A walk ends at the first name that is not there. -/
theorem walk_of_missing {t : FileTree} {a b : Place} {steps names more : List String}
    {name : String} (hs : steps.filter (· ≠ ".") = names ++ name :: more)
    (hl : Leads t a names b) (hn : IsName name) (hm : t.node? (b ++ [name]) = none) :
    t.walk a steps = .error .notFound := by
  induction steps generalizing a names with
  | nil => simp at hs
  | cons step steps ih =>
    by_cases hd : step = "."
    · subst hd
      rw [walk_cons_directory (enter_dot hl.start) hl.start]
      exact ih hs hl
    · rw [List.filter_cons_of_pos (by simpa using hd)] at hs
      cases hl with
      | here ha =>
        obtain ⟨rfl, -⟩ := List.cons.inj hs
        rw [walk_cons (enter_name ha hn), hm]
        rfl
      | into he hl =>
        obtain ⟨rfl, hrest⟩ := List.cons.inj hs
        rw [walk_cons_directory he hl.start]
        exact ih hrest hl

/-! ## Paths from the root of a directory -/

structure Rooted (t : FileTree) (p : Path) (place : Place) : Prop where
  nul : '\x00' ∉ p.chars
  leads : Leads t (t.start p) p.names place

/-- The path ends in a name that may or may not be there, in a directory. -/
structure Points (t : FileTree) (p : Path) (place : Place) (name : String) : Prop where
  nul : '\x00' ∉ p.chars
  slash : endsInSlash p = false
  leads : ∃ steps, stepsOf p = steps ++ [name] ∧
    Leads t (t.start p) (steps.filter (· ≠ ".")) place
  isName : IsName name

theorem names_join {p : Path} {name : String} (hn : IsPlain name) :
    (p.join name).names = p.names ++ [name] := by
  have hd := hn.dot
  rw [Path.names, Path.stepsOf_join p hn.nonempty hn.slash]
  simp [Path.names, hd]

theorem start_join (t : FileTree) (p : Path) {name : String} (hn : IsPlain name) :
    t.start (p.join name) = t.start p := by
  rw [start, start, Path.isAbsolute_join p hn.slash]

theorem nul_join {p : Path} {name : String} (hp : '\x00' ∉ p.chars) (hn : IsPlain name) :
    '\x00' ∉ (p.join name).chars := by
  have hnul := hn.nul
  rw [Path.chars_join p hn.slash]
  split <;> simp [hp, hnul]

theorem endsInSlash_join (p : Path) {name : String} (hn : IsPlain name) :
    endsInSlash (p.join name) = false := by
  obtain ⟨ss, hj, -⟩ := Path.segments_join p hn.slash
  exact Path.endsInSlash_of_segments hj (by simpa using hn.nonempty)

theorem Rooted.points {t : FileTree} {p : Path} {place : Place} {name : String}
    (h : Rooted t p place) (hn : IsName name) : Points t (p.join name) place name where
  nul := nul_join h.nul hn.toIsPlain
  slash := endsInSlash_join p hn.toIsPlain
  leads := ⟨stepsOf p, Path.stepsOf_join p hn.nonempty hn.slash, by
    rw [start_join t p hn.toIsPlain]
    exact h.leads⟩
  isName := hn

theorem Rooted.join {t : FileTree} {p : Path} {place : Place} {name : String}
    (h : Rooted t p place) (hn : IsName name)
    (hd : t.node? (place ++ [name]) = some .directory) :
    Rooted t (p.join name) (place ++ [name]) where
  nul := nul_join h.nul hn.toIsPlain
  leads := by
    rw [start_join t p hn.toIsPlain, names_join hn.toIsPlain]
    exact h.leads.append (.name h.leads.target hn hd)

theorem Rooted.mono {t u : FileTree} {p : Path} {place : Place} (h : Rooted t p place)
    (hc : u.current = t.current)
    (hd : ∀ q, t.node? q = some .directory → u.node? q = some .directory) :
    Rooted u p place where
  nul := h.nul
  leads := by
    have hs : u.start p = t.start p := by rw [start, start, hc]
    rw [hs]
    exact h.leads.mono hd

theorem checkPath_ok {p : Path} (hn : '\x00' ∉ p.chars) (hs : stepsOf p ≠ []) :
    checkPath p = .ok () := by
  have hc : p.chars ≠ [] := by
    intro h
    simp [stepsOf, Path.segments, h, Text.splitAt] at hs
  simp [checkPath, hn, hc]

theorem Rooted.walk_eq {t : FileTree} {p : Path} {place : Place} (h : Rooted t p place) :
    t.walk (t.start p) (stepsOf p) = .ok place :=
  walk_of_leads h.leads

theorem Rooted.find_eq {t : FileTree} {p : Path} {place : Place} (h : Rooted t p place)
    (hc : p.chars ≠ []) : t.find p = .ok (place, .directory) := by
  have hnul := h.nul
  have hd := h.leads.target
  have hcheck : checkPath p = .ok () := by simp [checkPath, hnul, hc]
  unfold find
  rw [hcheck, h.walk_eq]
  simp only [bind, Except.bind, hd]

/-- A path finds whatever stands at a place, and nothing if nothing does. -/
def Finds (t : FileTree) (p : Path) (q : Place) : Prop :=
  t.find p = match t.node? q with
    | some node => .ok (q, node)
    | none => .error .notFound

theorem Finds.contains_eq {t : FileTree} {p : Path} {q : Place} (h : Finds t p q) :
    t.contains p = (t.node? q).isSome := by
  rw [contains, h]
  cases t.node? q <;> rfl

theorem readText_of_missing {t : FileTree} {p : Path} {fault : Fault}
    (h : t.find p = .error fault) : t.readText p = .error fault := by
  rw [readText, read, h]
  rfl

theorem readText_of_file {t : FileTree} {p : Path} {q : Place} {content : ByteArray} {mode : Nat}
    {text : String} (h : t.find p = .ok (q, .file content mode))
    (hv : String.fromUTF8? content = some text) : t.readText p = .ok text := by
  unfold readText read
  simp only [h, bind, Except.bind, hv]

/-! ## Listing -/

def nameIn? (place other : Place) : Option String :=
  if other.length = place.length + 1 && place.isPrefixOf other then other.getLast? else none

theorem nameIn_eq_some {place other : Place} {name : String} :
    nameIn? place other = some name ↔ other = place ++ [name] := by
  unfold nameIn?
  constructor
  · intro h
    split at h
    · next hc =>
      simp only [Bool.and_eq_true, decide_eq_true_eq, List.isPrefixOf_iff_prefix] at hc
      obtain ⟨hlen, rest, rfl⟩ := hc
      obtain ⟨last, rfl⟩ := List.length_eq_one_iff.mp (by simpa using hlen)
      simpa using h
    · cases h
  · rintro rfl
    simp

theorem isSome_node?_snoc (t : FileTree) (place : Place) (name : String) :
    (t.node? (place ++ [name])).isSome ↔ place ++ [name] ∈ t.nodes.keys := by
  rw [node?, if_neg (by simp), Std.ExtTreeMap.mem_keys, ← Std.ExtTreeMap.isSome_getElem?_iff_mem]

theorem list_of_directory {t : FileTree} {p : Path} {place : Place}
    (h : t.find p = .ok (place, .directory)) :
    ∃ names, t.list p = .ok names ∧ names.Nodup ∧
      ∀ name, name ∈ names ↔ (t.node? (place ++ [name])).isSome := by
  have hl : t.list p = .ok (t.nodes.keys.filterMap (nameIn? place)) := by
    rw [list, h]
    rfl
  refine ⟨_, hl, ?_, fun name => ?_⟩
  · refine t.nodes.nodup_keys.filterMap fun other other' name ho ho' => ?_
    exact (nameIn_eq_some.mp ho).trans (nameIn_eq_some.mp ho').symm
  · rw [List.mem_filterMap, isSome_node?_snoc]
    constructor
    · rintro ⟨other, hm, hn⟩
      exact nameIn_eq_some.mp hn ▸ hm
    · intro hm
      exact ⟨_, hm, nameIn_eq_some.mpr rfl⟩

theorem list_of_missing {t : FileTree} {p : Path} (h : t.find p = .error .notFound) :
    t.list p = .error .notFound := by
  rw [list, h]
  rfl

namespace Points

variable {t : FileTree} {p : Path} {place : Place} {name : String}

theorem checkPath_eq (h : Points t p place name) : checkPath p = .ok () := by
  obtain ⟨steps, hs, -⟩ := h.leads
  exact checkPath_ok h.nul (by simp [hs])

theorem directory (h : Points t p place name) : t.node? place = some .directory := by
  obtain ⟨_, _, hl⟩ := h.leads
  exact hl.target

theorem walk_eq (h : Points t p place name) :
    t.walk (t.start p) (stepsOf p) =
      if (t.node? (place ++ [name])).isNone then .error .notFound else .ok (place ++ [name]) := by
  obtain ⟨steps, hs, hl⟩ := h.leads
  have hw := walk_of_leads hl
  rw [hs, walk_append, hw]
  exact walk_cons (enter_name h.directory h.isName) []

theorem finds (h : Points t p place name) : Finds t p (place ++ [name]) := by
  unfold Finds find
  rw [h.checkPath_eq, h.walk_eq]
  cases hn : t.node? (place ++ [name]) with
  | none => rfl
  | some node =>
    simp only [bind, Except.bind, Option.isNone_some, Bool.false_eq_true, if_false, hn]
    cases node with
    | file content mode => simp [h.slash]
    | directory => rfl

theorem findParent_eq (h : Points t p place name) :
    t.findParent p = .ok (some (place, name)) := by
  obtain ⟨steps, hs, hl⟩ := h.leads
  unfold findParent
  rw [h.checkPath_eq, hs]
  have he := enter_name h.directory h.isName
  simp [bind, Except.bind, walk_of_leads hl, he, h.isName.dot, h.isName.dots]

/-- Writing to a name where no directory stands puts a file there. -/
theorem write_eq (h : Points t p place name) (content : ByteArray)
    (hd : t.node? (place ++ [name]) ≠ some .directory) :
    ∃ mode, t.write p content = .ok (t.put (place ++ [name]) (.file content mode)) := by
  unfold write
  rw [h.findParent_eq]
  simp only [bind, Except.bind, h.slash, Bool.false_eq_true, if_false]
  cases hn : t.node? (place ++ [name]) with
  | none => exact ⟨newFileMode, rfl⟩
  | some node =>
    cases node with
    | file old mode => exact ⟨mode, rfl⟩
    | directory => exact absurd hn hd

theorem write_of_directory (h : Points t p place name) (content : ByteArray)
    (hd : t.node? (place ++ [name]) = some .directory) :
    t.write p content = .error .isDirectory := by
  unfold write
  rw [h.findParent_eq]
  simp only [bind, Except.bind, h.slash, Bool.false_eq_true, if_false, hd]

end Points

/-- A name that is too long cannot be written. -/
theorem Rooted.write_long {t : FileTree} {p : Path} {place : Place} {name : String}
    (h : Rooted t p place) (hn : IsPlain name) (hlong : longestName < name.utf8ByteSize)
    (content : ByteArray) : t.write (p.join name) content = .error .nameTooLong := by
  have hd := h.leads.target
  have he : t.enter place name = .error .nameTooLong := by
    simp [enter, hd, hn.dot, hn.dots, hlong]
  have hsteps := Path.stepsOf_join p hn.nonempty hn.slash
  have hcheck : checkPath (p.join name) = .ok () :=
    checkPath_ok (nul_join h.nul hn) (by simp [hsteps])
  have hwalk : t.walk (t.start (p.join name)) (stepsOf p) = .ok place := by
    rw [start_join t p hn, h.walk_eq]
  unfold write findParent
  rw [hcheck, hsteps]
  simp [bind, Except.bind, hwalk, he]

end FileTree

end RelayKeeper
