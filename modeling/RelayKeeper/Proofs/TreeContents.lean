import RelayKeeper.Proofs.TreeAdditions

/-! # What files hold

What is read is what the file holds that the path leads to. Where paths lead, and what is made or
written, is the same whatever the files hold. -/
namespace RelayKeeper

def Node.redraw (f : ByteArray → ByteArray) : Node → Node
  | .file content mode => .file (f content) mode
  | .directory => .directory

theorem Node.redraw_id (node : Node) : node.redraw id = node := by
  cases node <;> rfl

theorem Node.redraw_eq_directory_iff {f : ByteArray → ByteArray} {node : Node} :
    node.redraw f = .directory ↔ node = .directory := by
  cases node <;> simp [Node.redraw]

namespace FileTree

variable {t u : FileTree} {p : Path} {q : Place} {content : ByteArray} {mode : Nat}

/-! ## Reading -/

theorem of_readText {text : String} (h : t.readText p = .ok text) :
    ∃ q content mode, t.find p = .ok (q, .file content mode) ∧
      String.fromUTF8? content = some text := by
  obtain ⟨content, hread, htext⟩ := of_bind h
  obtain ⟨⟨q, node⟩, hfind, hnode⟩ := of_bind hread
  cases node with
  | directory => cases hnode
  | file held mode =>
    obtain rfl : held = content := Except.ok.inj hnode
    refine ⟨q, held, mode, hfind, ?_⟩
    cases hv : String.fromUTF8? held with
    | none =>
      rw [hv] at htext
      cases htext
    | some read =>
      rw [hv] at htext
      exact congrArg some (Except.ok.inj htext)

theorem readText_of_invalid (h : t.find p = .ok (q, .file content mode))
    (hv : String.fromUTF8? content = none) : t.readText p = .error .invalidText := by
  unfold readText read
  simp only [h, bind, Except.bind, hv]

theorem readText_of_directory (h : t.find p = .ok (q, .directory)) :
    t.readText p = .error .isDirectory := by
  unfold readText read
  simp only [h, bind, Except.bind]

/-! ## Other contents -/

def redraw (f : Place → ByteArray → ByteArray) (t : FileTree) : FileTree :=
  { t with nodes := t.nodes.map fun q => Node.redraw (f q) }

/-- What the path leads to keeps its content. -/
def Spares (f : Place → ByteArray → ByteArray) (t : FileTree) (p : Path) : Prop :=
  ∀ q node, t.find p = .ok (q, node) → f q = id

section redraw

variable (f : Place → ByteArray → ByteArray)

theorem node?_redraw (t : FileTree) (q : Place) :
    (t.redraw f).node? q = (t.node? q).map (Node.redraw (f q)) := by
  by_cases hq : q = []
  · subst hq
    rfl
  · simp [node?, redraw, hq]

@[simp] theorem start_redraw (t : FileTree) (p : Path) : (t.redraw f).start p = t.start p := rfl

@[simp] theorem isNone_node?_redraw (t : FileTree) (q : Place) :
    ((t.redraw f).node? q).isNone = (t.node? q).isNone := by
  rw [node?_redraw, Option.isNone_map]

@[simp] theorem node?_redraw_eq_directory_iff (t : FileTree) (q : Place) :
    (t.redraw f).node? q = some .directory ↔ t.node? q = some .directory := by
  rw [node?_redraw]
  cases t.node? q with
  | none => simp
  | some node => simp [Node.redraw_eq_directory_iff]

@[simp] theorem enter_redraw (t : FileTree) (a : Place) (name : String) :
    (t.redraw f).enter a name = t.enter a name := by
  simp only [enter, bne_iff_ne, ne_eq, node?_redraw_eq_directory_iff]

@[simp] theorem walk_redraw (t : FileTree) (a : Place) (names : List String) :
    (t.redraw f).walk a names = t.walk a names := by
  induction names generalizing a with
  | nil => rfl
  | cons name names ih =>
    cases he : t.enter a name with
    | error fault =>
      rw [walk, walk, enter_redraw, he]
      rfl
    | ok b =>
      rw [walk_cons he, walk_cons ((enter_redraw f t a name).trans he), isNone_node?_redraw, ih]

theorem find_redraw (t : FileTree) (p : Path) :
    (t.redraw f).find p = (t.find p).map fun found => (found.1, found.2.redraw (f found.1)) := by
  unfold find
  rw [start_redraw, walk_redraw]
  cases checkPath p with
  | error fault => rfl
  | ok _ =>
    cases t.walk (t.start p) (stepsOf p) with
    | error fault => rfl
    | ok q =>
      simp only [bind, Except.bind, node?_redraw]
      cases t.node? q with
      | none => rfl
      | some node =>
        cases node with
        | directory => rfl
        | file content mode =>
          by_cases hs : endsInSlash p = true
          · simp [Node.redraw, hs, Except.map]
          · simp [Node.redraw, hs, Except.map]

@[simp] theorem contains_redraw (t : FileTree) (p : Path) :
    (t.redraw f).contains p = t.contains p := by
  rw [contains, contains, find_redraw]
  cases t.find p <;> rfl

@[simp] theorem isDirectory_redraw (t : FileTree) (p : Path) :
    (t.redraw f).isDirectory p = t.isDirectory p := by
  unfold isDirectory
  rw [find_redraw]
  rcases t.find p with fault | ⟨q, _ | _⟩ <;> rfl

@[simp] theorem findParent_redraw (t : FileTree) (p : Path) :
    (t.redraw f).findParent p = t.findParent p := by
  simp only [findParent, start_redraw, walk_redraw, enter_redraw]

theorem redraw_put (t : FileTree) (q : Place) (node : Node) :
    (t.put q node).redraw f = (t.redraw f).put q (node.redraw (f q)) := by
  unfold redraw put
  congr 1
  apply Std.ExtTreeMap.ext_getElem?
  intro r
  by_cases hr : compare q r = .eq
  · obtain rfl := Std.LawfulEqOrd.compare_eq_iff_eq.mp hr
    simp
  · simp [Std.ExtTreeMap.getElem?_insert, hr]

theorem makeDirectory_redraw (t : FileTree) (p : Path) :
    (t.redraw f).makeDirectory p = (t.makeDirectory p).map (redraw f) := by
  unfold makeDirectory
  rw [findParent_redraw]
  cases t.findParent p with
  | error fault => rfl
  | ok parent =>
    cases parent with
    | none => rfl
    | some found =>
      obtain ⟨place, name⟩ := found
      simp only [bind, Except.bind, node?_redraw, Option.isSome_map]
      by_cases hs : (t.node? (place ++ [name])).isSome = true
      · simp only [if_pos hs, Except.map]
      · simp only [if_neg hs, Except.map, redraw_put, Node.redraw]

theorem makeChain_redraw (t : FileTree) (ps : List Path) :
    (t.redraw f).makeChain ps = ((t.makeChain ps).1, (t.makeChain ps).2.redraw f) := by
  induction ps with
  | nil => rfl
  | cons p above ih =>
    rw [makeChain, makeChain, makeDirectory_redraw, isDirectory_redraw]
    by_cases hc : p.chars.isEmpty = true
    · rw [if_pos hc, if_pos hc]
    · rw [if_neg hc, if_neg hc]
      cases t.makeDirectory p with
      | ok made => rfl
      | error fault =>
        cases fault with
        | notFound =>
          simp only [Except.map, ih]
          rcases t.makeChain above with ⟨fault | _, made⟩
          · rfl
          · dsimp only
            rw [makeDirectory_redraw, isDirectory_redraw]
            cases made.makeDirectory p <;> rfl
        | _ => rfl

theorem makeDirectories_redraw (t : FileTree) (p : Path) :
    (t.redraw f).makeDirectories p =
      ((t.makeDirectories p).1, (t.makeDirectories p).2.redraw f) :=
  t.makeChain_redraw f _

end redraw

/-! ## Contents that do not matter -/

section spares

variable {f : Place → ByteArray → ByteArray}

/-- The path finds the same, with the same content. -/
theorem Spares.find_eq (h : Spares f t p) : (t.redraw f).find p = t.find p := by
  rw [find_redraw]
  cases hf : t.find p with
  | error fault => rfl
  | ok found =>
    have hid := h found.1 found.2 hf
    simp only [Except.map, hid, Node.redraw_id]

theorem Spares.readText_eq (h : Spares f t p) : (t.redraw f).readText p = t.readText p := by
  rw [readText, readText, read, read, h.find_eq]

/-- The same is written in the same place, whatever the files hold. -/
theorem write_redraw (f : Place → ByteArray → ByteArray) (t : FileTree) (p : Path)
    (content : ByteArray) :
    (∃ fault, t.write p content = .error fault ∧ (t.redraw f).write p content = .error fault) ∨
      ∃ place name mode, t.findParent p = .ok (some (place, name)) ∧
        t.node? (place ++ [name]) ≠ some .directory ∧
        t.write p content = .ok (t.put (place ++ [name]) (.file content mode)) ∧
        (t.redraw f).write p content =
          .ok ((t.redraw f).put (place ++ [name]) (.file content mode)) := by
  unfold write
  rw [findParent_redraw]
  cases hparent : t.findParent p with
  | error fault => exact .inl ⟨fault, rfl, rfl⟩
  | ok parent =>
    cases parent with
    | none => exact .inl ⟨_, rfl, rfl⟩
    | some found =>
      obtain ⟨place, name⟩ := found
      simp only [bind, Except.bind, node?_redraw]
      by_cases hs : endsInSlash p = true
      · rw [if_pos hs, if_pos hs]
        exact .inl ⟨_, rfl, rfl⟩
      · rw [if_neg hs, if_neg hs]
        cases hnode : t.node? (place ++ [name]) with
        | none => exact .inr ⟨place, name, newFileMode, rfl, by simp [hnode], rfl, rfl⟩
        | some node =>
          cases node with
          | file old mode => exact .inr ⟨place, name, mode, rfl, by simp [hnode], rfl, rfl⟩
          | directory => exact .inl ⟨_, rfl, rfl⟩

end spares

end FileTree

end RelayKeeper
