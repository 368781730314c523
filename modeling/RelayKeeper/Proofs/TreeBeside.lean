import RelayKeeper.Proofs.TreeGrowth

/-! # Trees beside each other

Writing JSON files changes neither which directories there are nor any other file, so whatever else a
path finds afterwards it found before. -/
namespace RelayKeeper.FileTree

def IsJsonName (name : String) : Prop :=
  ".json".toList <:+ name.toList

instance (name : String) : Decidable (IsJsonName name) :=
  inferInstanceAs (Decidable (_ <:+ _))

/-- Where one tree has all the directories of another, its walks lead to the same places. -/
theorem walk_of_directories {t u : FileTree} {a q : Place} {steps : List String}
    (hd : ∀ r, u.node? r = some .directory → t.node? r = some .directory)
    (hw : u.walk a steps = .ok q) (hq : u.node? q = t.node? q) : t.walk a steps = .ok q := by
  -- All places on the way but the last are directories, and these are the same in both trees.
  induction steps generalizing a with
  | nil => exact hw
  | cons name rest ih =>
    obtain ⟨b, he, hub, hrest⟩ := of_walk_cons hw
    have htb : (t.node? b).isNone = false := by
      cases rest with
      | nil =>
        obtain rfl : b = q := Except.ok.inj hrest
        rw [← hq]
        simpa using hub
      | cons next more =>
        obtain ⟨c, hnext, -⟩ := of_walk_cons hrest
        rw [hd b (directory_of_enter hnext)]
        rfl
    rw [walk_cons (enter_congr he (hd _ (directory_of_enter he))), htb, if_neg Bool.false_ne_true]
    exact ih hrest

/-- From one tree to the other only files with a JSON name are new or have changed. -/
structure Beside (t u : FileTree) : Prop where
  current : u.current = t.current
  node : ∀ p, u.node? p = t.node? p ∨
    t.node? p ≠ some .directory ∧ u.node? p ≠ some .directory ∧
      ∃ name, p.getLast? = some name ∧ IsJsonName name

namespace Beside

variable {t u v : FileTree} {q : Place}

theorem refl (t : FileTree) : Beside t t :=
  ⟨rfl, fun _ => .inl rfl⟩

theorem trans (h : Beside t u) (k : Beside u v) : Beside t v where
  current := k.current.trans h.current
  node p := by
    rcases h.node p with hp | ⟨ht, hu, hname⟩ <;> rcases k.node p with kp | ⟨ku, kv, kname⟩
    · exact .inl (kp.trans hp)
    · exact .inr ⟨hp ▸ ku, kv, kname⟩
    · exact .inr ⟨ht, kp ▸ hu, hname⟩
    · exact .inr ⟨ht, kv, hname⟩

theorem put {place : Place} {name : String} {content : ByteArray} {mode : Nat}
    (hd : t.node? (place ++ [name]) ≠ some .directory) (hj : IsJsonName name) :
    Beside t (t.put (place ++ [name]) (.file content mode)) where
  current := rfl
  node p := by
    by_cases hp : p = place ++ [name]
    · subst hp
      refine .inr ⟨hd, ?_, name, by simp, hj⟩
      rw [node?_put_self (by simp)]
      simp
    · exact .inl (node?_put_of_ne (by simp) _ hp)

theorem directory (h : Beside t u) (hq : u.node? q = some .directory) :
    t.node? q = some .directory := by
  rcases h.node q with heq | ⟨-, hu, -⟩
  · exact heq ▸ hq
  · exact absurd hq hu

end Beside

/-- What is found stands where the walk along the path leads. -/
theorem of_find {u : FileTree} {p : Path} {q : Place} {node : Node} (h : u.find p = .ok (q, node)) :
    checkPath p = .ok () ∧ u.walk (u.start p) (stepsOf p) = .ok q ∧ u.node? q = some node ∧
      (endsInSlash p = true → node = .directory) := by
  obtain ⟨_, hc, h⟩ := of_bind h
  obtain ⟨place, hw, h⟩ := of_bind h
  cases hn : u.node? place with
  | none =>
    rw [hn] at h
    cases h
  | some found =>
    rw [hn] at h
    cases found with
    | directory =>
      cases h
      exact ⟨hc, hw, hn, fun _ => rfl⟩
    | file content mode =>
      by_cases hs : endsInSlash p = true
      · simp [hs] at h
      · simp only [hs, Bool.false_eq_true, if_false] at h
        cases h
        exact ⟨hc, hw, hn, fun h => absurd h hs⟩

theorem find_of_walk {t : FileTree} {p : Path} {q : Place} {node : Node}
    (hc : checkPath p = .ok ()) (hw : t.walk (t.start p) (stepsOf p) = .ok q)
    (hn : t.node? q = some node) (hs : endsInSlash p = true → node = .directory) :
    t.find p = .ok (q, node) := by
  unfold find
  rw [hc, hw]
  simp only [bind, Except.bind, hn]
  cases node with
  | directory => rfl
  | file content mode =>
    have hslash : ¬ endsInSlash p = true := by
      intro h
      cases hs h
    simp [hslash]

theorem find_of_directories {t u : FileTree} {p : Path} {q : Place} {node : Node}
    (hc : t.current = u.current)
    (hd : ∀ r, u.node? r = some .directory → t.node? r = some .directory)
    (hf : u.find p = .ok (q, node)) (hq : u.node? q = t.node? q) : t.find p = .ok (q, node) := by
  obtain ⟨hcheck, hw, hn, hs⟩ := of_find hf
  have hstart : t.start p = u.start p := by rw [start, start, hc]
  refine find_of_walk hcheck ?_ (hq ▸ hn) hs
  rw [hstart]
  exact walk_of_directories hd hw hq

namespace Beside

variable {t u : FileTree} {p : Path} {q : Place}

/-- What is found afterwards, and not changed, was found before. -/
theorem find_eq (h : Beside t u) {node : Node} (hf : u.find p = .ok (q, node))
    (hq : u.node? q = t.node? q) : t.find p = .ok (q, node) :=
  find_of_directories h.current.symm (fun _ hr => h.directory hr) hf hq

theorem find_directory (h : Beside t u) (hf : u.find p = .ok (q, .directory)) :
    t.find p = .ok (q, .directory) := by
  have hn := (of_find hf).2.2.1
  exact h.find_eq hf (hn.trans (h.directory hn).symm)

/-- A file whose name is not a JSON name is found as before. -/
theorem find_join (h : Beside t u) {name : String} (hname : IsName name) (hj : ¬ IsJsonName name)
    {node : Node} (hf : u.find (p.join name) = .ok (q, node)) :
    t.find (p.join name) = .ok (q, node) := by
  have hw := (of_find hf).2.1
  rw [Path.stepsOf_join p hname.nonempty hname.slash] at hw
  obtain ⟨b, -, he, -⟩ := walk_snoc hw
  obtain ⟨-, rfl⟩ := isName_of_enter hname.toIsPlain he
  refine h.find_eq hf ?_
  rcases h.node (b ++ [name]) with heq | ⟨-, -, other, hlast, hother⟩
  · exact heq
  · obtain rfl : name = other := by simpa using hlast
    exact absurd hother hj

end Beside

end RelayKeeper.FileTree
