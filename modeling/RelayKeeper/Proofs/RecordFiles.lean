import Mathlib.Data.List.Infix
import RelayKeeper.Proofs.RecordPlace
import RelayKeeper.Proofs.TreeBeside

/-! # The files of the record

What reading and writing the files of the record does, and the consumers that a directory of bags
shows. A directory of bags shows a map from ids to bags if each bag has its file and nothing else in
the directory counts as a consumer. -/
namespace RelayKeeper.Record

/-- An id that is one name in a directory and leads nowhere else. -/
def IsSafeId (id : String) : Prop :=
  id ≠ "" ∧ '/' ∉ id.toList ∧ '\\' ∉ id.toList ∧ '\x00' ∉ id.toList ∧
    ¬ ['.', '.'] <:+: id.toList

instance (id : String) : Decidable (IsSafeId id) :=
  inferInstanceAs (Decidable (_ ∧ _))

def FitsName (id : String) : Prop :=
  (id ++ ".json").utf8ByteSize ≤ FileTree.longestName

instance (id : String) : Decidable (FitsName id) :=
  inferInstanceAs (Decidable (_ ≤ _))

def Stored (t : FileTree) (q : Place) : Option Json → Prop
  | none => t.node? q = none
  | some value => ∃ mode, t.node? q = some (.file (written value) mode)

namespace Stored

variable {t u : FileTree} {q : Place}

theorem not_directory {value : Option Json} (h : Stored t q value) :
    t.node? q ≠ some .directory := by
  intro hd
  cases value with
  | none =>
    have hn : t.node? q = none := h
    simp [hd] at hn
  | some value =>
    obtain ⟨mode, hn⟩ := h
    simp [hd] at hn

theorem isSome_node {value : Option Json} (h : Stored t q value) :
    (t.node? q).isSome = value.isSome := by
  cases value with
  | none =>
    have hn : t.node? q = none := h
    rw [hn]
    rfl
  | some value =>
    obtain ⟨mode, hn⟩ := h
    rw [hn]
    rfl

theorem congr {value : Option Json} (h : Stored t q value) (hn : u.node? q = t.node? q) :
    Stored u q value := by
  unfold Stored at h ⊢
  rwa [hn]

end Stored

abbrev Bags := Std.ExtTreeMap String Bag

theorem contains_iff (cs piece : List Char) (hne : piece ≠ []) :
    Text.contains cs piece = true ↔ piece <:+: cs := by
  induction cs with
  | nil => simp [Text.contains, hne]
  | cons c cs ih => simp [Text.contains, ih, List.infix_cons_iff]

namespace Store

open FileTree (IsPlain IsName IsJsonName Beside Rooted Points Finds)

variable {s : Store} {t u : FileTree} {p : Path} {place q : Place} {name id : String}

theorem isValidId_iff (id : String) : isValidId id = true ↔ IsSafeId id := by
  have hd := contains_iff id.toList ['.', '.'] (by simp)
  have hd' : Text.contains id.toList ['.', '.'] = false ↔ ¬ ['.', '.'] <:+: id.toList := by
    rw [← hd, Bool.not_eq_true]
  simp [isValidId, IsSafeId, hd', and_assoc]

theorem bagPath_of_safe (s : Store) (h : IsSafeId id) :
    s.bagPath id = .ok (s.relationsPath.join (bagName id)) := by
  rw [bagPath, if_pos ((isValidId_iff id).mpr h)]
  rfl

theorem bagPath_of_not_safe (s : Store) (h : ¬ IsSafeId id) :
    s.bagPath id = .error (.invalidId id) := by
  rw [bagPath, if_neg (mt (isValidId_iff id).mp h)]

theorem toList_bagName (id : String) : (bagName id).toList = id.toList ++ ".json".toList := by
  simp [bagName]

theorem isPlain_bagName (hs : IsSafeId id) : IsPlain (bagName id) := by
  obtain ⟨hne, hslash, -, hnul, -⟩ := hs
  have hl : ∀ short : String, short.toList.length ≤ 5 → id.toList ≠ [] → bagName id ≠ short := by
    intro short hshort hid heq
    have hlen := congrArg (fun n : String => n.toList.length) heq
    have hpos := List.length_pos_iff.mpr hid
    have hfive : (".json" : String).toList.length = 5 := rfl
    simp only [toList_bagName, List.length_append, hfive] at hlen
    omega
  have hid : id.toList ≠ [] := by simpa using hne
  have hmem : ∀ c : Char, c ∉ id.toList → c ∉ (".json" : String).toList →
      c ∉ (bagName id).toList := by
    intro c h h'
    rw [toList_bagName, List.mem_append]
    exact not_or.mpr ⟨h, h'⟩
  exact ⟨hl "" (by decide) hid, hmem '/' hslash (by decide), hmem '\x00' hnul (by decide),
    hl "." (by decide) hid, hl ".." (by decide) hid⟩

theorem isName_bagName (hs : IsSafeId id) (hf : FitsName id) : IsName (bagName id) :=
  ⟨isPlain_bagName hs, hf⟩

theorem bagName_injective {id other : String} (h : bagName id = bagName other) : id = other := by
  have hl := congrArg String.toList h
  rw [toList_bagName, toList_bagName] at hl
  exact String.toList_injective (List.append_cancel_right hl)

/-! ## Reading -/

theorem readJson_of_finds {decode : Json → Option α} {encode : α → Json} {value : Option α}
    (h : Finds t p q) (hr : ReadsBack decode encode) (hs : Stored t q (value.map encode)) :
    readJson decode p t = .ok value := by
  cases value with
  | none =>
    have hn : t.node? q = none := hs
    rw [Finds, hn] at h
    rw [readJson, FileTree.readText_of_missing h]
  | some value =>
    obtain ⟨mode, hn⟩ := hs
    rw [Finds, hn] at h
    rw [readJson, FileTree.readText_of_file h (fromUTF8_toUTF8 _)]
    simp only [hr.parse]

/-! ## Writing -/

theorem writeJson_eq (value : Json) (hm : makeParent p t = (.ok (), u))
    (hp : Points u p place name) (hd : u.node? (place ++ [name]) ≠ some .directory) :
    ∃ mode, writeJson p value t =
      (.ok (), u.put (place ++ [name]) (.file (written value) mode)) := by
  obtain ⟨mode, hw⟩ := hp.write_eq (written value) hd
  refine ⟨mode, ?_⟩
  have hw' : u.writeText p (String.ofList value.pretty) =
      .ok (u.put (place ++ [name]) (.file (written value) mode)) := hw
  simp only [writeJson, hm, hw']

theorem directory_put_file {content : ByteArray} {mode : Nat} (hq : q ≠ [])
    (hd : t.node? q ≠ some .directory) {r : Place} (hr : t.node? r = some .directory) :
    (t.put q (.file content mode)).node? r = some .directory := by
  have hne : r ≠ q := by
    rintro rfl
    exact hd hr
  rw [FileTree.node?_put_of_ne hq _ hne, hr]

theorem rooted_put_file {content : ByteArray} {mode : Nat} (h : Rooted t p place) (hq : q ≠ [])
    (hd : t.node? q ≠ some .directory) : Rooted (t.put q (.file content mode)) p place :=
  h.mono rfl fun _ hr => directory_put_file hq hd hr

theorem writeJson_of_directory (value : Json) (hm : makeParent p t = (.ok (), u))
    (hp : Points u p place name) (hd : u.node? (place ++ [name]) = some .directory) :
    writeJson p value t = (.error (.io p .isDirectory), u) := by
  have hw : u.writeText p (String.ofList value.pretty) = .error .isDirectory :=
    hp.write_of_directory _ hd
  simp only [writeJson, hm, hw]

structure WritesFile (s : Store) (t u : FileTree) (place : Place) (name : String) : Prop where
  lies : s.Lies u place
  rest : ∀ below, below ≠ [] → below ≠ [name] → u.node? (place ++ below) = t.node? (place ++ below)
  beside : IsJsonName name → Rooted t s.root place → Beside t u

theorem Lies.writeJson_eq (h : s.Lies t place) (hn : IsName name) (value : Json) :
    ∃ r u, writeJson (s.root.join name) value t = (r, u) ∧ WritesFile s t u place name ∧
      (t.node? (place ++ [name]) ≠ some .directory →
        r = .ok () ∧ Stored u (place ++ [name]) (some value)) := by
  obtain ⟨u, hmade, hr, hsame⟩ := h.makeParent_top hn.toIsPlain
  have hmake : Rooted t s.root place → u = t := by
    intro hroot
    rw [makeParent_of_rooted hn.toIsPlain hroot] at hmade
    exact (Prod.mk.inj hmade).2.symm
  by_cases hd : u.node? (place ++ [name]) = some .directory
  · refine ⟨_, u, writeJson_of_directory value hmade (hr.points hn) hd, ⟨.of_rooted hr, ?_, ?_⟩, ?_⟩
    · intro below hne _
      exact hsame below hne
    · intro _ hroot
      rw [hmake hroot]
      exact .refl t
    · intro hfree
      rw [hsame [name] (by simp)] at hd
      exact absurd hd hfree
  · obtain ⟨mode, hw⟩ := Store.writeJson_eq value hmade (hr.points hn) hd
    refine ⟨_, _, hw, ⟨.of_rooted (rooted_put_file hr (by simp) hd), ?_, ?_⟩, ?_⟩
    · intro below hne hother
      have hplace : place ++ below ≠ place ++ [name] := fun heq =>
        hother (List.append_cancel_left heq)
      rw [FileTree.node?_put_of_ne (by simp) _ hplace, hsame below hne]
    · intro hjson hroot
      obtain rfl := hmake hroot
      exact .put hd hjson
    · intro _
      exact ⟨rfl, mode, FileTree.node?_put_self (by simp) _⟩

end Store

end RelayKeeper.Record
