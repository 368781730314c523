import RelayKeeper.Proofs.Publishing
import RelayKeeper.Proofs.RecordWrites
import RelayKeeper.Proofs.TreePairs

/-! # A record whose root is there

Where the root of a store is a directory, its status and its ports are written in place and nothing
else changes, and what stands below the root tells the ports and the consumers. -/
namespace RelayKeeper

namespace FileTree

variable {t u : FileTree} {p : Path} {place : Place}

theorem Beside.symm (h : Beside t u) : Beside u t where
  current := h.current.symm
  node q := by
    rcases h.node q with heq | ⟨ht, hu, hname⟩
    · exact .inl heq.symm
    · exact .inr ⟨hu, ht, hname⟩

theorem Rooted.eq_placeOf (h : Rooted t p place) : place = placeOf t.current p :=
  placeOf_walk h.walk_eq

end FileTree

namespace Record

open FileTree (Beside IsJsonName IsName Rooted placeOf)

/-- At most the file of one name has been written, in a directory, and it keeps its mode. -/
structure Rewrites (t u : FileTree) (place : Place) (name : String) : Prop where
  current : u.current = t.current
  directory : ∀ q, t.node? q = some .directory → u.node? q = some .directory
  rest : ∀ q, q ≠ place ++ [name] → u.node? q = t.node? q
  mode : ∀ old mode, t.node? (place ++ [name]) = some (.file old mode) →
    ∃ content, u.node? (place ++ [name]) = some (.file content mode)
  beside : IsJsonName name → Beside t u

namespace Rewrites

variable {t u : FileTree} {place : Place} {name : String} {p : Path} {root : Place}

theorem refl (t : FileTree) (place : Place) (name : String) : Rewrites t t place name :=
  ⟨rfl, fun _ => id, fun _ _ => rfl, fun old _ h => ⟨old, h⟩, fun _ => .refl t⟩

theorem put {content : ByteArray} {mode : Nat} (hd : t.node? (place ++ [name]) ≠ some .directory)
    (hmode : ∀ old m, t.node? (place ++ [name]) = some (.file old m) → mode = m) :
    Rewrites t (t.put (place ++ [name]) (.file content mode)) place name where
  current := rfl
  directory _ hq := Store.directory_put_file (by simp) hd hq
  rest _ hq := FileTree.node?_put_of_ne (by simp) _ hq
  mode old m h := ⟨content, by rw [FileTree.node?_put_self (by simp), hmode old m h]⟩
  beside hj := .put hd hj

theorem rooted (h : Rewrites t u place name) (hr : Rooted t p root) : Rooted u p root :=
  hr.mono h.current h.directory

end Rewrites

namespace Store

variable {s : Store} {t u : FileTree} {place q : Place} {name id : String} {mode : Nat} {bag : Bag}
  {port : UInt16}

/-- Writing a file of the record either fails and changes nothing, or puts the file there. -/
theorem writeJson_rooted (hr : Rooted t s.root place) (hn : IsName name) (value : Json) :
    Rewrites t (writeJson (s.root.join name) value t).2 place name ∧
      ((writeJson (s.root.join name) value t).1 = .ok () → ∃ mode,
        (writeJson (s.root.join name) value t).2.node? (place ++ [name]) =
          some (.file (written value) mode)) := by
  have hmade := makeParent_of_rooted hn.toIsPlain hr
  have hpoints := hr.points hn
  cases hnode : t.node? (place ++ [name]) with
  | none =>
    have hd : t.node? (place ++ [name]) ≠ some .directory := by simp [hnode]
    obtain ⟨mode, hw⟩ := writeJson_eq value hmade hpoints hd
    rw [hw]
    refine ⟨.put hd fun old m h => ?_, fun _ => ⟨mode, FileTree.node?_put_self (by simp) _⟩⟩
    rw [hnode] at h
    cases h
  | some node =>
    cases node with
    | directory =>
      rw [writeJson_of_directory value hmade hpoints hnode]
      exact ⟨.refl t place name, nofun⟩
    | file old mode =>
      have hd : t.node? (place ++ [name]) ≠ some .directory := by simp [hnode]
      rw [writeJson_of_write hmade (hpoints.write_of_file hnode (written value))]
      refine ⟨.put hd fun old' m h => ?_, fun _ => ⟨mode, FileTree.node?_put_self (by simp) _⟩⟩
      rw [hnode] at h
      cases h
      rfl

theorem current_of_setStatus {status : Status} (h : s.setStatus status t = (.ok (), u)) :
    u.current = t.current := by
  have hcurrent := current_writeJson s.statusPath status.toJson t
  have hset : writeJson s.statusPath status.toJson t = (.ok (), u) := h
  rwa [hset] at hcurrent

/-- Setting the status puts the root there, if it was not. -/
theorem rooted_of_setStatus {status : Status} (h : s.setStatus status t = (.ok (), u)) :
    Rooted u s.root (placeOf t.current s.root) := by
  have hset : writeJson (s.root.join "status.json") status.toJson t = (.ok (), u) := h
  obtain ⟨made, -, -, ⟨fault, hw⟩ | ⟨place, mode, -, hr, hd, hw⟩⟩ :=
    writeJson_cases (r := s.root) isName_status.toIsPlain status.toJson t
  · rw [hset] at hw
    cases hw
  · have hput := (Prod.mk.inj (hset.symm.trans hw)).2
    have hrooted : Rooted u s.root place := hput ▸ rooted_put_file hr (by simp) hd
    have hplace := hrooted.eq_placeOf
    rw [current_of_setStatus h] at hplace
    exact hplace ▸ hrooted

/-- Where the root is there, setting the status writes its file. -/
theorem rewrites_of_setStatus {status : Status} (hr : Rooted t s.root place)
    (h : s.setStatus status t = (.ok (), u)) :
    Rewrites t u place "status.json" ∧
      ∃ mode, u.node? (place ++ ["status.json"]) =
        some (.file (written status.toJson) mode) := by
  obtain ⟨hwrites, hput⟩ := writeJson_rooted hr isName_status status.toJson
  have hset : writeJson (s.root.join "status.json") status.toJson t = (.ok (), u) := h
  rw [hset] at hwrites hput
  exact ⟨hwrites, hput rfl⟩

/-! ## Ports -/

def Opened (s : Store) (port : UInt16) (t : FileTree) : Prop :=
  ∃ ports, s.openedPorts t = .ok ports ∧ port ∈ ports

theorem Opened.openPort_eq (h : Opened s port t) : s.openPort port t = (.ok (), t) := by
  obtain ⟨ports, hports, hm⟩ := h
  rw [openPort_of_ports hports, if_pos hm]

theorem Opened.congr (h : Opened s port t) (hr : Rooted t s.root place)
    (hu : Rooted u s.root place)
    (hnode : u.node? (place ++ ["ports.json"]) = t.node? (place ++ ["ports.json"])) :
    Opened s port u := by
  have hfind : u.find s.portsPath = t.find s.portsPath := by
    have hfound := (hr.points isName_ports).finds
    have hfound' := (hu.points isName_ports).finds
    rw [FileTree.Finds] at hfound hfound'
    rw [portsPath, hfound, hfound', hnode]
  have hsame : s.openedPorts u = s.openedPorts t := by
    unfold openedPorts readJson FileTree.readText FileTree.read
    rw [hfind]
  obtain ⟨ports, hports, hm⟩ := h
  exact ⟨ports, hsame.trans hports, hm⟩

/-- Opening a port writes at most the file of the ports, which has the port then. -/
theorem openPort_rooted (hr : Rooted t s.root place) (port : UInt16) :
    Rewrites t (s.openPort port t).2 place "ports.json" ∧
      ((s.openPort port t).1 = .ok () → Opened s port (s.openPort port t).2) := by
  cases hports : s.openedPorts t with
  | error error =>
    have hopen : s.openPort port t = (.error error, t) := by
      delta openPort
      rw [hports]
    rw [hopen]
    exact ⟨.refl .., nofun⟩
  | ok ports =>
    by_cases hm : port ∈ ports
    · have hopened : Opened s port t := ⟨ports, hports, hm⟩
      rw [hopened.openPort_eq]
      exact ⟨.refl .., fun _ => hopened⟩
    · obtain ⟨hwrites, hput⟩ :=
        writeJson_rooted hr isName_ports (Ports.toJson (ports.insert port))
      rw [openPort_of_ports hports, if_neg hm]
      refine ⟨hwrites, fun hok => ?_⟩
      have hstored : Stored (writeJson s.portsPath (Ports.toJson (ports.insert port)) t).2
          (place ++ ["ports.json"]) ((some (ports.insert port)).map Ports.toJson) := hput hok
      have hread := readJson_of_finds ((hwrites.rooted hr).points isName_ports).finds
        Ports.readsBack hstored
      refine ⟨ports.insert port, ?_, by simp⟩
      rw [openedPorts, portsPath, hread]
      rfl

/-! ## Consumers -/

/-- What stands below the root tells which consumers can be told. -/
theorem tellable_of_rooted (hr : Rooted t s.root place) : Tellable s t id q mode bag ↔
    IsSafeId id ∧ IsName (bagName id) ∧ t.node? (bagsPlace place) = some .directory ∧
      q = bagsPlace place ++ [bagName id] ∧
      ∃ content, t.node? q = some (.file content mode) ∧ HoldsBag content bag := by
  have hfinds := (hr.points isName_bags).finds
  rw [tellable_iff]
  constructor
  · rintro ⟨hs, hname, directory, content, hdirectory, rfl, hnode, hbag⟩
    have hfind : t.find s.relationsPath = _ := hfinds
    rw [hdirectory] at hfind
    split at hfind
    · next node hd =>
      obtain ⟨rfl, rfl⟩ := Prod.mk.inj (Except.ok.inj hfind)
      exact ⟨hs, hname, hd, rfl, content, hnode, hbag⟩
    · cases hfind
  · rintro ⟨hs, hname, hd, rfl, content, hnode, hbag⟩
    have hfind : t.find s.relationsPath = .ok (bagsPlace place, .directory) := by
      have hfound : t.find s.relationsPath = _ := hfinds
      rw [hfound]
      have hd' : t.node? (place ++ [bagsName]) = some .directory := hd
      rw [hd']
      rfl
    exact ⟨hs, hname, _, content, hfind, rfl, hnode, hbag⟩

theorem not_bags_top (place : Place) {name : String} (hn : name ≠ bagsName) :
    ¬ bagsPlace place <+: place ++ [name] := by
  intro h
  rw [bagsPlace, List.prefix_append_right_inj] at h
  exact hn (List.cons_prefix_cons.mp h).1.symm

theorem tellable_congr_rooted (hr : Rooted t s.root place) (hu : Rooted u s.root place)
    (hnode : ∀ below, u.node? (bagsPlace place ++ below) = t.node? (bagsPlace place ++ below)) :
    Tellable s u id q mode bag ↔ Tellable s t id q mode bag := by
  rw [tellable_of_rooted hr, tellable_of_rooted hu]
  have hd := hnode []
  rw [List.append_nil] at hd
  rw [hd]
  constructor
  · rintro ⟨hs, hname, hd, rfl, hfile⟩
    rw [hnode] at hfile
    exact ⟨hs, hname, hd, rfl, hfile⟩
  · rintro ⟨hs, hname, hd, rfl, hfile⟩
    rw [← hnode] at hfile
    exact ⟨hs, hname, hd, rfl, hfile⟩

end Store

end Record

namespace Relay

open FileTree (Beside Rooted)
open Record (Bag Store)

variable {s : Store} {t u : FileTree} {data : Bag} {told : List String} {place : Place}

/-- Telling consumers changes no other file. -/
theorem Published.beside (h : Published s data t u told) : Beside t u where
  current := h.directories.current
  node q := by
    by_cases hq : ∃ id mode bag, Store.Tellable s t id q mode bag
    · obtain ⟨id, mode, bag, htellable⟩ := hq
      have hfile := h.files id q mode bag htellable
      obtain ⟨-, -, directory, content, -, rfl, hnode, -⟩ := Store.tellable_iff.mp htellable
      refine .inr ⟨by simp [hnode], by simp [hfile], Store.bagName id, by simp, ?_⟩
      exact Store.isJsonName_bagName id
    · exact .inl (h.rest q fun id mode bag htellable => hq ⟨id, mode, bag, htellable⟩)

theorem Published.rooted (h : Published s data t u told) (hr : Rooted t s.root place) :
    Rooted u s.root place :=
  hr.mono h.directories.current fun q hq => (h.directories.directory q).mpr hq

/-- Only files below the directory of bags have changed. -/
theorem Published.node_eq (h : Published s data t u told) (hr : Rooted t s.root place) {q : Place}
    (hq : ¬ Store.bagsPlace place <+: q) : u.node? q = t.node? q := by
  refine h.rest q fun id mode bag htellable => hq ?_
  obtain ⟨-, -, -, rfl, -⟩ := (Store.tellable_of_rooted hr).mp htellable
  exact List.prefix_append _ _

end Relay

end RelayKeeper
