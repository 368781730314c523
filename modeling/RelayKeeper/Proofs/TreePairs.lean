import RelayKeeper.Proofs.RecordFiles
import RelayKeeper.Proofs.TreeAdditions

/-! # Two trees that agree but for some places

A path whose steps lead through none of the hidden places is found, written and made in the same way
in both trees, and they go on agreeing. So the files of the record that lie elsewhere do not tell the
trees apart. -/
namespace RelayKeeper.FileTree

def stepTo (a : Place) (name : String) : Place :=
  if name = "." then a else if name = ".." then a.dropLast else a ++ [name]

def startOf (current : Place) (p : Path) : Place :=
  if p.isAbsolute then [] else current

def placeOf (current : Place) (p : Path) : Place :=
  (stepsOf p).foldl stepTo (startOf current p)

/-- The steps lead through none of the hidden places. -/
def Avoids (hidden : Place → Prop) : Place → List String → Prop
  | a, [] => ¬ hidden a
  | a, name :: names => ¬ hidden a ∧ Avoids hidden (stepTo a name) names

instance decidableAvoids (hidden : Place → Prop) [DecidablePred hidden] :
    (a : Place) → (names : List String) → Decidable (Avoids hidden a names)
  | a, [] => inferInstanceAs (Decidable (¬ hidden a))
  | a, name :: names =>
    have := decidableAvoids hidden (stepTo a name) names
    inferInstanceAs (Decidable (¬ hidden a ∧ Avoids hidden (stepTo a name) names))

structure PathAvoids (hidden : Place → Prop) (current : Place) (p : Path) : Prop where
  steps : Avoids hidden (startOf current p) (stepsOf p)

instance (hidden : Place → Prop) [DecidablePred hidden] (current : Place) (p : Path) :
    Decidable (PathAvoids hidden current p) :=
  have := decidableAvoids hidden (startOf current p) (stepsOf p)
  decidable_of_iff (Avoids hidden (startOf current p) (stepsOf p)) ⟨.mk, PathAvoids.steps⟩

structure AgreeBut (hidden : Place → Prop) (t u : FileTree) : Prop where
  current : t.current = u.current
  node : ∀ q, ¬ hidden q → t.node? q = u.node? q

section steps

variable {hidden : Place → Prop} {t u : FileTree} {a b : Place} {name : String}
  {names more : List String}

theorem stepTo_of_enter (h : t.enter a name = .ok b) : b = stepTo a name := by
  obtain ⟨-, ⟨rfl, rfl⟩ | ⟨rfl, rfl⟩ | ⟨hdot, hdots, -, rfl⟩⟩ := of_enter h
  · rfl
  · rfl
  · rw [stepTo, if_neg hdot, if_neg hdots]

theorem placeOf_walk (h : t.walk a names = .ok b) : b = names.foldl stepTo a := by
  induction names generalizing a with
  | nil => exact (Except.ok.inj h).symm
  | cons name names ih =>
    obtain ⟨c, he, -, hw⟩ := of_walk_cons h
    obtain rfl := stepTo_of_enter he
    exact ih hw

namespace Avoids

theorem head (h : Avoids hidden a names) : ¬ hidden a := by
  cases names with
  | nil => exact h
  | cons name names => exact h.1

theorem last (h : Avoids hidden a names) : ¬ hidden (names.foldl stepTo a) := by
  induction names generalizing a with
  | nil => exact h
  | cons name names ih => exact ih h.2

theorem of_prefix (h : Avoids hidden a names) (hp : more <+: names) : Avoids hidden a more := by
  induction more generalizing a names with
  | nil => exact h.head
  | cons m more ih =>
    obtain ⟨rest, rfl⟩ := hp
    exact ⟨h.1, ih h.2 ⟨rest, rfl⟩⟩

/-- Steps that stay in place do not matter. -/
theorem iff_filter : Avoids hidden a names ↔ Avoids hidden a (names.filter (· ≠ ".")) := by
  induction names generalizing a with
  | nil => exact Iff.rfl
  | cons name names ih =>
    by_cases hdot : name = "."
    · have hstep : stepTo a name = a := if_pos hdot
      rw [List.filter_cons_of_neg (by simpa using hdot), ← ih, Avoids, hstep]
      exact ⟨fun h => h.2, fun h => ⟨h.head, h⟩⟩
    · rw [List.filter_cons_of_pos (by simpa using hdot), Avoids, Avoids, ih]

end Avoids

theorem PathAvoids.iff_names {current : Place} {p : Path} :
    PathAvoids hidden current p ↔ Avoids hidden (startOf current p) p.names := by
  rw [Path.names, ← Avoids.iff_filter]
  exact ⟨PathAvoids.steps, .mk⟩

end steps

namespace AgreeBut

variable {hidden : Place → Prop} {t u v : FileTree} {a q : Place} {names : List String} {p : Path}

theorem refl (t : FileTree) : AgreeBut hidden t t :=
  ⟨rfl, fun _ _ => rfl⟩

theorem symm (h : AgreeBut hidden t u) : AgreeBut hidden u t :=
  ⟨h.current.symm, fun q hq => (h.node q hq).symm⟩

theorem trans (h : AgreeBut hidden t u) (k : AgreeBut hidden u v) : AgreeBut hidden t v :=
  ⟨h.current.trans k.current, fun q hq => (h.node q hq).trans (k.node q hq)⟩

theorem put (h : AgreeBut hidden t u) (hq : q ≠ []) (node : Node) :
    AgreeBut hidden (t.put q node) (u.put q node) := by
  refine ⟨h.current, fun r hr => ?_⟩
  rw [node?_put hq, node?_put hq, h.node r hr]

theorem put_hidden (t : FileTree) (hne : q ≠ []) (hq : hidden q) (node : Node) :
    AgreeBut hidden t (t.put q node) := by
  refine ⟨rfl, fun r hr => ?_⟩
  have hother : r ≠ q := by
    rintro rfl
    exact hr hq
  rw [node?_put_of_ne hne _ hother]

theorem start_eq (h : AgreeBut hidden t u) (p : Path) : t.start p = u.start p := by
  rw [start, start, h.current]

theorem enter_eq (h : AgreeBut hidden t u) (ha : ¬ hidden a) (name : String) :
    t.enter a name = u.enter a name := by
  rw [enter, enter, h.node a ha]

theorem walk_eq (h : AgreeBut hidden t u) (ha : Avoids hidden a names) :
    t.walk a names = u.walk a names := by
  induction names generalizing a with
  | nil => rfl
  | cons name names ih =>
    have henter := h.enter_eq ha.1 name
    cases he : u.enter a name with
    | error fault =>
      rw [walk, walk, henter, he]
      rfl
    | ok b =>
      obtain rfl := stepTo_of_enter he
      rw [he] at henter
      rw [walk_cons he, walk_cons henter, h.node _ ha.2.head, ih ha.2]

theorem node_walk (h : AgreeBut hidden t u) (ha : Avoids hidden a names)
    (hw : u.walk a names = .ok q) : t.node? q = u.node? q := by
  obtain rfl := placeOf_walk hw
  exact h.node _ ha.last

theorem find_eq (h : AgreeBut hidden t u) (hp : PathAvoids hidden t.current p) :
    t.find p = u.find p := by
  have hwalk : t.walk (t.start p) (stepsOf p) = u.walk (u.start p) (stepsOf p) := by
    rw [← h.start_eq]
    exact h.walk_eq hp.steps
  unfold find
  rw [hwalk]
  cases hw : u.walk (u.start p) (stepsOf p) with
  | error fault => rfl
  | ok q =>
    have hnode : t.node? q = u.node? q := by
      rw [← h.start_eq] at hw
      exact h.node_walk hp.steps hw
    simp only [bind, Except.bind, hnode]

/-- Where a path ends does not matter to what leads there. -/
theorem findParent_eq_of_front (h : AgreeBut hidden t u)
    (hfront : Avoids hidden (startOf t.current p) (stepsOf p).dropLast) :
    t.findParent p = u.findParent p := by
  have hwalk : t.walk (t.start p) (stepsOf p).dropLast =
      u.walk (u.start p) (stepsOf p).dropLast := by
    rw [← h.start_eq]
    exact h.walk_eq hfront
  simp only [findParent, hwalk]
  cases (stepsOf p).getLast? with
  | none => rfl
  | some last =>
    cases hw : u.walk (u.start p) (stepsOf p).dropLast with
    | error fault => rfl
    | ok q =>
      have hq : ¬ hidden q := by
        rw [← h.start_eq] at hw
        obtain rfl := placeOf_walk hw
        exact hfront.last
      simp only [bind, Except.bind, h.enter_eq hq]

theorem findParent_eq (h : AgreeBut hidden t u) (hp : PathAvoids hidden t.current p) :
    t.findParent p = u.findParent p :=
  h.findParent_eq_of_front (hp.steps.of_prefix (List.dropLast_prefix _))

/-- What a path ends in stands in both trees, or in neither. -/
theorem node_findParent (h : AgreeBut hidden t u) {place : Place} {name : String}
    (hp : PathAvoids hidden t.current p) (hf : u.findParent p = .ok (some (place, name))) :
    t.node? (place ++ [name]) = u.node? (place ++ [name]) := by
  rw [← h.findParent_eq hp] at hf
  obtain ⟨-, henter, steps, hs, hw⟩ := of_findParent hf
  have hends := hp.steps.last
  rw [hs, List.foldl_append, List.foldl_cons, List.foldl_nil] at hends
  obtain rfl := placeOf_walk hw
  rw [stepTo_of_enter henter]
  exact h.node _ hends

/-- Both trees answer alike, and agree afterwards as before. -/
def SameOutcome (hidden : Place → Prop) (x y : Except ε α × FileTree) : Prop :=
  x.1 = y.1 ∧ AgreeBut hidden x.2 y.2

theorem SameOutcome.parts {ε α : Type} {x y : Except ε α × FileTree} (h : SameOutcome hidden x y) :
    ∃ r t u, x = (r, t) ∧ y = (r, u) ∧ AgreeBut hidden t u :=
  ⟨x.1, x.2, y.2, rfl, Prod.ext h.1.symm rfl, h.2⟩

theorem write_eq (h : AgreeBut hidden t u) (hp : PathAvoids hidden t.current p)
    (content : ByteArray) :
    (∃ fault, t.write p content = .error fault ∧ u.write p content = .error fault) ∨
      ∃ t' u', t.write p content = .ok t' ∧ u.write p content = .ok u' ∧ AgreeBut hidden t' u' := by
  unfold write
  rw [h.findParent_eq hp]
  cases hf : u.findParent p with
  | error fault => exact .inl ⟨fault, rfl, rfl⟩
  | ok parent =>
    cases parent with
    | none => exact .inl ⟨_, rfl, rfl⟩
    | some found =>
      obtain ⟨place, name⟩ := found
      have hnode := h.node_findParent hp hf
      simp only [bind, Except.bind, hnode]
      by_cases hs : endsInSlash p = true
      · rw [if_pos hs, if_pos hs]
        exact .inl ⟨_, rfl, rfl⟩
      · rw [if_neg hs, if_neg hs]
        cases u.node? (place ++ [name]) with
        | none => exact .inr ⟨_, _, rfl, rfl, h.put (by simp) _⟩
        | some node =>
          cases node with
          | file old mode => exact .inr ⟨_, _, rfl, rfl, h.put (by simp) _⟩
          | directory => exact .inl ⟨_, rfl, rfl⟩

theorem makeDirectory_eq (h : AgreeBut hidden t u) (hp : PathAvoids hidden t.current p) :
    (∃ fault, t.makeDirectory p = .error fault ∧ u.makeDirectory p = .error fault) ∨
      ∃ t' u', t.makeDirectory p = .ok t' ∧ u.makeDirectory p = .ok u' ∧
        AgreeBut hidden t' u' := by
  unfold makeDirectory
  rw [h.findParent_eq hp]
  cases hf : u.findParent p with
  | error fault => exact .inl ⟨fault, rfl, rfl⟩
  | ok parent =>
    cases parent with
    | none => exact .inl ⟨_, rfl, rfl⟩
    | some found =>
      obtain ⟨place, name⟩ := found
      have hnode := h.node_findParent hp hf
      simp only [bind, Except.bind, hnode]
      by_cases hs : (u.node? (place ++ [name])).isSome = true
      · rw [if_pos hs, if_pos hs]
        exact .inl ⟨_, rfl, rfl⟩
      · rw [if_neg hs, if_neg hs]
        exact .inr ⟨_, _, rfl, rfl, h.put (by simp) _⟩

theorem isDirectory_eq (h : AgreeBut hidden t u) (hp : PathAvoids hidden t.current p) :
    t.isDirectory p = u.isDirectory p := by
  rw [isDirectory, isDirectory, h.find_eq hp]

/-- A directory that cannot be made has to be there. -/
theorem sameOutcome_there (h : AgreeBut hidden t u) (hp : PathAvoids hidden t.current p)
    (fault : Fault) :
    SameOutcome hidden (if t.isDirectory p then Except.ok () else .error fault, t)
      (if u.isDirectory p then .ok () else .error fault, u) := by
  refine ⟨?_, h⟩
  dsimp only
  rw [h.isDirectory_eq hp]

theorem makeChain_eq {ps : List Path} (h : AgreeBut hidden t u)
    (hps : ∀ p ∈ ps, PathAvoids hidden t.current p) :
    SameOutcome hidden (t.makeChain ps) (u.makeChain ps) := by
  induction ps with
  | nil => exact ⟨rfl, h⟩
  | cons p above ih =>
    have hp := hps p (by simp)
    have habove := ih fun q hq => hps q (List.mem_cons_of_mem _ hq)
    have hcurrent := (grows_makeChain t above).current
    rw [makeChain, makeChain]
    by_cases hc : p.chars.isEmpty = true
    · rw [if_pos hc, if_pos hc]
      exact ⟨rfl, h⟩
    · rw [if_neg hc, if_neg hc]
      rcases h.makeDirectory_eq hp with ⟨fault, ht, hu⟩ | ⟨t', u', ht, hu, hmade⟩
      · rw [ht, hu]
        by_cases hmissing : fault = .notFound
        · subst hmissing
          obtain ⟨r, t', u', htc, huc, hafter⟩ := habove.parts
          rw [htc] at hcurrent
          rw [htc, huc]
          cases r with
          | error fault => exact ⟨rfl, hafter⟩
          | ok _ =>
            have hp' : PathAvoids hidden t'.current p := by
              rw [hcurrent]
              exact hp
            dsimp only
            rcases hafter.makeDirectory_eq hp' with ⟨fault, ht, hu⟩ | ⟨t'', u'', ht, hu, hmade⟩
            · rw [ht, hu]
              exact hafter.sameOutcome_there hp' fault
            · rw [ht, hu]
              exact ⟨rfl, hmade⟩
        · cases fault with
          | notFound => exact absurd rfl hmissing
          | _ => exact h.sameOutcome_there hp _
      · rw [ht, hu]
        exact ⟨rfl, hmade⟩

theorem pathAvoids_of_mem_parents {current : Place} {q : Path} (hp : PathAvoids hidden current p)
    (hq : q ∈ p.parents) : PathAvoids hidden current q := by
  obtain ⟨habsolute, hnames⟩ := Path.of_mem_parents hq
  have hstart : startOf current q = startOf current p := by rw [startOf, startOf, habsolute]
  rw [PathAvoids.iff_names] at hp ⊢
  rw [hstart]
  exact hp.of_prefix hnames

theorem makeDirectories_eq (h : AgreeBut hidden t u) (hp : PathAvoids hidden t.current p) :
    SameOutcome hidden (t.makeDirectories p) (u.makeDirectories p) := by
  refine h.makeChain_eq fun q hq => ?_
  rcases List.mem_cons.mp hq with rfl | hq
  · exact hp
  · exact pathAvoids_of_mem_parents hp hq

end AgreeBut

end FileTree

/-! ## The files of the record -/

namespace Record.Store

open FileTree (AgreeBut PathAvoids)
open FileTree.AgreeBut (SameOutcome)

variable {hidden : Place → Prop} {t u : FileTree} {p : Path} {α : Type} {s : Store}

theorem readJson_congr (h : AgreeBut hidden t u) (hp : PathAvoids hidden t.current p)
    (decode : Json → Option α) : readJson decode p t = readJson decode p u := by
  have hread : t.readText p = u.readText p := by
    rw [FileTree.readText, FileTree.readText, FileTree.read, FileTree.read, h.find_eq hp]
  rw [readJson, readJson, hread]

theorem makeParent_congr (h : AgreeBut hidden t u) (hp : PathAvoids hidden t.current p) :
    SameOutcome hidden (makeParent p t) (makeParent p u) := by
  rw [makeParent, makeParent]
  cases hq : p.parent? with
  | none => exact ⟨rfl, h⟩
  | some q =>
    have hmem : q ∈ p.parents := List.mem_of_head? hq
    obtain ⟨hsame, hafter⟩ :=
      h.makeDirectories_eq (FileTree.AgreeBut.pathAvoids_of_mem_parents hp hmem)
    exact ⟨congrArg (Except.mapError (StoreError.io p)) hsame, hafter⟩

theorem grows_makeParent (p : Path) (t : FileTree) : FileTree.Grows t (makeParent p t).2 := by
  rw [makeParent]
  cases p.parent? with
  | none => exact .refl t
  | some q => exact FileTree.grows_makeChain t (q :: q.parents)

theorem writeJson_congr (h : AgreeBut hidden t u) (hp : PathAvoids hidden t.current p)
    (value : Json) : SameOutcome hidden (writeJson p value t) (writeJson p value u) := by
  obtain ⟨r, t', u', htm, hum, hafter⟩ := (makeParent_congr h hp).parts
  have hcurrent := (grows_makeParent p t).current
  rw [htm] at hcurrent
  rw [writeJson, writeJson, htm, hum]
  cases r with
  | error error => exact ⟨rfl, hafter⟩
  | ok _ =>
    have hp' : PathAvoids hidden t'.current p := by
      rw [hcurrent]
      exact hp
    dsimp only [FileTree.writeText]
    rcases hafter.write_eq hp' (String.ofList value.pretty).toUTF8 with
      ⟨fault, ht, hu⟩ | ⟨t'', u'', ht, hu, hwritten⟩
    · rw [ht, hu]
      exact ⟨rfl, hafter⟩
    · rw [ht, hu]
      exact ⟨rfl, hwritten⟩

theorem current_writeJson (p : Path) (value : Json) (t : FileTree) :
    (writeJson p value t).2.current = t.current := by
  have hcurrent := (grows_makeParent p t).current
  rw [writeJson]
  rcases hm : makeParent p t with ⟨error | _, u⟩
  · rw [hm] at hcurrent
    exact hcurrent
  · rw [hm] at hcurrent
    dsimp only [FileTree.writeText]
    cases hw : u.write p (String.ofList value.pretty).toUTF8 with
    | error fault => exact hcurrent
    | ok after =>
      obtain ⟨_, _, _, -, -, rfl⟩ := FileTree.of_write hw
      exact hcurrent

theorem setStatus_congr (h : AgreeBut hidden t u) (hp : PathAvoids hidden t.current s.statusPath)
    (status : Status) : SameOutcome hidden (s.setStatus status t) (s.setStatus status u) := by
  rw [setStatus, setStatus]
  exact writeJson_congr h hp status.toJson

theorem openedPorts_congr (h : AgreeBut hidden t u)
    (hp : PathAvoids hidden t.current s.portsPath) : s.openedPorts t = s.openedPorts u := by
  rw [openedPorts, openedPorts, readJson_congr h hp]

theorem openPort_congr (h : AgreeBut hidden t u) (hp : PathAvoids hidden t.current s.portsPath)
    (port : UInt16) : SameOutcome hidden (s.openPort port t) (s.openPort port u) := by
  have hports := openedPorts_congr h hp
  unfold openPort
  simp only [hports]
  cases s.openedPorts u with
  | error error => exact ⟨rfl, h⟩
  | ok ports =>
    have hwrite := writeJson_congr h hp (Ports.toJson (ports.insert port))
    dsimp only
    by_cases hport : port ∈ ports
    · simp only [if_pos hport]
      exact ⟨rfl, h⟩
    · simp only [if_neg hport]
      exact hwrite

theorem current_openPort (s : Store) (port : UInt16) (t : FileTree) :
    (s.openPort port t).2.current = t.current := by
  unfold openPort
  cases s.openedPorts t with
  | error error => rfl
  | ok ports =>
    dsimp only
    by_cases hport : port ∈ ports
    · simp only [if_pos hport]
    · simp only [if_neg hport]
      exact current_writeJson _ _ t

/-- A status is set, and a port opened, in the same way in both trees. -/
theorem answer_congr (h : AgreeBut hidden t u) (hstatus : PathAvoids hidden t.current s.statusPath)
    (hports : PathAvoids hidden t.current s.portsPath) {call : Call}
    (hcall : (∃ status, call = .setStatus status) ∨ ∃ port, call = .openPort port) :
    (s.answer call t).reply = (s.answer call u).reply ∧
      AgreeBut hidden (s.answer call t).world (s.answer call u).world ∧
      (s.answer call t).world.current = t.current := by
  rcases hcall with ⟨status, rfl⟩ | ⟨port, rfl⟩
  · have hcurrent : (s.setStatus status t).2.current = t.current := current_writeJson _ _ t
    obtain ⟨r, t', u', ht, hu, hafter⟩ := (setStatus_congr h hstatus status).parts
    rw [ht] at hcurrent
    simp only [answer, ht, hu, true_and]
    exact ⟨hafter, hcurrent⟩
  · have hcurrent := current_openPort s port t
    obtain ⟨r, t', u', ht, hu, hafter⟩ := (openPort_congr h hports port).parts
    rw [ht] at hcurrent
    simp only [answer, ht, hu, true_and]
    exact ⟨hafter, hcurrent⟩

end Record.Store

end RelayKeeper
