import RelayKeeper.Proofs.BagMoments
import RelayKeeper.Proofs.Finishing
import RelayKeeper.Proofs.HostPuts

/-! # Hosts that mind the record

A host may do what it likes, as long as it leaves the record alone and what is put at a place stays
there. While a unit is provisioned on such a host, only its status and the files that are put on the
host change. -/
namespace RelayKeeper

open FileTree (Rooted placeOf)
open Record (Ground Store)

namespace Hooks

variable {ω ε : Type}

/-- Of the places that are minded an event changes those where a file is put, and no other; and the
root of the record stays there. -/
structure Minds (store : Store) (place : Place) (own : Place → Prop) (e : Event)
    (t u : FileTree) : Prop where
  current : u.current = t.current
  rooted : Rooted t store.root place → Rooted u store.root place
  node : ∀ q, own q → u.node? q = (e.puts? t.current q).or (t.node? q)

/-- While events happen the host minds the record and the files that it is told to write. -/
def Minded (g : Ground ω) (store : Store) (place : Place) (own : Place → Prop) :
    ω → List Event → Prop
  | _, [] => True
  | w, .host call reply :: es =>
    Minds store place own (.host call reply) (g.files w) (g.files (g.host call w).world) ∧
      Minded g store place own (g.host call w).world es
  | w, .record call _ :: es => Minded g store place own ((g.site store).record call w).world es
  | w, .slept _ :: es => Minded g store place own w es

structure Evolves (store : Store) (place : Place) (own : Place → Prop) (es : List Event)
    (t u : FileTree) : Prop where
  current : u.current = t.current
  rooted : Rooted u store.root place
  mode : ∀ old mode, t.node? (place ++ ["status.json"]) = some (.file old mode) →
    ∃ content, u.node? (place ++ ["status.json"]) = some (.file content mode)
  node : ∀ q, own q → q ≠ place ++ ["status.json"] →
    u.node? q = (lastPut t.current q es).or (t.node? q)

section minding

variable {g : Ground ω} {store : Store} {place : Place} {own : Place → Prop} {u v : ω} {e : Event}
  {es fs : List Event} {r s t : FileTree}

theorem minded_of_cons (hs : (g.site store).Step u e v) (h : Minded g store place own u (e :: es)) :
    Minded g store place own v es := by
  cases hs with
  | host _ _ => exact h.2
  | record _ _ | slept _ _ => exact h

theorem minded_of_append (ht : (g.site store).Takes u es v)
    (h : Minded g store place own u (es ++ fs)) :
    Minded g store place own u es ∧ Minded g store place own v fs := by
  induction ht with
  | nil _ => exact ⟨trivial, h⟩
  | cons hstep _ ih =>
    obtain ⟨hes, hfs⟩ := ih (minded_of_cons hstep h)
    refine ⟨?_, hfs⟩
    cases hstep with
    | host _ _ => exact ⟨h.1, hes⟩
    | record _ _ | slept _ _ => exact hes

theorem Evolves.nil (hr : Rooted t store.root place) : Evolves store place own [] t t :=
  ⟨rfl, hr, fun old _ h => ⟨old, h⟩, fun _ _ _ => rfl⟩

theorem Evolves.trans (h : Evolves store place own es r s) (k : Evolves store place own fs s t) :
    Evolves store place own (es ++ fs) r t where
  current := k.current.trans h.current
  rooted := k.rooted
  mode old mode hold := by
    obtain ⟨content, hcontent⟩ := h.mode old mode hold
    exact k.mode content mode hcontent
  node q hq hne := by
    rw [k.node q hq hne, h.node q hq hne, h.current, lastPut_append, Option.or_assoc]

theorem evolves_of_rewrites (h : Record.Rewrites s t place "status.json")
    (hr : Rooted s store.root place) (he : ∀ q, e.puts? s.current q = none) :
    Evolves store place own [e] s t where
  current := h.current
  rooted := h.rooted hr
  mode := h.mode
  node q _ hne := by
    rw [lastPut_singleton, he q, h.rest q hne]
    rfl

theorem Minds.evolves (h : Minds store place own e s t) (hr : Rooted s store.root place)
    (hstatus : own (place ++ ["status.json"]))
    (he : e.puts? s.current (place ++ ["status.json"]) = none) :
    Evolves store place own [e] s t where
  current := h.current
  rooted := h.rooted hr
  mode old mode hold := ⟨old, by rw [h.node _ hstatus, he, hold]; rfl⟩
  node q hq _ := by rw [lastPut_singleton, h.node q hq]

/-- One event of provisioning changes only the status and what it puts on the host. -/
theorem evolves_of_step (hg : Lawful g) (hs : (g.site store).Step u e v)
    (hr : Rooted (g.files u) store.root place) (hm : Minded g store place own u [e])
    (hstatus : own (place ++ ["status.json"]))
    (hputs : e.puts? (g.files u).current (place ++ ["status.json"]) = none)
    (hrecord : ∀ call reply, e = .record call reply → ∃ status, call = .setStatus status) :
    Evolves store place own [e] (g.files u) (g.files v) := by
  cases hs with
  | host call _ => exact hm.1.evolves hr hstatus hputs
  | slept _ _ => exact evolves_of_rewrites (.refl ..) hr fun _ => rfl
  | record call _ =>
    obtain ⟨status, rfl⟩ := hrecord call _ rfl
    rw [files_record hg store, (answer_setStatus store status _).2]
    have hwrites := (Store.writeJson_rooted hr Store.isName_status status.toJson).1
    exact evolves_of_rewrites hwrites hr fun _ => rfl

/-- So do all of them. -/
theorem evolves_of_takes (hg : Lawful g) (ht : (g.site store).Takes u es v)
    (hr : Rooted (g.files u) store.root place) (hm : Minded g store place own u es)
    (hstatus : own (place ++ ["status.json"]))
    (hputs : es.filterMap (Event.puts? (g.files u).current (place ++ ["status.json"])) = [])
    (hrecord : ∀ call reply, .record call reply ∈ es → ∃ status, call = .setStatus status) :
    Evolves store place own es (g.files u) (g.files v) := by
  -- Each event keeps the root, which the next one needs.
  induction ht with
  | nil _ => exact .nil hr
  | @cons u next v e es hstep htail ih =>
    have hnone := List.filterMap_eq_nil_iff.mp hputs
    have hfirst : Minded g store place own u [e] := (minded_of_append (.cons hstep (.nil _)) hm).1
    have hone := evolves_of_step hg hstep hr hfirst hstatus (hnone e List.mem_cons_self)
      fun call reply he => hrecord call reply (he ▸ List.mem_cons_self)
    have hrest := ih hone.rooted (minded_of_cons hstep hm)
      (List.filterMap_eq_nil_iff.mpr fun e he => by
        rw [hone.current]
        exact hnone e (List.mem_cons_of_mem _ he))
      fun call reply he => hrecord call reply (List.mem_cons_of_mem _ he)
    exact hone.trans hrest

end minding

/-! ## A host that does as it is told -/

/-- Files are put where they are to be written, everything else succeeds and the daemon runs. -/
def obedient : Ground FileTree where
  host call t :=
    match call with
    | .writeFile path contents mode =>
      if t.node? (placeOf t.current path) = some .directory then ⟨.error .isDirectory, t, []⟩
      else ⟨.ok (), t.put (placeOf t.current path) (.file contents.toUTF8 mode), []⟩
    | .queryStatus _ => ⟨.ok ⟨some 0, "active (running)", ""⟩, t, []⟩
    | call => ⟨call.success, t, []⟩
  files t := t
  withFiles _ t := t

section obedience

variable {store : Store} {place : Place} {own : Place → Prop} {t u : FileTree} {es : List Event}

theorem Minds.unchanged {e : Event} (he : ∀ q, e.puts? t.current q = none) :
    Minds store place own e t t :=
  ⟨rfl, id, fun q _ => by rw [he q]; rfl⟩

theorem minds_obedient (call : Host.Call) (t : FileTree) :
    Minds store place own (.host call (obedient.host call t).reply) t
      (obedient.host call t).world := by
  cases call with
  | writeFile path contents mode =>
    by_cases hd : t.node? (placeOf t.current path) = some .directory
    · have hrefused : obedient.host (.writeFile path contents mode) t =
          ⟨.error .isDirectory, t, []⟩ := if_pos hd
      rw [hrefused]
      exact .unchanged fun _ => rfl
    · have hput : obedient.host (.writeFile path contents mode) t =
          ⟨.ok (), t.put (placeOf t.current path) (.file contents.toUTF8 mode), []⟩ := if_neg hd
      have hne : placeOf t.current path ≠ [] := by
        intro hnil
        rw [hnil] at hd
        exact hd (FileTree.node?_nil t)
      rw [hput]
      refine ⟨rfl, fun hr => Store.rooted_put_file hr hne hd, fun q _ => ?_⟩
      rw [FileTree.node?_put hne, Event.puts?]
      by_cases hq : q = placeOf t.current path
      · rw [if_pos hq, if_pos hq.symm]
        rfl
      · rw [if_neg hq, if_neg (Ne.symm hq)]
        rfl
  | _ => exact .unchanged fun _ => rfl

theorem minded_obedient (ht : (obedient.site store).Takes t es u) :
    Minded obedient store place own t es := by
  induction ht with
  | nil _ => trivial
  | cons hstep _ ih =>
    cases hstep with
    | host call _ => exact ⟨minds_obedient call _, ih⟩
    | record _ _ | slept _ _ => exact ih

end obedience

end Hooks

end RelayKeeper
