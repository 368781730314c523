import RelayKeeper.Proofs.BagSnapshots
import RelayKeeper.Proofs.RootedRecord

/-! # Finishing an installation

When a unit has been provisioned its port is opened, the consumers are told and it becomes active.
Whatever the files were, this settles the record, and where the record is settled it sets no more
than the status. -/
namespace RelayKeeper

open FileTree (Beside Rooted)
open Record (Bag Ground Profile Store)

namespace Hooks

open Relay

variable {ω ε : Type}

/-- The consumers have been told of the address if the keys are ready, and otherwise of nothing. -/
inductive Offered (store : Store) (settings : Settings) (address : Net.Address) (t : FileTree) :
    FileTree → Prop where
  | nothing : (∀ ready, Relay.fingerprints settings t ≠ .ok (.ready ready)) →
      Offered store settings address t t
  | profile {u ready told} : Relay.fingerprints settings t = .ok (.ready ready) →
      Published store (Profile.of address settings.port ready).bag t u told →
      Offered store settings address t u

/-- If the keys are ready, nobody who can be told has anything to be told. -/
def AllTold (store : Store) (settings : Settings) (address : Net.Address) (t : FileTree) : Prop :=
  ∀ ready, Relay.fingerprints settings t = .ok (.ready ready) →
    ∀ id q mode bag, store.Tellable t id q mode bag → t.node? q =
      some (.file (Record.written
        (bag.overlay (Profile.of address settings.port ready).bag).toJson) mode)

/-- The port has been opened, then the consumers have been told, and then the unit is active. -/
structure Finishes (store : Store) (settings : Settings) (address : Net.Address)
    (t opened offered w : FileTree) : Prop where
  opens : store.openPort settings.port t = (.ok (), opened)
  offers : Offered store settings address opened offered
  activates : store.setStatus .active offered = (.ok (), w)

structure Settled (store : Store) (place : Place) (settings : Settings) (address : Net.Address)
    (t : FileTree) : Prop where
  rooted : Rooted t store.root place
  ports : store.Opened settings.port t
  told : AllTold store settings address t
  active : ∃ mode, t.node? (place ++ ["status.json"]) =
    some (.file (Record.written (Record.Status.toJson .active)) mode)

/-- What the two trees have in the files of the ports and of the consumers is the same. -/
structure SameBooks (place : Place) (t u : FileTree) : Prop where
  ports : u.node? (place ++ ["ports.json"]) = t.node? (place ++ ["ports.json"])
  bags : ∀ below,
    u.node? (Store.bagsPlace place ++ below) = t.node? (Store.bagsPlace place ++ below)

section finishing

variable {store : Store} {place q : Place} {settings : Settings} {address : Net.Address}
  {t u v w : FileTree}

theorem ready_iff_of_beside (h : Beside t u) {ready : Key.Fingerprints} :
    Relay.fingerprints settings t = .ok (.ready ready) ↔
      Relay.fingerprints settings u = .ok (.ready ready) :=
  ⟨Key.Material.fingerprints_beside h.symm, Key.Material.fingerprints_beside h⟩

theorem AllTold.congr (h : AllTold store settings address t) (hr : Rooted t store.root place)
    (hu : Rooted u store.root place)
    (hready : ∀ ready, Relay.fingerprints settings u = .ok (.ready ready) →
      Relay.fingerprints settings t = .ok (.ready ready))
    (hbags : ∀ below, u.node? (Store.bagsPlace place ++ below) =
      t.node? (Store.bagsPlace place ++ below)) : AllTold store settings address u := by
  intro ready hfu id q mode bag htellable
  have hthen := (Store.tellable_congr_rooted hr hu hbags).mp htellable
  obtain ⟨-, -, -, rfl, -⟩ := (Store.tellable_of_rooted hu).mp htellable
  rw [hbags]
  exact h ready (hready ready hfu) id _ mode bag hthen

namespace Offered

theorem beside (h : Offered store settings address t u) : Beside t u := by
  cases h with
  | nothing _ => exact .refl t
  | profile _ hp => exact hp.beside

theorem rooted (h : Offered store settings address t u) (hr : Rooted t store.root place) :
    Rooted u store.root place := by
  cases h with
  | nothing _ => exact hr
  | profile _ hp => exact hp.rooted hr

theorem node_eq (h : Offered store settings address t u) (hr : Rooted t store.root place)
    (hq : ¬ Store.bagsPlace place <+: q) : u.node? q = t.node? q := by
  cases h with
  | nothing _ => rfl
  | profile _ hp => exact hp.node_eq hr hq

theorem allTold (h : Offered store settings address t u) : AllTold store settings address u := by
  intro ready hready id q mode bag htellable
  have hthen := (ready_iff_of_beside h.beside).mpr hready
  cases h with
  | nothing hnever => exact absurd hthen (hnever ready)
  | profile hf hp =>
    cases hf.symm.trans hthen
    obtain ⟨old, hold, rfl⟩ := hp.tellable_iff.mp htellable
    rw [Bag.overlay_overlay]
    exact hp.files id q mode old hold

theorem eq_of_allTold (h : Offered store settings address t u)
    (hall : AllTold store settings address t) : u = t := by
  cases h with
  | nothing _ => rfl
  | profile hf hp => exact hp.settled (hall _ hf)

end Offered

namespace Finishes

theorem opened_rewrites (h : Finishes store settings address t u v w)
    (hr : Rooted t store.root place) : Record.Rewrites t u place "ports.json" := by
  have hwrites := (Store.openPort_rooted hr settings.port).1
  rwa [h.opens] at hwrites

theorem rooted_offered (h : Finishes store settings address t u v w)
    (hr : Rooted t store.root place) : Rooted v store.root place :=
  h.offers.rooted ((h.opened_rewrites hr).rooted hr)

theorem beside (h : Finishes store settings address t u v w) (hr : Rooted t store.root place) :
    Beside t w := by
  have hopened : Beside t u := (h.opened_rewrites hr).beside (by decide)
  have hactive : Beside v w := (Store.rewrites_of_setStatus (h.rooted_offered hr) h.activates).1.beside
    (by decide)
  exact (hopened.trans h.offers.beside).trans hactive

/-- Only the record changes. -/
theorem node_eq (h : Finishes store settings address t u v w) (hr : Rooted t store.root place)
    (hq : ¬ place <+: q) : w.node? q = t.node? q := by
  have houtside : ∀ below, q ≠ place ++ below := by
    rintro below rfl
    exact hq (List.prefix_append _ _)
  have hbags : ¬ Store.bagsPlace place <+: q := fun h => hq ((List.prefix_append _ _).trans h)
  rw [(Store.rewrites_of_setStatus (h.rooted_offered hr) h.activates).1.rest q (houtside _),
    h.offers.node_eq ((h.opened_rewrites hr).rooted hr) hbags,
    (h.opened_rewrites hr).rest q (houtside _)]

/-- What an installation leaves is settled. -/
theorem settled (h : Finishes store settings address t u v w) (hr : Rooted t store.root place) :
    Settled store place settings address w := by
  -- What each step leaves is not touched by those after it.
  have hu : Rooted u store.root place := (h.opened_rewrites hr).rooted hr
  have hv : Rooted v store.root place := h.rooted_offered hr
  obtain ⟨hwrites, hactive⟩ := Store.rewrites_of_setStatus hv h.activates
  have hw : Rooted w store.root place := hwrites.rooted hv
  have hopened : store.Opened settings.port u := by
    have hput := (Store.openPort_rooted hr settings.port).2
    rw [h.opens] at hput
    exact hput rfl
  refine ⟨hw, ?_, ?_, hactive⟩
  · refine (hopened.congr hu hv (h.offers.node_eq hu ?_)).congr hv hw (hwrites.rest _ (by simp))
    exact Store.not_bags_top place (by decide)
  · refine h.offers.allTold.congr hv hw (fun ready hready => ?_) fun below => hwrites.rest _ ?_
    · exact (ready_iff_of_beside (hwrites.beside (by decide))).mpr hready
    · simp [Store.bagsPlace, Store.bagsName]

/-- Where the books are settled, only the status is set. -/
theorem rewrites_of_settled {a : FileTree} (h : Finishes store settings address t u v w)
    (hr : Rooted t store.root place) (ha : Settled store place settings address a)
    (hbooks : SameBooks place a t)
    (hready : ∀ ready, Relay.fingerprints settings w = .ok (.ready ready) →
      Relay.fingerprints settings a = .ok (.ready ready)) :
    Record.Rewrites t w place "status.json" := by
  obtain rfl : t = u := by
    have hopens := h.opens
    rw [(ha.ports.congr ha.rooted hr hbooks.ports).openPort_eq] at hopens
    exact (Prod.mk.inj hopens).2
  have htold : AllTold store settings address t :=
    ha.told.congr ha.rooted hr
      (fun ready hthen => hready ready ((ready_iff_of_beside (h.beside hr)).mp hthen)) hbooks.bags
  obtain rfl := h.offers.eq_of_allTold htold
  exact (Store.rewrites_of_setStatus hr h.activates).1

end Finishes

end finishing

/-! ## Runs that finish -/

theorem answer_setStatus (s : Store) (status : Record.Status) (t : FileTree) :
    (s.answer (.setStatus status) t).reply = (s.setStatus status t).1 ∧
      (s.answer (.setStatus status) t).world = (s.setStatus status t).2 := by
  rw [Store.answer]
  generalize s.setStatus status t = outcome
  exact ⟨rfl, rfl⟩

theorem answer_openPort (s : Store) (port : UInt16) (t : FileTree) :
    (s.answer (.openPort port) t).reply = (s.openPort port t).1 ∧
      (s.answer (.openPort port) t).world = (s.openPort port t).2 := by
  rw [Store.answer]
  generalize s.openPort port t = outcome
  exact ⟨rfl, rfl⟩

/-- One consumer is told, if it can be, and then the others. -/
theorem tells_step {store : Store} {t u : FileTree} {id : String} {ids : List String}
    (hlisted : ∀ other ∈ id :: ids, store.Listed t other) (hnew : id ∉ ids) (data : Bag) :
    (∀ other ∈ ids, store.Listed (store.updateRelation id data t).2 other) ∧
      ∀ told, Tells store data (store.updateRelation id data t).2 u ids told →
        ∃ more, Tells store data t u (id :: ids) more := by
  have hothers := fun other hm => hlisted other (List.mem_cons_of_mem id hm)
  by_cases htellable : ∃ place mode bag, store.Tellable t id place mode bag
  · obtain ⟨place, mode, bag, htellable⟩ := htellable
    rw [htellable.updateRelation_eq data]
    exact ⟨fun other hm => htellable.listed_put (hothers other hm),
      fun told h => ⟨_, h.cons htellable hnew⟩⟩
  · have hno : ∀ place mode bag, ¬ store.Tellable t id place mode bag :=
      fun place mode bag h => htellable ⟨place, mode, bag, h⟩
    obtain ⟨error, hupdate⟩ := (hlisted id List.mem_cons_self).updateRelation_eq hno data
    rw [hupdate]
    exact ⟨hothers, fun told h => ⟨told, h.skip hnew hno⟩⟩

section runs

variable {g : Ground ω} {store : Store} {settings : Settings} {address : Net.Address}
  {s : Session ω} {u v : ω} {es : List Event} {data : Bag}

theorem answer_of_takes (hg : Lawful g) {call : Record.Call} {reply : call.Reply}
    (ht : (g.site store).Takes u [.record call reply] v) :
    reply = (store.answer call (g.files u)).reply ∧
      g.files v = (store.answer call (g.files u)).world := by
  cases ht with
  | cons hs hn =>
    cases hn
    cases hs with
    | record => exact ⟨rfl, files_record hg store call u⟩

theorem tells_of_spread (hg : Lawful g) {ids : List String} (h : Spread data ids es)
    (ht : (g.site store).Takes u es v) (hnodup : ids.Nodup)
    (hlisted : ∀ id ∈ ids, store.Listed (g.files u) id) :
    ∃ told, Tells store data (g.files u) (g.files v) ids told := by
  -- Induction on the consumers: those that come later are still listed when one has been told.
  induction h generalizing u with
  | nil =>
    cases ht
    exact ⟨[], .nil store data _⟩
  | @cons id ids es reply _ ih =>
    obtain ⟨hnew, hnodup⟩ := List.nodup_cons.mp hnodup
    obtain ⟨hstay, hmore⟩ := tells_step hlisted hnew data
    cases ht with
    | cons hstep htail =>
      cases hstep with
      | record =>
        have hfiles : g.files ((g.site store).record (.updateRelation id data) u).world =
            (store.updateRelation id data (g.files u)).2 := files_record hg store _ u
        rw [← hfiles] at hstay hmore
        obtain ⟨told, htells⟩ := ih htail hnodup hstay
        exact hmore told htells

/-- Telling consumers publishes, whatever the files are. -/
theorem published_of_announced (hg : Lawful g) (ha : Announced data es)
    (ht : (g.site store).Takes u es v) :
    ∃ told, Published store data (g.files u) (g.files v) told := by
  cases ha with
  | unknown error =>
    obtain ⟨hreply, hsame⟩ := answer_of_takes hg ht
    rw [hsame]
    exact ⟨[], published_of_error hreply.symm⟩
  | @everyone ids es hspread =>
    have hsplit : (g.site store).Takes u ([.record .relations (.ok ids)] ++ es) v := ht
    obtain ⟨w, hw, hrest⟩ := hsplit.of_append
    obtain ⟨hreply, hsame⟩ := answer_of_takes hg hw
    have hids : store.relations (g.files u) = .ok ids := hreply.symm
    obtain ⟨hnodup, hmem⟩ := Store.mem_relations hids
    have hlisted : ∀ id ∈ ids, store.Listed (g.files w) id := by
      rw [hsame]
      exact fun id => (hmem id).mp
    obtain ⟨told, htells⟩ := tells_of_spread hg hspread hrest hnodup hlisted
    rw [hsame] at htells
    exact ⟨told, htells.published hids⟩

theorem eq_ok_of_refusal {δ : Type} {f : δ → ε} {reply : Except δ Unit}
    (h : refusal f reply = none) : reply = .ok () := by
  cases reply with
  | ok _ => rfl
  | error _ => cases h

/-- A status that was noted has been set. -/
theorem setStatus_of_takes (hg : Lawful g) {status : Record.Status}
    {reply : Except Record.StoreError Unit} {f : Record.StoreError → ε}
    (ht : (g.site store).Takes u [.record (.setStatus status) reply] v)
    (h : refusal f reply = none) :
    store.setStatus status (g.files u) = (.ok (), g.files v) := by
  obtain ⟨hreply, hfiles⟩ := answer_of_takes hg ht
  rw [eq_ok_of_refusal h, (answer_setStatus store status _).1] at hreply
  rw [(answer_setStatus store status _).2] at hfiles
  exact Prod.ext hreply.symm hfiles.symm

theorem openPort_of_takes (hg : Lawful g) {port : UInt16}
    {reply : Except Record.StoreError Unit} {f : Record.StoreError → ε}
    (ht : (g.site store).Takes u [.record (.openPort port) reply] v)
    (h : refusal f reply = none) : store.openPort port (g.files u) = (.ok (), g.files v) := by
  obtain ⟨hreply, hfiles⟩ := answer_of_takes hg ht
  rw [eq_ok_of_refusal h, (answer_openPort store port _).1] at hreply
  rw [(answer_openPort store port _).2] at hfiles
  exact Prod.ext hreply.symm hfiles.symm

theorem offered_of_told (hg : Lawful g) (h : Told settings address (g.files u) es)
    (ht : (g.site store).Takes u es v) :
    Offered store settings address (g.files u) (g.files v) := by
  cases h with
  | nothing hnever =>
    cases ht
    exact .nothing hnever
  | profile hready ha =>
    obtain ⟨told, hp⟩ := published_of_announced hg ha ht
    exact .profile hready hp

theorem finishes_of_cut (hg : Lawful g) {t : Session ω}
    (hc : Cut (g.site store) (openingPlan settings address) s es none)
    (hr : Ran (g.site store) s t es) :
    ∃ u v, Finishes store settings address (g.files s.world) u v (g.files t.world) := by
  rcases hc.of_note with ⟨_, _, _, _, hnone⟩ | ⟨reply, u, fs, rfl, hopen, hu, hc⟩
  · cases hnone
  obtain ⟨v, told, hs, rfl, htold, hv, hc⟩ := hc.of_tell
  have hrest := hv.drop (hu.drop hr)
  rcases hc.of_note with ⟨_, _, _, _, hnone⟩ | ⟨last, w, ks, rfl, hset, hw, hc⟩
  · cases hnone
  cases hc
  exact ⟨_, _, openPort_of_takes hg hu.world hopen, offered_of_told hg htold hv.world,
    setStatus_of_takes hg hrest.world hset⟩

end runs

end Hooks

end RelayKeeper
