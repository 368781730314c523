import RelayKeeper.Record.Ground
import RelayKeeper.Proofs.BagKeeping
import RelayKeeper.Proofs.TellingHooks

/-! # Bags from moment to moment

Events lead through worlds, and each of these worlds is a moment at which the bags can be read.
While nobody is told anything the bags stay as they are. While the consumers are told of one bag, one
after the other, each bag either is as it was or is the new one. -/
namespace RelayKeeper

open FileTree (Beside)
open Record (Bag Bags Ground Store)

variable {ω : Type}

def Site.worlds (site : Site ω) : ω → List Event → List ω
  | _, [] => []
  | w, .host call _ :: es => (site.host call w).world :: site.worlds (site.host call w).world es
  | w, .record call _ :: es =>
    (site.record call w).world :: site.worlds (site.record call w).world es
  | w, .slept _ :: es => w :: site.worlds w es

namespace Site

variable {site : Site ω} {u v : ω} {e : Event} {es : List Event}

theorem worlds_cons (h : site.Step u e v) (es : List Event) :
    site.worlds u (e :: es) = v :: site.worlds v es := by
  cases h <;> rfl

theorem worlds_append (h : site.Takes u es v) (fs : List Event) :
    site.worlds u (es ++ fs) = site.worlds u es ++ site.worlds v fs := by
  induction h with
  | nil _ => rfl
  | cons hs _ ih =>
    rw [List.cons_append, worlds_cons hs, worlds_cons hs, ih, List.cons_append]

theorem mem_worlds (h : site.Takes u es v) : v ∈ u :: site.worlds u es := by
  induction h with
  | nil _ => simp
  | cons hs _ ih =>
    rw [worlds_cons hs]
    exact List.mem_cons_of_mem _ ih

end Site

namespace Record

/-- No consumer is gone, and no key of a consumer's bag. -/
def Bags.Grows (bags next : Bags) : Prop :=
  ∀ (id : String) (bag : Bag), bags[id]? = some bag →
    ∃ new : Bag, next[id]? = some new ∧ ∀ key ∈ bag, key ∈ new

def Bags.All (P : Bag → Prop) (bags : Bags) : Prop :=
  ∀ (id : String) (bag : Bag), bags[id]? = some bag → P bag

namespace Bags

variable {bags next last : Bags} {id : String} {P : Bag → Prop}

theorem Grows.refl (bags : Bags) : bags.Grows bags :=
  fun _ bag h => ⟨bag, h, fun _ hk => hk⟩

theorem Grows.trans (h : bags.Grows next) (k : next.Grows last) : bags.Grows last := by
  intro id bag hb
  obtain ⟨new, hn, hkeys⟩ := h id bag hb
  obtain ⟨newer, hl, hmore⟩ := k id new hn
  exact ⟨newer, hl, fun key hk => hmore key (hkeys key hk)⟩

theorem Grows.insert {new : Bag} (h : ∀ bag : Bag, bags[id]? = some bag → ∀ key ∈ bag, key ∈ new) :
    bags.Grows (bags.insert id new) := by
  intro other bag hb
  rw [Store.getElem?_insert_bags]
  by_cases ho : other = id
  · subst ho
    exact ⟨new, if_pos rfl, h bag hb⟩
  · exact ⟨bag, by rw [if_neg ho, hb], fun _ hk => hk⟩

theorem All.insert (h : bags.All P) {new : Bag} (hn : P new) :
    All P (bags.insert id new) := by
  intro other bag hb
  rw [Store.getElem?_insert_bags] at hb
  split at hb
  · obtain rfl := Option.some.inj hb
    exact hn
  · exact h other bag hb

theorem getElem?_of_mem (h : id ∈ bags) : bags[id]? = some (bags[id]?.getD ∅) := by
  have hsome := Std.ExtTreeMap.isSome_getElem?_iff_mem.mpr h
  obtain ⟨bag, hb⟩ := Option.isSome_iff_exists.mp hsome
  rw [hb]
  rfl

end Bags

theorem Bag.mem_overlay (bag data : Bag) {key : String} (h : key ∈ bag) :
    key ∈ bag.overlay data := by
  rw [← Std.ExtTreeMap.isSome_getElem?_iff_mem, Bag.getElem?_overlay, Option.isSome_or,
    Std.ExtTreeMap.isSome_getElem?_iff_mem.mpr h, Bool.or_true]

end Record

namespace Hooks

/-- Files that are put into a world are found there. -/
def Lawful (g : Ground ω) : Prop :=
  ∀ w t, g.files (g.withFiles w t) = t

/-- What the host does, while events happen, touches no bag. -/
def Spared (g : Ground ω) (store : Store) (place : Place) : ω → List Event → Prop
  | _, [] => True
  | w, .host call _ :: es =>
    store.Untouched place (g.files w) (g.files (g.host call w).world) ∧
      Spared g store place (g.host call w).world es
  | w, .record call _ :: es => Spared g store place ((g.site store).record call w).world es
  | w, .slept _ :: es => Spared g store place w es

/-- Through the worlds the bags grow, and every bag is one of those that are allowed. -/
inductive Keeps (g : Ground ω) (store : Store) (place : Place) (P : Bag → Prop) :
    Bags → List ω → Bags → Prop where
  | nil {bags} : Keeps g store place P bags [] bags
  | cons {bags next last w ws} : bags.Grows next → store.Holds (g.files w) place next →
      next.All P → Keeps g store place P next ws last → Keeps g store place P bags (w :: ws) last

namespace Keeps

variable {g : Ground ω} {store : Store} {place : Place} {P Q : Bag → Prop} {bags next last : Bags}
  {w : ω} {ws vs : List ω}

theorem append (h : Keeps g store place P bags ws next) (k : Keeps g store place P next vs last) :
    Keeps g store place P bags (ws ++ vs) last := by
  induction h with
  | nil => exact k
  | cons hg hh hp _ ih => exact .cons hg hh hp (ih k)

theorem mono (h : Keeps g store place P bags ws last) (hPQ : ∀ bag, P bag → Q bag) :
    Keeps g store place Q bags ws last := by
  induction h with
  | nil => exact .nil
  | cons hg hh hp _ ih => exact .cons hg hh (fun id bag hb => hPQ bag (hp id bag hb)) ih

theorem single (hg : bags.Grows next) (hh : store.Holds (g.files w) place next) (hp : next.All P) :
    Keeps g store place P bags [w] next :=
  .cons hg hh hp .nil

theorem exists_holds (h : Keeps g store place P bags ws last) (hw : w ∈ ws) :
    ∃ next, bags.Grows next ∧ store.Holds (g.files w) place next ∧ next.All P := by
  induction h with
  | nil => cases hw
  | cons hg hh hp _ ih =>
    rcases List.mem_cons.mp hw with rfl | hw
    · exact ⟨_, hg, hh, hp⟩
    · obtain ⟨later, hgrows, hholds, hall⟩ := ih hw
      exact ⟨later, hg.trans hgrows, hholds, hall⟩

end Keeps

section stretches

variable {g : Ground ω} {store : Store} {place : Place} {P : Bag → Prop} {bags : Bags}
  {u v : ω} {e : Event} {es : List Event} {id : String}

theorem spared_of_cons (hs : (g.site store).Step u e v) (h : Spared g store place u (e :: es)) :
    Spared g store place v es := by
  cases hs with
  | host _ _ => exact h.2
  | record _ _ | slept _ _ => exact h

theorem spared_of_append {fs : List Event} (ht : (g.site store).Takes u es v)
    (h : Spared g store place u (es ++ fs)) :
    Spared g store place u es ∧ Spared g store place v fs := by
  induction ht with
  | nil _ => exact ⟨trivial, h⟩
  | cons hstep _ ih =>
    obtain ⟨hes, hfs⟩ := ih (spared_of_cons hstep h)
    refine ⟨?_, hfs⟩
    cases hstep with
    | host _ _ => exact ⟨h.1, hes⟩
    | record _ _ | slept _ _ => exact hes

theorem spared_of_setsStatus (h : ∀ e ∈ es, e.SetsStatus) (u : ω) :
    Spared g store place u es := by
  induction es generalizing u with
  | nil => trivial
  | cons e es ih =>
    have he := h e (by simp)
    have hes := ih fun e he => h e (List.mem_cons_of_mem _ he)
    cases e with
    | record _ _ => exact hes _
    | host _ _ | slept _ => exact he.elim

theorem files_record (hg : Lawful g) (store : Store) (call : Record.Call) (w : ω) :
    g.files ((g.site store).record call w).world = (store.answer call (g.files w)).world :=
  hg w _

/-- An event that updates no bag leaves all bags as they are. -/
theorem holds_of_step (hg : Lawful g) (hs : (g.site store).Step u e v)
    (hspared : Spared g store place u [e]) (he : ¬ e.UpdatesBag)
    (hh : store.Holds (g.files u) place bags) : store.Holds (g.files v) place bags := by
  cases hs with
  | host call _ => exact hh.untouched hspared.1
  | slept _ _ => exact hh
  | record call _ =>
    rw [files_record hg store]
    cases call with
    | setStatus status =>
      obtain ⟨r, t, ht, hholds, -⟩ := hh.setStatus status
      simp only [Store.answer, ht]
      exact hholds
    | openPort port =>
      obtain ⟨r, t, ht, hholds⟩ := hh.openPort port
      simp only [Store.answer, ht]
      exact hholds
    | relations => exact hh
    | updateRelation id data => exact absurd trivial he

/-- While nobody is told anything the bags stay as they are. -/
theorem keeps_of_silent (hg : Lawful g) (ht : (g.site store).Takes u es v)
    (hspared : Spared g store place u es) (hs : Silent es)
    (hh : store.Holds (g.files u) place bags) (hp : bags.All P) :
    Keeps g store place P bags ((g.site store).worlds u es) bags ∧
      store.Holds (g.files v) place bags := by
  induction ht with
  | nil _ => exact ⟨.nil, hh⟩
  | @cons _ _ _ e _ hstep _ ih =>
    have hfirst : Spared g store place _ [e] := (spared_of_append (.cons hstep (.nil _)) hspared).1
    have hnext := holds_of_step hg hstep hfirst (hs _ (by simp)) hh
    obtain ⟨hkeeps, hlast⟩ :=
      ih (spared_of_cons hstep hspared) (fun e he => hs e (List.mem_cons_of_mem _ he)) hnext
    rw [Site.worlds_cons hstep]
    exact ⟨.cons (.refl bags) hnext hp hkeeps, hlast⟩

/-- Where there are bags, setting the status changes no other file. -/
theorem beside_of_setsStatus (hg : Lawful g) (ht : (g.site store).Takes u es v)
    (hs : ∀ e ∈ es, e.SetsStatus) (hh : store.Holds (g.files u) place bags) (hm : id ∈ bags) :
    Beside (g.files u) (g.files v) := by
  induction ht with
  | nil _ => exact .refl _
  | @cons u next _ e _ hstep _ ih =>
    have he := hs e (by simp)
    have hsilent : ¬ e.UpdatesBag := Silent.of_setsStatus hs e (by simp)
    have hspared : Spared g store place u [e] :=
      spared_of_setsStatus (fun other ho => List.mem_singleton.mp ho ▸ he) u
    have hnext := holds_of_step hg hstep hspared hsilent hh
    have hfirst : Beside (g.files u) (g.files next) := by
      cases hstep with
      | host _ _ | slept _ _ => exact he.elim
      | record call _ =>
        cases call with
        | setStatus status =>
          obtain ⟨r, t, ht, -, hbeside⟩ := hh.setStatus status
          rw [files_record hg store]
          simp only [Store.answer, ht]
          exact hbeside _ hm
        | openPort _ | relations | updateRelation _ _ => exact he.elim
    exact hfirst.trans (ih (fun e he => hs e (List.mem_cons_of_mem _ he)) hnext)

/-- While consumers are told the same, each of their bags becomes what they are told; the others
stay, and so does every file that is not of the record. -/
theorem keeps_of_spread (hg : Lawful g) {data : Bag} {ids : List String}
    (hspread : Spread data ids es) (ht : (g.site store).Takes u es v)
    (hh : store.Holds (g.files u) place bags) (hids : ∀ id ∈ ids, id ∈ bags) (hp : bags.All P)
    (hempty : ∀ bag, P bag → bag.overlay data = data) (hdata : P data) :
    ∃ last, Keeps g store place P bags ((g.site store).worlds u es) last ∧
      store.Holds (g.files v) place last ∧ last.All P ∧ Beside (g.files u) (g.files v) ∧
      ∀ id, last[id]? = if id ∈ ids then some data else bags[id]? := by
  -- Induction on the consumers told. Each is told over a bag that is allowed, of which nothing is
  -- left, so that all bags stay allowed on the way.
  induction hspread generalizing u bags with
  | nil =>
    cases ht
    exact ⟨bags, .nil, hh, hp, .refl _, fun id => by simp⟩
  | @cons id ids es reply hspread ih =>
    cases ht with
    | cons hstep htail =>
      have hm : id ∈ bags := hids id (by simp)
      have hbag := Bags.getElem?_of_mem hm
      obtain ⟨r, t, ht, hnext, hbeside⟩ := hh.updateRelation hm data
      have hover := hempty _ (hp id _ hbag)
      rw [hover] at hnext
      rw [Site.worlds_cons hstep]
      cases hstep with
      | record =>
        have hfiles : g.files ((g.site store).record (.updateRelation id data) u).world = t := by
          rw [files_record hg store]
          simp only [Store.answer, ht]
        rw [← hfiles] at hnext hbeside
        have hgrows : bags.Grows (bags.insert id data) := by
          refine .insert fun bag hb key hk => ?_
          rw [← hempty bag (hp id bag hb)]
          exact Record.Bag.mem_overlay bag data hk
        have hall : Bags.All P (bags.insert id data) := hp.insert hdata
        have hmem : ∀ other ∈ ids, other ∈ bags.insert id data := fun other ho =>
          (Store.mem_insert_bags ..).mpr (.inr (hids other (List.mem_cons_of_mem _ ho)))
        obtain ⟨last, hkeeps, hlast, hPlast, htrees, hget⟩ := ih htail hnext hmem hall
        refine ⟨last, .cons hgrows hnext hall hkeeps, hlast, hPlast, hbeside.trans htrees, ?_⟩
        intro other
        rw [hget, Store.getElem?_insert_bags]
        by_cases ho : other ∈ ids
        · simp [ho]
        · by_cases hid : other = id
          · simp [hid]
          · simp [ho, hid]

/-- When the consumers are told of a bag, everyone has it. -/
theorem keeps_of_announced (hg : Lawful g) {data : Bag}
    (ha : Announced data es) (ht : (g.site store).Takes u es v)
    (hh : store.Holds (g.files u) place bags) (hp : bags.All P)
    (hempty : ∀ bag, P bag → bag.overlay data = data) (hdata : P data) :
    ∃ last, Keeps g store place P bags ((g.site store).worlds u es) last ∧
      store.Holds (g.files v) place last ∧ last.All P ∧ Beside (g.files u) (g.files v) ∧
      last.All (· = data) := by
  have hanswer : ((g.site store).record .relations u).reply = .ok bags.keys := hh.relations_eq
  cases ha with
  | unknown error =>
    -- The store can list the consumers, so this is not what it answers.
    cases ht with
    | cons hstep _ =>
      generalize hreply : (Except.error error : Record.Call.Reply .relations) = reply at hstep
      cases hstep with
      | record =>
        rw [hanswer] at hreply
        cases hreply
  | @everyone ids es hspread =>
    cases ht with
    | cons hstep htail =>
      rw [Site.worlds_cons hstep]
      have hnext := holds_of_step hg hstep trivial id hh
      generalize hreply : (Except.ok ids : Record.Call.Reply .relations) = reply at hstep
      cases hstep with
      | record =>
        rw [hanswer] at hreply
        obtain rfl := Except.ok.inj hreply
        obtain ⟨last, hkeeps, hlast, hPlast, hbeside, hget⟩ :=
          keeps_of_spread hg hspread htail hnext (by simp) hp hempty hdata
        have hfiles : g.files ((g.site store).record .relations u).world = g.files u :=
          files_record hg store .relations u
        rw [hfiles] at hbeside
        refine ⟨last, .cons (.refl bags) hnext hp hkeeps, hlast, hPlast, hbeside, ?_⟩
        intro id bag hb
        rw [hget] at hb
        split at hb
        · exact (Option.some.inj hb).symm
        · next hid =>
          rw [Std.ExtTreeMap.mem_keys, ← Std.ExtTreeMap.isSome_getElem?_iff_mem, hb] at hid
          exact absurd rfl hid

end stretches

end Hooks

end RelayKeeper
