import RelayKeeper.Proofs.KeyReadiness
import RelayKeeper.Proofs.MindfulHosts

/-! # Installing again

An installation that completes leaves the record and the files of the host as they stay when another
one completes after it, however the host answers in between. -/
namespace RelayKeeper

open FileTree (Rooted placeOf)
open Record (Ground Store)

namespace Hooks

open Relay

variable {ω ε : Type}

structure SameKeys (settings : Settings) (t u : FileTree) : Prop where
  rsa : t.read settings.keyMaterial.rsaPublicKey = u.read settings.keyMaterial.rsaPublicKey
  ed25519 : t.read settings.keyMaterial.ed25519PublicKey =
    u.read settings.keyMaterial.ed25519PublicKey

/-- The places of the record and of the files that an installation writes on the host. -/
inductive Kept (settings : Settings) (current place : Place) : Place → Prop where
  | status : Kept settings current place (place ++ ["status.json"])
  | ports : Kept settings current place (place ++ ["ports.json"])
  | bags (below : Place) : Kept settings current place (Store.bagsPlace place ++ below)
  | host {path} : path ∈ hostFiles settings → Kept settings current place (placeOf current path)

/-- Everything below the root of the record, and the files of the host. -/
def Whole (settings : Settings) (current place q : Place) : Prop :=
  place <+: q ∨ ∃ path ∈ hostFiles settings, placeOf current path = q

theorem Kept.whole {settings : Settings} {current place q : Place}
    (h : Kept settings current place q) : Whole settings current place q := by
  cases h with
  | status | ports => exact .inl (List.prefix_append _ _)
  | bags below => exact .inl ((List.prefix_append _ _).trans (List.prefix_append _ _))
  | host hpath => exact .inr ⟨_, hpath, rfl⟩

theorem HookRun.events_eq (h : HookRun ω) {site : Site ω} {es : List Event}
    (hr : Ran site h.start (h.after site) es) : h.events site = es := by
  rw [HookRun.events, hr.trace]
  exact List.drop_left

def installing (settings : Settings) (state : Provision.State) (start : Session ω) : HookRun ω :=
  ⟨settings, .install state, start⟩

structure Course (store : Store) (place : Place) (own : Place → Prop) (settings : Settings)
    (plan : List (Step ε)) (address : Net.Address) (start first t w : FileTree)
    (es : List Event) : Prop where
  enters : store.setStatus (.maintenance "Installing packages.") start = (.ok (), first)
  evolves : Evolves store place own es first t
  puts : ∀ q, es.filterMap (Event.puts? start.current q) =
    plan.filterMap (Step.puts? start.current q)
  finishes : ∃ u v, Finishes store settings address t u v w

section installing

variable {g : Ground ω} {store : Store} {place : Place} {own : Place → Prop} {settings : Settings}
  {state : Provision.State} {address : Net.Address} {s : Session ω} {u v : ω} {es : List Event}

/-- An installation that completes, on a host that minds the record, takes its course. -/
theorem exists_course (hg : Lawful g) (haddress : state.address = some address)
    (houtside : ∀ path ∈ hostFiles settings,
      ¬ placeOf (g.files s.world).current store.root <+: placeOf (g.files s.world).current path)
    (hown : own (placeOf (g.files s.world).current store.root ++ ["status.json"]))
    (hminded : Minded g store (placeOf (g.files s.world).current store.root) own s.world
      ((installing settings state s).events (g.site store)))
    (hdone : (installing settings state s).ending (g.site store) = .ok .completed) :
    ∃ first t es, Course store (placeOf (g.files s.world).current store.root) own settings
      (provisionPlan settings address state.proxy) address (g.files s.world) first t
      (g.files ((installing settings state s).after (g.site store)).world) es := by
  obtain ⟨es, hr, hc⟩ := follows_install (g.site store) settings haddress s
  have hevents := (installing settings state s).events_eq hr
  have hok : (install (g.site store) settings state s).1 = .ok .completed := hdone
  rw [hok] at hc
  rw [hevents] at hminded
  rcases hc.of_append with ⟨-, hne⟩ | ⟨before, t, after, rfl, hbefore, ht, hafter⟩
  · exact absurd rfl hne
  obtain ⟨rest, hplan⟩ : ∃ rest, provisionPlan settings address state.proxy =
      statusStep (.maintenance "Installing packages.") :: rest := ⟨_, rfl⟩
  have hcut := hplan ▸ hbefore
  rcases hcut.of_note with ⟨_, _, _, _, hnone⟩ | ⟨reply, first, fs, rfl, hset, hfirst, hrest⟩
  · cases hnone
  have henters := setStatus_of_takes hg hfirst.world hset
  -- From here on the root of the record is there.
  have hcurrent := Store.current_of_setStatus henters
  have hrooted := Store.rooted_of_setStatus henters
  have hwrites := writesOnly_provisionPlan settings address state.proxy
  have hwritesRest : ∀ step ∈ rest, step.WritesOnly (hostFiles settings) := fun step hstep =>
    hwrites step (hplan ▸ List.mem_cons_of_mem _ hstep)
  have hputs : ∀ q, fs.filterMap (Event.puts? (g.files s.world).current q) =
      rest.filterMap (Step.puts? (g.files s.world).current q) :=
    hrest.filterMap_puts hwritesRest _
  have hmindedRest : Minded g store _ own first.world fs :=
    (minded_of_append hfirst.world (minded_of_append ht.world hminded).1).2
  refine ⟨_, _, fs, henters, ?_, ?_, finishes_of_cut hg hafter (ht.drop hr)⟩
  · refine evolves_of_takes hg (hfirst.drop ht).world hrooted hmindedRest hown ?_ ?_
    · rw [hcurrent, hputs]
      refine filterMap_puts_eq_nil hwritesRest fun path hpath heq => houtside path hpath ?_
      rw [heq]
      exact List.prefix_append _ _
    · intro call reply he
      obtain ⟨message, hcall⟩ :=
        record_of_provisionPlan settings hbefore (List.mem_cons_of_mem _ he)
      exact ⟨_, hcall⟩
  · intro q
    rw [hputs, hplan]
    rfl

end installing

namespace Course

variable {store : Store} {place : Place} {own : Place → Prop} {settings : Settings}
  {plan : List (Step ε)} {address : Net.Address} {start first t w first' t' w' : FileTree}
  {es es' : List Event} {q : Place}

theorem current (c : Course store place own settings plan address start first t w es) :
    w.current = start.current := by
  obtain ⟨u, v, hf⟩ := c.finishes
  rw [(hf.beside c.evolves.rooted).current, c.evolves.current, Store.current_of_setStatus c.enters]

theorem settled (c : Course store place own settings plan address start first t w es) :
    Settled store place settings address w := by
  obtain ⟨u, v, hf⟩ := c.finishes
  exact hf.settled c.evolves.rooted

/-- Nothing is put into the record. -/
theorem lastPut_eq_none (c : Course store place own settings plan address start first t w es)
    (hplan : ∀ step ∈ plan, step.WritesOnly (hostFiles settings))
    (houtside : ∀ path ∈ hostFiles settings, ¬ place <+: placeOf start.current path)
    (hq : place <+: q) : lastPut start.current q es = none := by
  rw [lastPut, c.puts, filterMap_puts_eq_nil hplan fun path hpath heq => houtside path hpath ?_]
  · rfl
  · exact heq ▸ hq

/-- What was put on the host is there at the end. -/
theorem node_of_lastPut (c : Course store place own settings plan address start first t w es)
    (hplan : ∀ step ∈ plan, step.WritesOnly (hostFiles settings))
    (houtside : ∀ path ∈ hostFiles settings, ¬ place <+: placeOf start.current path)
    (hq : own q) {node : Node} (hput : lastPut start.current q es = some node) :
    w.node? q = some node := by
  have hplace : ¬ place <+: q := by
    intro h
    rw [c.lastPut_eq_none hplan houtside h] at hput
    cases hput
  have hstatus : q ≠ place ++ ["status.json"] := by
    rintro rfl
    exact hplace (List.prefix_append _ _)
  obtain ⟨u, v, hf⟩ := c.finishes
  rw [hf.node_eq c.evolves.rooted hplace, c.evolves.node q hq hstatus,
    Store.current_of_setStatus c.enters, hput]
  rfl

/-- An installation that is done again changes nothing that is kept. -/
theorem again (c : Course store place own settings plan address start first t w es)
    (k : Course store place own settings plan address w first' t' w' es')
    (hplan : ∀ step ∈ plan, step.WritesOnly (hostFiles settings))
    (houtside : ∀ path ∈ hostFiles settings, ¬ place <+: placeOf start.current path)
    (hown : ∀ q, Kept settings start.current place q → own q)
    (hkeys : SameKeys settings w w') (hq : own q) : w'.node? q = w.node? q := by
  have hsettled := c.settled
  have henters := (Store.rewrites_of_setStatus hsettled.rooted k.enters).1
  have houtside' : ∀ path ∈ hostFiles settings, ¬ place <+: placeOf w.current path := by
    rw [c.current]
    exact houtside
  have hprovisioned : ∀ q, own q → q ≠ place ++ ["status.json"] →
      t'.node? q = (lastPut w.current q es').or (w.node? q) := by
    intro q hq hne
    rw [k.evolves.node q hq hne, henters.rest q hne, henters.current]
  have hbooks : SameBooks place w t' := by
    have hrecord : ∀ q, place <+: q → q ≠ place ++ ["status.json"] →
        Kept settings start.current place q → t'.node? q = w.node? q := by
      intro q hplace hne hkept
      rw [hprovisioned q (hown q hkept) hne, k.lastPut_eq_none hplan houtside' hplace]
      rfl
    refine ⟨hrecord _ (List.prefix_append _ _) (by simp) .ports, fun below => ?_⟩
    refine hrecord _ ?_ (by simp [Store.bagsPlace, Store.bagsName]) (.bags below)
    exact (List.prefix_append _ _).trans (List.prefix_append _ _)
  obtain ⟨u, v, hf⟩ := k.finishes
  have hfinish := hf.rewrites_of_settled k.evolves.rooted hsettled hbooks fun ready hready =>
    Key.Material.ready_of_read hkeys.rsa.symm hkeys.ed25519.symm hready
  by_cases hstatus : q = place ++ ["status.json"]
  -- The unit is active in the end both times, and the file of its status keeps its mode.
  · subst hstatus
    obtain ⟨mode, hactive⟩ := hsettled.active
    obtain ⟨_, hentered⟩ := henters.mode _ _ hactive
    obtain ⟨_, hevolved⟩ := k.evolves.mode _ _ hentered
    obtain ⟨_, hlast⟩ := hfinish.mode _ _ hevolved
    obtain ⟨mode', hactive'⟩ := k.settled.active
    obtain ⟨-, rfl⟩ := Node.file.inj (Option.some.inj (hlast.symm.trans hactive'))
    rw [hactive', hactive]
  · rw [hfinish.rest q hstatus, hprovisioned q hq hstatus]
    have hputs : lastPut w.current q es' = lastPut start.current q es := by
      rw [lastPut, k.puts, lastPut, c.puts, c.current]
    rw [hputs]
    cases hput : lastPut start.current q es with
    | none => rfl
    | some node => exact (c.node_of_lastPut hplan houtside hq hput).symm

end Course

/-- An installation is completed on a host that minds the record. -/
structure Installed (g : Ground ω) (store : Store) (settings : Settings) (state : Provision.State)
    (own : Place → Prop) (s : Session ω) : Prop where
  minded : Minded g store (placeOf (g.files s.world).current store.root) own s.world
    ((installing settings state s).events (g.site store))
  done : (installing settings state s).ending (g.site store) = .ok .completed

/-- After an installation that completes another one that completes, with the same public keys in
the end, changes nothing in the record and in the files of the host, nor at any other place that the
host minds. The files of the host have to lie outside the record; the trees, the answers of the host
and the bags may be any. -/
theorem install_again (g : Ground ω) (store : Store) (settings : Settings)
    (state : Provision.State) (address : Net.Address) (own : Place → Prop) (s s' : Session ω)
    (hg : Lawful g) (haddress : state.address = some address)
    (houtside : ∀ path ∈ hostFiles settings,
      ¬ placeOf (g.files s.world).current store.root <+: placeOf (g.files s.world).current path)
    (hown : ∀ q, Kept settings (g.files s.world).current
      (placeOf (g.files s.world).current store.root) q → own q)
    (hfirst : Installed g store settings state own s)
    (hnext : s'.world = ((installing settings state s).after (g.site store)).world)
    (hsecond : Installed g store settings state own s')
    (hkeys : SameKeys settings
      (g.files ((installing settings state s).after (g.site store)).world)
      (g.files ((installing settings state s').after (g.site store)).world)) :
    ∀ q, own q →
      (g.files ((installing settings state s').after (g.site store)).world).node? q =
        (g.files ((installing settings state s).after (g.site store)).world).node? q := by
  intro q hq
  obtain ⟨_, _, _, c⟩ :=
    exists_course hg haddress houtside (hown _ .status) hfirst.minded hfirst.done
  have hcurrent : (g.files s'.world).current = (g.files s.world).current := by
    rw [hnext, c.current]
  have houtside' : ∀ path ∈ hostFiles settings,
      ¬ placeOf (g.files s'.world).current store.root <+:
        placeOf (g.files s'.world).current path := by
    rw [hcurrent]
    exact houtside
  obtain ⟨_, _, _, k⟩ := exists_course hg haddress houtside'
    (hown _ (hcurrent ▸ .status)) hsecond.minded hsecond.done
  rw [hcurrent, hnext] at k
  exact c.again k (writesOnly_provisionPlan settings address state.proxy) houtside hown hkeys hq

/-! ## On a host that does as it is told -/

theorem HookRun.takes (h : HookRun ω) (site : Site ω) :
    site.Takes h.start.world (h.events site) (h.after site).world := by
  obtain ⟨es, hr, -⟩ := serves site h.settings h.trigger h.start
  rw [h.events_eq hr]
  exact hr.world

def keyedSettings : Settings := { keysDir := some ⟨"/keys"⟩, packages := [] }

def proxied : Provision.State where
  address := some (.hostname ['r'])
  proxy := some ⟨some "http://proxy", none, none⟩

def firstInstall : Session FileTree where
  world := (Store.join ⟨⟨"/state"⟩⟩ "web:0" keyed).world

def resumed (s : Session ω) : Session ω where
  world := s.world

theorem world_resumed (s : Session ω) : (resumed s).world = s.world := rfl

def secondInstall : Session FileTree :=
  resumed ((installing keyedSettings proxied firstInstall).after (obedient.site ⟨⟨"/state"⟩⟩))

theorem world_secondInstall : secondInstall.world =
    ((installing keyedSettings proxied firstInstall).after (obedient.site ⟨⟨"/state"⟩⟩)).world := by
  rw [secondInstall]
  exact world_resumed _

/-- Both installations complete, and the keys stay. -/
theorem obedient_runs :
    (obedient.files firstInstall.world).current = [] ∧
      (installing keyedSettings proxied firstInstall).ending (obedient.site ⟨⟨"/state"⟩⟩) =
        .ok .completed ∧
      (installing keyedSettings proxied secondInstall).ending (obedient.site ⟨⟨"/state"⟩⟩) =
        .ok .completed ∧
      ∀ path ∈ [keyedSettings.keyMaterial.rsaPublicKey,
          keyedSettings.keyMaterial.ed25519PublicKey],
        (obedient.files ((installing keyedSettings proxied firstInstall).after
            (obedient.site ⟨⟨"/state"⟩⟩)).world).read path =
          (obedient.files ((installing keyedSettings proxied secondInstall).after
            (obedient.site ⟨⟨"/state"⟩⟩)).world).read path := by
  decide +kernel

theorem install_again_obedient :
    (installing keyedSettings proxied firstInstall).ending (obedient.site ⟨⟨"/state"⟩⟩) =
        .ok .completed ∧
      (installing keyedSettings proxied secondInstall).ending (obedient.site ⟨⟨"/state"⟩⟩) =
        .ok .completed ∧
      ∀ q, Whole keyedSettings [] ["state"] q →
        (obedient.files ((installing keyedSettings proxied secondInstall).after
            (obedient.site ⟨⟨"/state"⟩⟩)).world).node? q =
          (obedient.files ((installing keyedSettings proxied firstInstall).after
            (obedient.site ⟨⟨"/state"⟩⟩)).world).node? q := by
  have hminded : ∀ s : Session FileTree,
      Minded obedient ⟨⟨"/state"⟩⟩ (placeOf (obedient.files s.world).current ⟨"/state"⟩)
        (Whole keyedSettings [] ["state"]) s.world
        ((installing keyedSettings proxied s).events (obedient.site ⟨⟨"/state"⟩⟩)) := fun s =>
    minded_obedient ((installing keyedSettings proxied s).takes _)
  obtain ⟨hcurrent, hfirst, hsecond, hkeys⟩ := obedient_runs
  have hnext := world_secondInstall
  -- The sessions are named only, so that nothing runs once more.
  generalize firstInstall = s, secondInstall = s' at hcurrent hfirst hsecond hkeys hnext ⊢
  have houtside : ∀ path ∈ hostFiles keyedSettings,
      ¬ placeOf (obedient.files s.world).current ⟨"/state"⟩ <+:
        placeOf (obedient.files s.world).current path := by
    rw [hcurrent]
    decide +kernel
  have hwhole : ∀ q, Kept keyedSettings (obedient.files s.world).current
      (placeOf (obedient.files s.world).current ⟨"/state"⟩) q →
        Whole keyedSettings [] ["state"] q := by
    have hplace : placeOf [] ⟨"/state"⟩ = ["state"] := by decide
    rw [hcurrent, hplace]
    exact fun q hq => hq.whole
  refine ⟨hfirst, hsecond, ?_⟩
  exact install_again obedient ⟨⟨"/state"⟩⟩ keyedSettings proxied (.hostname ['r']) _ s s'
    (fun _ _ => rfl) rfl houtside hwhole ⟨hminded s, hfirst⟩ hnext ⟨hminded s', hsecond⟩
    ⟨hkeys _ (by simp), hkeys _ (by simp)⟩

end Hooks

end RelayKeeper
