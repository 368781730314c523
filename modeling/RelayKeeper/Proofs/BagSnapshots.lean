import RelayKeeper.Proofs.BagMoments
import RelayKeeper.Proofs.KeyReading

/-! # Bags are snapshots

Hooks run in any order, consumers join in between, and whatever is not of the record may change from
one hook to the next. Every bag is at every moment empty or the profile of one hook, nothing is
taken away, and a hook that completes with an address while the keys are ready has served
everyone. -/
namespace RelayKeeper

open FileTree (Beside)
open Record (Bag Bags Ground Profile Store)

variable {ω : Type}

namespace Record.Profile

theorem mem_bag (p : Profile) (key : String) :
    key ∈ p.bag ↔ key ∈ ["host", "port", "rsa_fingerprint", "ed25519_fingerprint"] := by
  rw [bag, Std.ExtTreeMap.mem_ofList]
  simp

theorem getElem_bag (p : Profile) :
    [p.bag["host"]?, p.bag["port"]?, p.bag["rsa_fingerprint"]?, p.bag["ed25519_fingerprint"]?] =
      [p.host, toString p.port, p.rsa, p.ed25519].map some := by
  have hentry : ∀ key value, (key, value) ∈ [("host", p.host), ("port", toString p.port),
      ("rsa_fingerprint", p.rsa), ("ed25519_fingerprint", p.ed25519)] →
      p.bag[key]? = some value := by
    intro key value hmem
    exact Std.ExtTreeMap.getElem?_ofList_of_mem Std.ReflCmp.compare_self (by simp) hmem
  rw [hentry "host" p.host (by simp), hentry "port" (toString p.port) (by simp),
    hentry "rsa_fingerprint" p.rsa (by simp), hentry "ed25519_fingerprint" p.ed25519 (by simp)]
  rfl

/-- The bag has these four entries and no other. -/
structure Fills (bag : Bag) (host port rsa ed25519 : String) : Prop where
  entries : [bag["host"]?, bag["port"]?, bag["rsa_fingerprint"]?, bag["ed25519_fingerprint"]?] =
    [host, port, rsa, ed25519].map some
  keys : ∀ key ∈ bag, key ∈ ["host", "port", "rsa_fingerprint", "ed25519_fingerprint"]

theorem fills_bag (p : Profile) : Fills p.bag p.host (toString p.port) p.rsa p.ed25519 :=
  ⟨p.getElem_bag, fun key hk => (p.mem_bag key).mp hk⟩

/-- A profile put over another is there as if there had been none. -/
theorem Fills.overlay {bag : Bag} {host port rsa ed25519 : String}
    (h : Fills bag host port rsa ed25519) (p : Profile) : bag.overlay p.bag = p.bag := by
  apply Std.ExtTreeMap.ext_getElem?
  intro key
  rw [Bag.getElem?_overlay]
  by_cases hk : key ∈ p.bag
  · have hsome := Std.ExtTreeMap.isSome_getElem?_iff_mem.mpr hk
    exact Option.or_of_isSome hsome
  · have hnot : key ∉ bag := fun hmem => hk ((p.mem_bag key).mpr (h.keys key hmem))
    have hnone : bag[key]? = none := by simpa using hnot
    rw [hnone, Option.or_none]

theorem empty_overlay (data : Bag) : Bag.overlay ∅ data = data := by
  apply Std.ExtTreeMap.ext_getElem?
  intro key
  rw [Bag.getElem?_overlay]
  simp

end Record.Profile

namespace Hooks

structure HookRun (ω : Type) where
  settings : Settings
  trigger : Trigger
  start : Session ω

namespace HookRun

def ending (h : HookRun ω) (site : Site ω) : Except (Halt HookError) Outcome :=
  (h.trigger.hook site h.settings h.start).1

def after (h : HookRun ω) (site : Site ω) : Session ω :=
  (h.trigger.hook site h.settings h.start).2

def events (h : HookRun ω) (site : Site ω) : List Event :=
  (h.after site).trace.drop h.start.trace.length

def worlds (h : HookRun ω) (site : Site ω) : List ω :=
  site.worlds h.start.world (h.events site)

/-- The hook has this address, and at some moment of it the keys have these fingerprints. -/
def Offers (h : HookRun ω) (site : Site ω) (address : Net.Address) (ready : Key.Fingerprints) :
    Prop :=
  h.trigger.address = some address ∧ ∃ w ∈ h.start.world :: h.worlds site,
    Relay.fingerprints h.settings (site.files w) = .ok (.ready ready)

end HookRun

/-- The bag is empty, or has what one of the hooks offered and nothing else. -/
def Snapshot (site : Site ω) (log : List (HookRun ω)) (bag : Bag) : Prop :=
  bag = ∅ ∨ ∃ h ∈ log, ∃ address ready, h.Offers site address ready ∧
    Profile.Fills bag address.text (toString h.settings.port) ready.rsa ready.ed25519

/-- What the host does during the hook touches no bag. -/
def HookRun.Spares (h : HookRun ω) (g : Ground ω) (store : Store) (place : Place) : Prop :=
  Spared g store place h.start.world (h.events (g.site store))

/-- What may happen to a store that only hooks and joins write: the hooks that ran, the worlds that
were there, one after the other, and the last of them. -/
inductive Run (g : Ground ω) (store : Store) (place : Place) :
    List (HookRun ω) → List ω → ω → Prop where
  | start {w} : store.Lies (g.files w) place → Store.ShowsBags (g.files w) place ∅ →
      Run g store place [] [w] w
  | change {log ws w} (v : ω) : Run g store place log ws w →
      store.Untouched place (g.files w) (g.files v) → Run g store place log (ws ++ [v]) v
  | join {log ws w} (id : String) : Run g store place log ws w →
      Run g store place log (ws ++ [(g.onFiles (store.join id) w).world])
        (g.onFiles (store.join id) w).world
  | hook {log ws} (h : HookRun ω) : Run g store place log ws h.start.world →
      h.Spares g store place →
      Run g store place (log ++ [h]) (ws ++ h.worlds (g.site store)) (h.after (g.site store)).world

def Consistent (site : Site ω) (store : Store) (log : List (HookRun ω)) (w : ω) : Prop :=
  ∃ ids, store.relations (site.files w) = .ok ids ∧
    ∀ id ∈ ids, ∃ bag, store.relationData id (site.files w) = .ok bag ∧ Snapshot site log bag

def Retained (store : Store) (t u : FileTree) : Prop :=
  ∀ ids, store.relations t = .ok ids → ∃ later, store.relations u = .ok later ∧
    ∀ id ∈ ids, id ∈ later ∧ ∀ bag, store.relationData id t = .ok bag →
      ∃ new, store.relationData id u = .ok new ∧ ∀ key ∈ bag, key ∈ new

def Served (store : Store) (t : FileTree) (host port rsa ed25519 : String) : Prop :=
  ∃ ids, store.relations t = .ok ids ∧ ∀ id ∈ ids, ∃ bag,
    store.relationData id t = .ok bag ∧ Profile.Fills bag host port rsa ed25519

section reading

variable {g : Ground ω} {store : Store} {place : Place} {t u : FileTree} {bags next : Bags}

theorem consistent_of_holds {site : Site ω} {w : ω} {log : List (HookRun ω)}
    (hh : store.Holds (site.files w) place bags) (hall : bags.All (Snapshot site log)) :
    Consistent site store log w := by
  refine ⟨_, hh.relations_eq, fun id hid => ?_⟩
  have hm : id ∈ bags := Std.ExtTreeMap.mem_keys.mp hid
  exact ⟨_, hh.relationData_eq hm, hall id _ (Bags.getElem?_of_mem hm)⟩

theorem retained_of_grows (hh : store.Holds t place bags) (hn : store.Holds u place next)
    (hg : bags.Grows next) : Retained store t u := by
  intro ids hids
  rw [hh.relations_eq] at hids
  obtain rfl := Except.ok.inj hids
  refine ⟨_, hn.relations_eq, fun id hid => ?_⟩
  have hm : id ∈ bags := Std.ExtTreeMap.mem_keys.mp hid
  obtain ⟨new, hnew, hkeys⟩ := hg id _ (Bags.getElem?_of_mem hm)
  have hmnext : id ∈ next := Std.ExtTreeMap.isSome_getElem?_iff_mem.mp (by rw [hnew]; rfl)
  refine ⟨Std.ExtTreeMap.mem_keys.mpr hmnext, fun bag hbag => ?_⟩
  rw [hh.relationData_eq hm] at hbag
  obtain rfl := Except.ok.inj hbag
  refine ⟨new, ?_, hkeys⟩
  rw [hn.relationData_eq hmnext, hnew]
  rfl

theorem served_of_holds (hh : store.Holds t place bags) {p : Profile}
    (hall : bags.All (· = p.bag)) :
    Served store t p.host (toString p.port) p.rsa p.ed25519 := by
  refine ⟨_, hh.relations_eq, fun id hid => ?_⟩
  have hm : id ∈ bags := Std.ExtTreeMap.mem_keys.mp hid
  refine ⟨p.bag, ?_, p.fills_bag⟩
  rw [hh.relationData_eq hm, hall id _ (Bags.getElem?_of_mem hm)]

theorem Keeps.pairwise {P : Bag → Prop} {ws : List ω}
    (h : Keeps g store place P bags ws next) :
    ws.Pairwise fun v w => Retained store (g.files v) (g.files w) := by
  induction h with
  | nil => exact .nil
  | cons _ hh _ hkeeps ih =>
    refine .cons (fun w hw => ?_) ih
    obtain ⟨later, hgrows, hholds, -⟩ := hkeeps.exists_holds hw
    exact retained_of_grows hh hholds hgrows

end reading

section hooks

variable {g : Ground ω} {store : Store} {place : Place} {bags : Bags} {log : List (HookRun ω)}
  {h : HookRun ω}

theorem Snapshot.mono {site : Site ω} {bag : Bag} (hs : Snapshot site log bag) (h : HookRun ω) :
    Snapshot site (log ++ [h]) bag := by
  rcases hs with rfl | ⟨k, hk, address, ready, hoffers, hfills⟩
  · exact .inl rfl
  · exact .inr ⟨k, List.mem_append_left _ hk, address, ready, hoffers, hfills⟩

theorem Snapshot.overlay {site : Site ω} {bag : Bag} (hs : Snapshot site log bag) (p : Profile) :
    bag.overlay p.bag = p.bag := by
  rcases hs with rfl | ⟨_, _, address, ready, -, hfills⟩
  · exact Profile.empty_overlay p.bag
  · exact hfills.overlay p

/-- What a hook leaves: through its worlds the bags are snapshots, and if it completes with an
address while the keys are ready, they are all the profile of these. -/
structure Leaves (g : Ground ω) (store : Store) (place : Place) (log : List (HookRun ω))
    (h : HookRun ω) (bags last : Bags) : Prop where
  keeps : Keeps g store place (Snapshot (g.site store) (log ++ [h])) bags
    (h.worlds (g.site store)) last
  holds : store.Holds (g.files (h.after (g.site store)).world) place last
  all : last.All (Snapshot (g.site store) (log ++ [h]))
  served : h.ending (g.site store) = .ok .completed →
    ∀ address ready, h.trigger.address = some address →
      Relay.fingerprints h.settings (g.files (h.after (g.site store)).world) = .ok (.ready ready) →
      last.All (· = (Profile.of address h.settings.port ready).bag)

theorem ready_of_setsStatus (hg : Lawful g) {u v : ω} {es : List Event}
    (ht : (g.site store).Takes u es v) (hs : ∀ e ∈ es, e.SetsStatus)
    (hh : store.Holds (g.files u) place bags) {id : String} (hm : id ∈ bags) {settings : Settings}
    {ready : Key.Fingerprints}
    (hready : Relay.fingerprints settings (g.files v) = .ok (.ready ready)) :
    Relay.fingerprints settings (g.files u) = .ok (.ready ready) :=
  Key.Material.fingerprints_beside (beside_of_setsStatus hg ht hs hh hm) hready

/-- After the consumers were told and the status was set, everyone has the profile of the keys, if
these are ready. -/
theorem keeps_of_told (hg : Lawful g) {P : Bag → Prop} {u v : ω}
    {told post : List Event} {settings : Settings} {address : Net.Address}
    (htold : Told settings address (g.files u) told)
    (ht : (g.site store).Takes u (told ++ post) v) (hpost : ∀ e ∈ post, e.SetsStatus)
    (hh : store.Holds (g.files u) place bags) (hall : bags.All P)
    (hover : ∀ bag, P bag → ∀ p : Profile, bag.overlay p.bag = p.bag)
    (hoffer : ∀ ready, Relay.fingerprints settings (g.files u) = .ok (.ready ready) →
      P (Profile.of address settings.port ready).bag) :
    ∃ last, Keeps g store place P bags ((g.site store).worlds u (told ++ post)) last ∧
      store.Holds (g.files v) place last ∧ last.All P ∧
      ∀ ready, Relay.fingerprints settings (g.files v) = .ok (.ready ready) →
        last.All (· = (Profile.of address settings.port ready).bag) := by
  obtain ⟨w, hw, hv⟩ := ht.of_append
  have hsilent : Silent post := .of_setsStatus hpost
  rw [Site.worlds_append hw]
  cases htold with
  | nothing hnever =>
    -- Keys that are ready in the end were ready then, unless there is nobody to tell.
    cases hw
    obtain ⟨hkeeps, hlast⟩ :=
      keeps_of_silent hg hv (spared_of_setsStatus hpost u) hsilent hh hall
    refine ⟨bags, hkeeps, hlast, hall, fun ready hready id bag hb => ?_⟩
    have hm : id ∈ bags := Std.ExtTreeMap.isSome_getElem?_iff_mem.mp (by rw [hb]; rfl)
    exact absurd (ready_of_setsStatus hg hv hpost hh hm hready) (hnever ready)
  | @profile fingerprints _ hf ha =>
    have hp := hoffer fingerprints hf
    obtain ⟨last, hkeeps, hheld, hallLast, hbeside, hserved⟩ :=
      keeps_of_announced hg ha hw hh hall (fun bag hb => hover bag hb _) hp
    obtain ⟨hkeepsPost, hlast⟩ :=
      keeps_of_silent hg hv (spared_of_setsStatus hpost w) hsilent hheld hallLast
    refine ⟨last, hkeeps.append hkeepsPost, hlast, hallLast, fun ready hready id bag hb => ?_⟩
    have hm : id ∈ last := Std.ExtTreeMap.isSome_getElem?_iff_mem.mp (by rw [hb]; rfl)
    have hthen := ready_of_setsStatus hg hv hpost hheld hm hready
    have hbefore : Relay.fingerprints settings (g.files u) = .ok (.ready ready) :=
      Key.Material.fingerprints_beside hbeside hthen
    obtain rfl : fingerprints = ready := by
      rw [hf] at hbefore
      injection hbefore with hbefore
      injection hbefore
    exact hserved id bag hb

theorem exists_leaves (hg : Lawful g) (h : HookRun ω) (hspares : h.Spares g store place)
    (hh : store.Holds (g.files h.start.world) place bags)
    (hall : bags.All (Snapshot (g.site store) log)) :
    ∃ last, Leaves g store place log h bags last := by
  obtain ⟨es, hr, hserves⟩ := serves (g.site store) h.settings h.trigger h.start
  have hevents : h.events (g.site store) = es := by
    rw [HookRun.events, HookRun.after, hr.trace, List.drop_left]
  have hworlds : h.worlds (g.site store) = (g.site store).worlds h.start.world es := by
    rw [HookRun.worlds, hevents]
  have hspared : Spared g store place h.start.world es := hevents ▸ hspares
  have hmore : bags.All (Snapshot (g.site store) (log ++ [h])) := fun id bag hb =>
    (hall id bag hb).mono h
  cases hserves with
  | silent hsilent hend =>
    obtain ⟨hkeeps, hlast⟩ := keeps_of_silent hg hr.world hspared hsilent hh hmore
    refine ⟨bags, hworlds ▸ hkeeps, hlast, hmore, fun hdone address ready haddress => ?_⟩
    rcases hend with hnone | hother
    · rw [haddress] at hnone
      cases hnone
    · exact absurd hdone hother
  | @tells address t pre told post r haddress hpre ht htold hpost =>
    have hbefore : Spared g store place h.start.world pre := (spared_of_append ht.world hspared).1
    obtain ⟨hkeeps, hheld⟩ := keeps_of_silent hg ht.world hbefore hpre hh hmore
    have hmoment : t.world ∈ h.start.world :: h.worlds (g.site store) := by
      have hmem := Site.mem_worlds ht.world
      rw [hworlds, Site.worlds_append ht.world, ← List.cons_append]
      exact List.mem_append_left _ hmem
    have hoffer : ∀ ready, Relay.fingerprints h.settings (g.files t.world) = .ok (.ready ready) →
        Snapshot (g.site store) (log ++ [h])
          (Profile.of address h.settings.port ready).bag := by
      intro ready hready
      refine .inr ⟨h, by simp, address, ready, ⟨haddress, t.world, hmoment, hready⟩, ?_⟩
      exact (Profile.of address h.settings.port ready).fills_bag
    obtain ⟨last, hrest, hlast, hallLast, hserved⟩ := keeps_of_told hg htold (ht.drop hr).world
      hpost hheld hmore (fun bag hs p => hs.overlay p) hoffer
    refine ⟨last, ?_, hlast, hallLast, fun hdone other ready hother hready => ?_⟩
    · rw [hworlds, Site.worlds_append ht.world]
      exact hkeeps.append hrest
    · obtain rfl : address = other := Option.some.inj (haddress.symm.trans hother)
      exact hserved ready hready

end hooks

section runs

variable {g : Ground ω} {store : Store} {place : Place} {log : List (HookRun ω)} {ws : List ω}
  {w : ω}

theorem all_empty (P : Bag → Prop) : Bags.All P ∅ := by
  intro id bag hb
  simp at hb

/-- Joining keeps every bag; a new one is empty. -/
theorem holds_join (hg : Lawful g) {P : Bag → Prop} {bags : Bags} (hP : P ∅)
    (hh : store.Holds (g.files w) place bags) (hall : bags.All P) (id : String) :
    ∃ next, bags.Grows next ∧
      store.Holds (g.files (g.onFiles (store.join id) w).world) place next ∧ next.All P := by
  obtain ⟨r, t, next, ht, hheld, hnext⟩ := hh.joinRelation id
  have hfiles : g.files (g.onFiles (store.join id) w).world = t := by
    rw [Ground.onFiles, hg]
    simp only [Store.join, ht]
  rw [hfiles]
  rcases hnext with rfl | ⟨hnew, rfl⟩
  · exact ⟨next, .refl next, hheld, hall⟩
  · have hgrows : bags.Grows (bags.insert id ∅) := by
      refine .insert fun bag hb => ?_
      rw [← Std.ExtTreeMap.isSome_getElem?_iff_mem, hb] at hnew
      exact absurd rfl hnew
    exact ⟨_, hgrows, hheld, hall.insert hP⟩

/-- Through a run the bags grow and are snapshots. -/
theorem Run.exists_keeps (hg : Lawful g) (hrun : Run g store place log ws w) :
    ∃ bags, Keeps g store place (Snapshot (g.site store) log) ∅ ws bags ∧
      store.Holds (g.files w) place bags ∧ bags.All (Snapshot (g.site store) log) := by
  -- The bags after each step are those that the next one starts from.
  induction hrun with
  | start hlies hshows =>
    have hall := all_empty (Snapshot (g.site store) [])
    exact ⟨∅, .single (.refl ∅) ⟨hlies, hshows⟩ hall, ⟨hlies, hshows⟩, hall⟩
  | change v _ hv ih =>
    obtain ⟨bags, hkeeps, hh, hall⟩ := ih
    have hnext := hh.untouched hv
    exact ⟨bags, hkeeps.append (.single (.refl bags) hnext hall), hnext, hall⟩
  | join id _ ih =>
    obtain ⟨bags, hkeeps, hh, hall⟩ := ih
    obtain ⟨next, hgrows, hnext, hallNext⟩ := holds_join hg (.inl rfl) hh hall id
    exact ⟨next, hkeeps.append (.single hgrows hnext hallNext), hnext, hallNext⟩
  | hook h _ hspares ih =>
    obtain ⟨bags, hkeeps, hh, hall⟩ := ih
    obtain ⟨last, hleaves⟩ := exists_leaves hg h hspares hh hall
    have hmore := hkeeps.mono fun _ hs => hs.mono h
    exact ⟨last, hmore.append hleaves.keeps, hleaves.holds, hleaves.all⟩

/-- In a run every bag is at every moment empty, or has the address and the port of one hook and the
fingerprints of the keys as they were in it, and nothing else; no consumer and no key is ever taken
away; and a hook that completes with an address, and the keys ready, leaves every consumer with that
address and these keys. -/
theorem bags_are_snapshots (g : Ground ω) (store : Store) (place : Place)
    (hg : Lawful g) {log : List (HookRun ω)} {ws : List ω} {w : ω}
    (hrun : Run g store place log ws w) :
    (∀ v ∈ ws, Consistent (g.site store) store log v) ∧
      (ws.Pairwise fun v w => Retained store (g.files v) (g.files w)) ∧
      ∀ h : HookRun ω, h.start.world = w → h.Spares g store place →
        h.ending (g.site store) = .ok .completed → ∀ address ready, h.trigger.address = some address →
          Relay.fingerprints h.settings (g.files (h.after (g.site store)).world) =
            .ok (.ready ready) →
          Served store (g.files (h.after (g.site store)).world) address.text
            (toString h.settings.port) ready.rsa ready.ed25519 := by
  obtain ⟨bags, hkeeps, hh, hall⟩ := hrun.exists_keeps hg
  refine ⟨?_, hkeeps.pairwise, ?_⟩
  · intro v hv
    obtain ⟨shown, -, hshown, hallShown⟩ := hkeeps.exists_holds hv
    exact consistent_of_holds hshown hallShown
  · rintro h rfl hspares hdone address ready haddress hready
    obtain ⟨last, hleaves⟩ := exists_leaves hg h hspares hh hall
    exact served_of_holds hleaves.holds (hleaves.served hdone address ready haddress hready)

end runs

def memory : Ground FileTree where
  host call t := ⟨call.success, t, []⟩
  files t := t
  withFiles _ t := t

def publicKey (line : String) : Node := .file line.toUTF8 FileTree.newFileMode

def keyed : FileTree :=
  ((FileTree.empty.put ["keys"] .directory).put ["keys", "ssh_host_rsa_key.pub"]
    (publicKey "ssh-rsa AAAA")).put ["keys", "ssh_host_ed25519_key.pub"]
    (publicKey "ssh-ed25519 BBBB")

def welcome : HookRun FileTree where
  settings := { keysDir := some ⟨"/keys"⟩ }
  trigger := .consumerJoined { address := some (.hostname ['r']) }
  start := { world := (memory.onFiles (Store.join ⟨⟨"/state"⟩⟩ "web:0") keyed).world }

theorem spared_memory (store : Store) (place : Place) (t : FileTree) (es : List Event) :
    Spared memory store place t es := by
  induction es generalizing t with
  | nil => trivial
  | cons e es ih =>
    cases e with
    | host _ _ => exact ⟨.refl store place t, ih t⟩
    | record _ _ | slept _ => exact ih _

theorem spares_memory (h : HookRun FileTree) (store : Store) (place : Place) :
    h.Spares memory store place :=
  spared_memory store place _ _

theorem fresh_keyed : Store.Fresh ⟨⟨"/state"⟩⟩ keyed := by
  have hnames : (⟨"/state"⟩ : Path).names = ["state"] := by decide
  have hstart : keyed.start ⟨"/state"⟩ = [] := by decide
  have hname : FileTree.IsName "state" := by decide
  refine ⟨by decide, ["state"], ?_⟩
  rw [hnames, hstart]
  refine .absent (FileTree.node?_nil _) (fun below => ?_) (by simpa using hname)
  have hempty : FileTree.empty.node? ("state" :: below) = none := by
    simp [FileTree.node?, FileTree.empty]
  rw [List.nil_append, keyed, FileTree.node?_put_of_ne (by simp) _ (by simp),
    FileTree.node?_put_of_ne (by simp) _ (by simp), FileTree.node?_put_of_ne (by simp) _ (by simp),
    hempty]

theorem exists_ready {settings : Settings} {files : FileTree}
    (h : (Relay.requireFingerprints settings files).isOk = true) :
    ∃ ready, Relay.fingerprints settings files = .ok (.ready ready) := by
  unfold Relay.requireFingerprints at h
  split at h
  · exact ⟨_, by assumption⟩
  · cases h
  · cases h

theorem bags_are_snapshots_welcome :
    ∃ (place : Place) (ws : List FileTree) (w : FileTree) (ready : Key.Fingerprints),
      Run memory ⟨⟨"/state"⟩⟩ place [welcome] ws w ∧
      (∀ v ∈ ws, Consistent (memory.site ⟨⟨"/state"⟩⟩) ⟨⟨"/state"⟩⟩ [welcome] v) ∧
      Store.relations ⟨⟨"/state"⟩⟩ w = .ok ["web:0"] ∧
      Served ⟨⟨"/state"⟩⟩ w "r" "10022" ready.rsa ready.ed25519 := by
  obtain ⟨place, hshows⟩ := fresh_keyed.shows_empty
  have hlawful : Lawful memory := fun _ _ => rfl
  have hspares := spares_memory welcome ⟨⟨"/state"⟩⟩ place
  have hjoined := (Run.start hshows.lies hshows.bags).join (g := memory) "web:0"
  have hrun := hjoined.hook welcome hspares
  obtain ⟨hdone, hids, hkeys⟩ : welcome.ending (memory.site ⟨⟨"/state"⟩⟩) = .ok .completed ∧
      Store.relations ⟨⟨"/state"⟩⟩ (welcome.after (memory.site ⟨⟨"/state"⟩⟩)).world =
        .ok ["web:0"] ∧
      (Relay.requireFingerprints welcome.settings
        (welcome.after (memory.site ⟨⟨"/state"⟩⟩)).world).isOk = true := by
    decide +kernel
  obtain ⟨ready, hready⟩ := exists_ready hkeys
  have hserved := (bags_are_snapshots memory _ place hlawful hjoined).2.2 welcome rfl hspares hdone
    (.hostname ['r']) ready rfl hready
  exact ⟨place, _, _, ready, hrun, (bags_are_snapshots memory _ place hlawful hrun).1, hids,
    hserved⟩

end Hooks

end RelayKeeper
