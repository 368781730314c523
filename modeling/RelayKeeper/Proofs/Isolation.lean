import RelayKeeper.Proofs.BagSnapshots
import RelayKeeper.Proofs.HookPairs
import RelayKeeper.Proofs.MachinePairs

/-! # Keys and consumers leave the rest alone

What the keys are, and who the consumers are, makes no difference to anything else that installing or
updating the status does: two runs that start with other keys and other consumers ask the host for the
same, end in the same way, set the same statuses and leave the same ports open. -/
namespace RelayKeeper

/-! ## A directory that is there -/

namespace FileTree

variable {t : FileTree} {place : Place} {p : Path} {name : String}

/-- Writing to a name in a directory fails, or puts a file there. -/
theorem Rooted.write_cases (h : Rooted t p place) (hn : IsPlain name) (content : ByteArray) :
    (∃ fault, t.write (p.join name) content = .error fault) ∨
      ∃ mode, t.write (p.join name) content =
          .ok (t.put (place ++ [name]) (.file content mode)) ∧
        t.node? (place ++ [name]) ≠ some .directory := by
  by_cases hshort : name.utf8ByteSize ≤ longestName
  · have hp := h.points ⟨hn, hshort⟩
    by_cases hd : t.node? (place ++ [name]) = some .directory
    · exact .inl ⟨_, hp.write_of_directory content hd⟩
    · obtain ⟨mode, hw⟩ := hp.write_eq content hd
      exact .inr ⟨mode, hw, hd⟩
  · exact .inl ⟨_, h.write_long hn (Nat.not_le.mp hshort) content⟩

end FileTree

namespace Record.Store

open FileTree (AgreeBut PathAvoids Rooted placeOf)

variable {hidden : Place → Prop} {t : FileTree} {s : Store} {place : Place}

def Hides (hidden : Place → Prop) (place : Place) : Prop :=
  ∀ q, place <+: q → hidden q

/-- Updating a bag changes the directory of bags and nothing else. -/
theorem updateRelation_hidden (hr : Rooted t s.relationsPath place) (hh : Hides hidden place)
    (id : String) (data : Bag) :
    AgreeBut hidden t (s.updateRelation id data t).2 ∧
      Rooted (s.updateRelation id data t).2 s.relationsPath place := by
  unfold updateRelation
  by_cases hid : IsSafeId id
  · rw [bagPath_of_safe s hid]
    dsimp only
    cases readJson Bag.ofJson? (s.relationsPath.join (bagName id)) t with
    | error error => exact ⟨.refl t, hr⟩
    | ok bag =>
      have hmake := makeParent_of_rooted (isPlain_bagName hid) hr
      dsimp only [writeJson]
      rw [hmake]
      dsimp only [FileTree.writeText]
      rcases hr.write_cases (isPlain_bagName hid)
          (String.ofList (Bag.toJson ((bag.getD ∅).overlay data)).pretty).toUTF8 with
        ⟨fault, hw⟩ | ⟨mode, hw, hd⟩
      · rw [hw]
        exact ⟨.refl t, hr⟩
      · rw [hw]
        refine ⟨.put_hidden t (by simp) (hh _ (List.prefix_append _ _)) _, ?_⟩
        exact rooted_put_file hr (by simp) hd
  · rw [bagPath_of_not_safe s hid]
    exact ⟨.refl t, hr⟩

/-- Where there are consumers, there is the directory of their bags. -/
theorem rooted_of_relations {ids : List String} (h : s.relations t = .ok ids) (hne : ids ≠ []) :
    Rooted t s.relationsPath (placeOf t.current s.relationsPath) := by
  have hfound : ∃ q, t.find s.relationsPath = .ok (q, .directory) := by
    unfold relations FileTree.list at h
    rcases hf : t.find s.relationsPath with fault | ⟨q, node⟩
    · rw [hf] at h
      cases fault with
      | notFound =>
        obtain rfl : ids = [] := (Except.ok.inj h).symm
        exact absurd rfl hne
      | _ => cases h
    · rw [hf] at h
      cases node with
      | file content mode => cases h
      | directory => exact ⟨q, rfl⟩
  obtain ⟨q, hf⟩ := hfound
  obtain rfl := FileTree.placeOf_walk (FileTree.of_find hf).2.1
  exact FileTree.rooted_of_find hf

end Record.Store

/-! ## Worlds that differ in hidden files -/

namespace Hooks

open FileTree (AgreeBut PathAvoids Rooted placeOf)
open Record (Ground Store)
open Record.Store (Hides)

variable {ω ε : Type} {g : Ground ω} {store : Store} {settings : Settings} {hidden : Place → Prop}
  {current : Place} {u v w : ω} {es : List Event}

/-- Files that are put into a world take the place of those that were there. -/
def Overwrites (g : Ground ω) : Prop :=
  ∀ w t u, g.withFiles (g.withFiles w t) u = g.withFiles w u

/-- The worlds differ in their files alone, and in these only where it is hidden. -/
structure Alike (g : Ground ω) (hidden : Place → Prop) (current : Place) (v w : ω) : Prop where
  files : AgreeBut hidden (g.files v) (g.files w)
  current : (g.files v).current = current
  rest : ∀ t, g.withFiles v t = g.withFiles w t

namespace Alike

theorem symm (h : Alike g hidden current v w) : Alike g hidden current w v :=
  ⟨h.files.symm, h.files.current.symm.trans h.current, fun t => (h.rest t).symm⟩

theorem trans (h : Alike g hidden current u v) (k : Alike g hidden current v w) :
    Alike g hidden current u w :=
  ⟨h.files.trans k.files, h.current, fun t => (h.rest t).trans (k.rest t)⟩

theorem refl (h : (g.files v).current = current) : Alike g hidden current v v :=
  ⟨.refl _, h, fun _ => rfl⟩

theorem withFiles (hg : Lawful g) (ho : Overwrites g) (h : Alike g hidden current v w)
    {t t' : FileTree} (ht : AgreeBut hidden t t') (hcurrent : t.current = current) :
    Alike g hidden current (g.withFiles v t) (g.withFiles w t') := by
  refine ⟨?_, ?_, fun u => ?_⟩
  · rw [hg, hg]
    exact ht
  · rw [hg]
    exact hcurrent
  · rw [ho, ho, h.rest]

/-- Files may be put into one of the worlds if only hidden ones are new. -/
theorem withFiles_hidden (hg : Lawful g) (ho : Overwrites g) (hcurrent : (g.files w).current = current)
    {t : FileTree} (ht : AgreeBut hidden (g.files w) t) :
    Alike g hidden current w (g.withFiles w t) := by
  refine ⟨?_, hcurrent, fun u => (ho w t u).symm⟩
  rw [hg]
  exact ht

end Alike

/-! ## The record's answers -/

theorem screened (store : Store) (hg : Lawful g) (ho : Overwrites g)
    (hstatus : PathAvoids hidden current store.statusPath)
    (hports : PathAvoids hidden current store.portsPath) :
    Hook.Screened (g.site store) (Alike g hidden current) := by
  intro call v w hcall h
  have hkind : (∃ status, call = .setStatus status) ∨ ∃ port, call = .openPort port := by
    cases call with
    | setStatus status => exact .inl ⟨status, rfl⟩
    | openPort port => exact .inr ⟨port, rfl⟩
    | relations => cases hcall (.ok [])
    | updateRelation id data => cases hcall (.ok ())
  have hhere := h.current
  rw [← hhere] at hstatus hports
  obtain ⟨hreply, hfiles, hcurrent⟩ := Store.answer_congr (s := store) h.files hstatus hports hkind
  exact ⟨hreply, h.withFiles hg ho hfiles (hcurrent.trans h.current)⟩

/-! ## Telling the consumers -/

theorem world_updateRelation (store : Store) (id : String) (data : Record.Bag) (t : FileTree) :
    (store.answer (.updateRelation id data) t).world = (store.updateRelation id data t).2 := by
  rcases h : store.updateRelation id data t with ⟨reply, after⟩
  simp only [Store.answer, h]

/-- While consumers are told, only hidden files change. -/
theorem alike_of_spread (hg : Lawful g) (ho : Overwrites g) {place : Place} {data : Record.Bag}
    {ids : List String} (hspread : Spread data ids es) (hrun : (g.site store).Takes v es w)
    (hh : Hides hidden place) (hr : Rooted (g.files v) store.relationsPath place)
    (hcurrent : (g.files v).current = current) : Alike g hidden current v w := by
  -- Each consumer is told in the directory that was there when the first was told.
  induction hspread generalizing v with
  | nil =>
    cases hrun with
    | nil _ => exact .refl hcurrent
  | @cons id ids es reply _ ih =>
    cases hrun with
    | cons hstep hrest =>
      cases hstep with
      | record call _ =>
        obtain ⟨hfiles, hr'⟩ := Store.updateRelation_hidden hr hh id data
        have hworld := world_updateRelation store id data (g.files v)
        have hone : Alike g hidden current v
            ((g.site store).record (.updateRelation id data) v).world :=
          Alike.withFiles_hidden hg ho hcurrent (hworld ▸ hfiles)
        have hafter := (files_record hg store (.updateRelation id data) v).trans hworld
        exact hone.trans (ih hrest (hafter ▸ hr') hone.symm.current)

theorem alike_of_announced (hg : Lawful g) (ho : Overwrites g)
    (hh : Hides hidden (placeOf current store.relationsPath)) {data : Record.Bag}
    (ha : Announced data es) (hrun : (g.site store).Takes v es w)
    (hcurrent : (g.files v).current = current) : Alike g hidden current v w := by
  have hlisted : Alike g hidden current v ((g.site store).record .relations v).world :=
    Alike.withFiles_hidden hg ho hcurrent (.refl _)
  cases ha with
  | unknown error =>
    cases hrun with
    | cons hstep hrest =>
      cases hrest with
      | nil _ =>
        generalize hreply : (Except.error error : Except Record.StoreError (List String)) = reply
          at hstep
        cases hstep with
        | record call _ => exact hlisted
  | @everyone ids es hspread =>
    cases hrun with
    | cons hstep hrest =>
      generalize hreply : (Except.ok ids : Except Record.StoreError (List String)) = reply at hstep
      cases hstep with
      | record call _ =>
        have hids : store.relations (g.files v) = .ok ids := hreply.symm
        -- Without a consumer the directory of bags need not be there, but nobody is told either.
        by_cases hne : ids = []
        · subst hne
          cases hspread with
          | nil =>
            cases hrest with
            | nil _ => exact hlisted
        · have hr := Store.rooted_of_relations hids hne
          rw [hcurrent] at hr
          have hsame : g.files ((g.site store).record .relations v).world = g.files v :=
            files_record hg store .relations v
          rw [← hsame] at hr
          exact hlisted.trans (alike_of_spread hg ho hspread hrest hh hr hlisted.symm.current)

theorem outward_of_announced {data : Record.Bag} (h : Announced data es) : outward es = [] := by
  rw [outward, List.filter_eq_nil_iff]
  intro e he
  rcases h.mem he with ⟨_, rfl⟩ | ⟨_, _, rfl⟩ <;> exact Bool.false_ne_true

theorem elapsed_of_announced {data : Record.Bag} (h : Announced data es) : elapsed es = 0 := by
  have hall : ∀ fs : List Event, (∀ e ∈ fs, e.elapsed = 0) → elapsed fs = 0 := by
    intro fs
    induction fs with
    | nil => exact fun _ => rfl
    | cons e fs ih =>
      intro hfs
      rw [elapsed, hfs e (by simp), ih fun f hf => hfs f (List.mem_cons_of_mem _ hf)]
  refine hall es fun e he => ?_
  rcases h.mem he with ⟨_, rfl⟩ | ⟨_, _, rfl⟩ <;> rfl

/-- Nobody but the consumers notices that they are told. -/
theorem publishIfReady_aside (hg : Lawful g) (ho : Overwrites g)
    (hh : Hides hidden (placeOf current store.relationsPath)) (settings : Settings)
    (address : Net.Address) :
    Hook.Aside (Alike g hidden current) (publishIfReady (g.site store) settings address) := by
  intro s other halike
  have hcurrent := halike.current
  obtain ⟨es, hr, hc⟩ := follows_publishIfReady (g.site store) settings address s
  obtain ⟨t, told, fs, rfl, htold, -, hrest⟩ := hc.of_tell
  generalize hhalt : haltOf (publishIfReady (g.site store) settings address s).1 = halt at hrest
  cases hrest with
  | done =>
    rw [List.append_nil] at hr
    constructor
    · rcases hx : (publishIfReady (g.site store) settings address s).1 with halt | _
      · rw [hx] at hhalt
        cases hhalt
      · rfl
    · have hclock := hr.clock
      have htrace := hr.trace
      have hworld := hr.world
      generalize (publishIfReady (g.site store) settings address s).2 = after at *
      have hquiet : outward told = [] ∧ elapsed told = 0 ∧
          Alike g hidden current s.world after.world := by
        rcases htold.announced with rfl | ⟨data, ha⟩
        · obtain heq := hworld.unique (.nil _)
          rw [heq]
          exact ⟨rfl, rfl, .refl hcurrent⟩
        · exact ⟨outward_of_announced ha, elapsed_of_announced ha,
            alike_of_announced hg ho hh ha hworld hcurrent⟩
      obtain ⟨hout, htime, hkept⟩ := hquiet
      refine ⟨hkept, ?_, ?_⟩
      · rw [htime] at hclock
        exact (Duration.mk.injEq _ _ ▸ hclock).symm
      · rw [htrace, outward_append, hout, List.append_nil]

/-! ## Two runs -/

/-- The places of the keys and of the consumers' bags: their two directories and all that is below. -/
def Secluded (settings : Settings) (store : Store) (current q : Place) : Prop :=
  placeOf current settings.keysPath <+: q ∨ placeOf current store.relationsPath <+: q

instance (settings : Settings) (store : Store) (current : Place) :
    DecidablePred (Secluded settings store current) :=
  fun q => inferInstanceAs (Decidable
    (placeOf current settings.keysPath <+: q ∨ placeOf current store.relationsPath <+: q))

/-- Two runs of a hook, from two worlds at the same moment, differ in nothing that others see. -/
structure SeenAlike (g : Ground ω) (store : Store) (x : Hook ω HookError Outcome) (v w : ω)
    (clock : Duration) : Prop where
  ending : (x { world := v, clock }).1 = (x { world := w, clock }).1
  /-- The calls of the host with their answers, the pauses, the statuses and the ports. -/
  events : outward (x { world := v, clock }).2.trace = outward (x { world := w, clock }).2.trace
  ports : store.openedPorts (g.files (x { world := v, clock }).2.world) =
    store.openedPorts (g.files (x { world := w, clock }).2.world)

/-- A call that both runs make in worlds that are alike, about a path that is not hidden or about
none, is answered alike, and the worlds stay alike. -/
def Blind (g : Ground ω) (store : Store) (hidden : Place → Prop) (current : Place)
    (x : Hook ω HookError Outcome) (v w : ω) (clock : Duration) : Prop :=
  ∀ call v' w', (∀ p ∈ call.path?, PathAvoids hidden current p) →
    Hook.Asks (g.site store) x { world := v, clock } call v' →
    Hook.Asks (g.site store) x { world := w, clock } call w' → Alike g hidden current v' w' →
      (g.host call v').reply = (g.host call w').reply ∧
        Alike g hidden current (g.host call v').world (g.host call w').world

theorem seenAlike_of_indifferent (store : Store) {x : Hook ω HookError Outcome}
    (hx : Hook.Indifferent (g.site store) (Alike g hidden current) (PathAvoids hidden current) x)
    (h : Alike g hidden current v w) (hports : PathAvoids hidden current store.portsPath)
    {clock : Duration} (hblind : Blind g store hidden current x v w clock) :
    SeenAlike g store x v w clock := by
  obtain ⟨hending, hafter⟩ := hx.alike { world := v, clock } { world := w, clock } ⟨h, rfl, rfl⟩
    hblind
  refine ⟨hending, hafter.trace, ?_⟩
  refine Store.openedPorts_congr hafter.world.files ?_
  rw [hafter.world.current]
  exact hports

/-- A machine is blind as long as its programs leave nothing that depends on what is hidden. -/
theorem blind_of_tidy {store : Store} {x : Hook Machine HookError Outcome} {m n : Machine}
    {clock : Duration} (hm : m.Tidy hidden current) :
    Blind Machine.ground store hidden current x m n clock := by
  have htakes : ∀ {m n : Machine} {es : List Event}, (Machine.ground.site store).Takes m es n →
      m.Tidy hidden current → n.Tidy hidden current := by
    intro m n es htakes
    induction htakes with
    | nil _ => exact id
    | cons hstep _ ih =>
      cases hstep with
      | host call m => exact fun hm => ih (Machine.tidy_answer hm call)
      | record call m => exact fun hm => ih hm
      | slept duration m => exact ih
  rintro call v w hcall ⟨before, -, -, -, hbefore⟩ - halike
  have htwins : Machine.Twins hidden current v w :=
    ⟨halike.files, htakes hbefore hm, halike.rest w.files, halike.current⟩
  obtain ⟨hreply, hafter⟩ := Machine.steady_twins.answer hcall htwins
  obtain ⟨t, hsame, hfiles⟩ := hafter.exists_files
  refine ⟨hreply, hafter.files, hafter.current, fun files => ?_⟩
  change { (Machine.answer call v).world with files := files } =
    { (Machine.answer call w).world with files := files }
  rw [hsame]

/-- The paths of the files, beside the keys and the bags, that the two hooks have written. -/
def writtenPaths (settings : Settings) (store : Store) : List Path :=
  [settings.scriptPath, settings.unitPath, settings.dockerDaemonConfig, store.statusPath,
    store.portsPath]

/-- Whatever the keys are and whoever the consumers, if no other file that the hooks write lies where
they do and the host answers the calls of the two runs without looking there, installing and updating
the status are seen to go the same way. -/
theorem keys_and_consumers_unseen (hg : Lawful g) (ho : Overwrites g) (store : Store)
    (settings : Settings) (state : Provision.State)
    (hwritten : ∀ p ∈ writtenPaths settings store,
      PathAvoids (Secluded settings store current) current p)
    (h : Alike g (Secluded settings store current) current v w) (clock : Duration) :
    ∀ x ∈ [install (g.site store) settings state, updateStatus (g.site store) settings state],
      Blind g store (Secluded settings store current) current x v w clock →
        SeenAlike g store x v w clock := by
  simp only [writtenPaths, List.mem_cons, List.not_mem_nil, or_false, forall_eq_or_imp,
    forall_eq] at hwritten
  obtain ⟨hscript, hunit, hproxies, hstatus, hports⟩ := hwritten
  have hscreened := screened store hg ho hstatus hports
  have hapart : WritesApart settings (PathAvoids (Secluded settings store current) current) := by
    refine ⟨hscript, hunit, hproxies, fun p q hparent hp => ?_⟩
    exact FileTree.AgreeBut.pathAvoids_of_mem_parents hp (List.mem_of_head? hparent)
  have hhides : Hides (Secluded settings store current) (placeOf current store.relationsPath) :=
    fun _ hq => .inr hq
  have htell : ∀ address, Hook.Indifferent (g.site store)
      (Alike g (Secluded settings store current) current)
      (PathAvoids (Secluded settings store current) current)
      (publishIfReady (g.site store) settings address) := by
    intro address
    refine .of_aside (fun _ _ h => h.symm) (fun _ _ _ h k => h.trans k) ?_ ?_
    · intro s
      exact (follows_publishIfReady (g.site store) settings address s).imp fun _ h => h.1
    · exact publishIfReady_aside hg ho hhides settings address
  intro x hx hblind
  simp only [List.mem_cons, List.not_mem_nil, or_false] at hx
  rcases hx with rfl | rfl
  · have hinstall := indifferent_install hapart hscreened state htell
    exact seenAlike_of_indifferent store hinstall h hports hblind
  · have hupdate := indifferent_updateStatus hapart hscreened state htell
    exact seenAlike_of_indifferent store hupdate h hports hblind

def prepared : FileTree :=
  ["/srv/tmate-ssh-server", "/etc/systemd/system", "/var/lib/tmate-operator"].foldl
    (fun t text => t.provide ⟨text⟩ none) FileTree.empty

def spoiled : FileTree :=
  ((prepared.put ["srv", "tmate-ssh-server", "keys"] .directory).put
    ["srv", "tmate-ssh-server", "keys", "ssh_host_ed25519_key.pub"] (publicKey "ssh-ed25519 !")).put
    ["var", "lib", "tmate-operator", "relations"] (publicKey "[")

/-- The script of this machine leaves a key. -/
def keeper (files : FileTree) : Machine where
  files := files
  rules := [⟨["create_keys.sh"], [{ files :=
    [(⟨"/srv/tmate-ssh-server/keys/ssh_host_rsa_key.pub"⟩, some "ssh-rsa CCCC".toUTF8)] }]⟩]
  programs := Machine.usualPrograms

def stateDir : Store := ⟨⟨"/var/lib/tmate-operator"⟩⟩

def behindProxy : Provision.State where
  address := some (.hostname ['r'])
  proxy := some ⟨some "http://proxy:3128", none, none⟩

theorem tidy_keeper (files : FileTree) :
    Machine.Tidy (Secluded {} stateDir []) [] (keeper files) := by
  intro rule hrule reaction hreaction file hfile t u hcurrent hagree
  obtain rfl := List.mem_singleton.mp hrule
  obtain rfl := List.mem_singleton.mp hreaction
  obtain rfl := List.mem_singleton.mp hfile
  refine hagree.provide_hidden (q := ⟨"/srv/tmate-ssh-server/keys"⟩) rfl ?_ ?_ ?_ _ <;>
    rw [hcurrent]
  · exact ⟨by decide +kernel, by decide +kernel⟩
  · decide +kernel
  · decide +kernel

theorem alike_keeper {t u : FileTree} (h : AgreeBut hidden t u) (hcurrent : t.current = current) :
    Alike Machine.ground hidden current (keeper t) (keeper u) :=
  ⟨h, hcurrent, fun _ => rfl⟩

theorem keys_and_consumers_unseen_spoiled :
    (∀ t ∈ [prepared, spoiled], (install (Machine.ground.site stateDir) {} behindProxy
      { world := keeper t, clock := .zero }).1.toOption = some .completed) ∧
      SeenAlike Machine.ground stateDir (install (Machine.ground.site stateDir) {} behindProxy)
        (keeper prepared) (keeper spoiled) .zero ∧
      SeenAlike Machine.ground stateDir (updateStatus (Machine.ground.site stateDir) {} behindProxy)
        (keeper prepared) (keeper spoiled) .zero := by
  have hput : ∀ (t : FileTree) (q : Place) (node : Node), q ≠ [] → Secluded {} stateDir [] q →
      AgreeBut (Secluded {} stateDir []) t (t.put q node) :=
    fun t q node hne hq => .put_hidden t hne hq node
  have hagree : AgreeBut (Secluded {} stateDir []) prepared spoiled :=
    ((hput _ _ _ (by simp) (by decide +kernel)).trans
      (hput _ _ _ (by simp) (by decide +kernel))).trans
        (hput _ _ _ (by simp) (by decide +kernel))
  have halike : Alike Machine.ground (Secluded {} stateDir []) [] (keeper prepared)
      (keeper spoiled) := alike_keeper hagree (by decide +kernel)
  have hunseen := keys_and_consumers_unseen (fun _ _ => rfl) (fun _ _ _ => rfl) stateDir {} behindProxy
    (by decide +kernel) halike .zero
  refine ⟨by decide +kernel, ?_, ?_⟩
  · exact hunseen _ (by simp) (blind_of_tidy (tidy_keeper prepared))
  · exact hunseen _ (by simp) (blind_of_tidy (tidy_keeper prepared))

end Hooks

end RelayKeeper
