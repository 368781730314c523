import RelayKeeper.Proofs.BagSnapshots
import RelayKeeper.Proofs.HealthClaims
import RelayKeeper.Proofs.UnitFile

/-! # The address in the unit file

The unit file names an address, and so does what consumers are told. A hook tells the address that
it was given; the unit file has the address that was given to the hook that last started the daemon.
The two part if the address changes while the daemon goes on running. -/
namespace RelayKeeper

theorem Record.Profile.host_bag (p : Record.Profile) : p.bag["host"]? = some p.host :=
  (List.cons.inj p.getElem_bag).1

namespace Hooks

open Relay

variable {ω ε : Type} {site : Site ω} {settings : Settings} {s : Session ω} {es : List Event}
  {address other : Net.Address}

/-! ## Hooks -/

/-- The hook is one that starts the daemon: an installation, or an update that found it down. -/
def Trigger.Starts : Trigger → List Event → Prop
  | .install _, _ => True
  | .updateStatus _, es => foundDown es = true
  | .consumerJoined _, _ => False

/-- What a finished hook did about the unit file. Unless it starts the daemon it leaves it alone. If
it does it writes it for its own address, or stops before, without having told anyone. -/
inductive Finished.HandlesUnit (f : Finished) : Prop where
  | left : ¬ f.trigger.Starts f.events → Unrendered f.settings f.events → f.HandlesUnit
  | stopped : Unrendered f.settings f.events → Silent f.events → f.ending ≠ .ok .completed →
      f.HandlesUnit
  | rendered {address : Net.Address} : f.trigger.Starts f.events →
      f.trigger.address = some address → LastRendered f.settings f.events address → f.HandlesUnit

def TellsHost (es : List Event) (host : String) : Prop :=
  ∀ id data reply, .record (.updateRelation id data) reply ∈ es →
    ∀ old, (Record.Bag.overlay old data)["host"]? = some host

/-- The consumers are told nothing, or the address that the hook was given. -/
def Finished.TellsOwn (f : Finished) : Prop :=
  Silent f.events ∨ ∃ address, f.trigger.address = some address ∧ TellsHost f.events address.text

theorem TellsHost.eq {host host' : String} (h : TellsHost es host) (k : TellsHost es host')
    (hes : ¬ Silent es) : host = host' := by
  have hupdate : ∃ id data reply, .record (.updateRelation id data) reply ∈ es := by
    by_contra hnone
    apply hes
    apply Silent.of_record
    intro call reply he
    cases call with
    | updateRelation id data => exact absurd ⟨id, data, reply, he⟩ hnone
    | setStatus _ | openPort _ | relations => exact id
  obtain ⟨id, data, reply, he⟩ := hupdate
  have hold := h id data reply he ∅
  rw [k id data reply he ∅] at hold
  exact (Option.some.inj hold).symm

theorem Makes.of_fresh {α : Type} {x : Hook ω ε α}
    {P : Session ω → List Event → Except (Halt ε) α → Prop} (h : x.Makes site P)
    (hs : s.trace = []) : P s (x s).2.trace (x s).1 := by
  obtain ⟨es, hr, hp⟩ := h s
  rw [hr.trace, hs]
  exact hp

theorem handlesUnit_install (settings : Settings) (state : Provision.State) (hs : s.trace = []) :
    Finished.HandlesUnit ⟨settings, .install state,
      (install site settings state s).2.trace, (install site settings state s).1⟩ := by
  cases haddress : state.address with
  | none =>
    obtain ⟨htrace, hending⟩ := Makes.of_fresh (makes_install_unbound site settings haddress) hs
    rw [htrace, hending]
    exact .stopped (by simp [Unrendered]) (by simp [Silent]) (by simp)
  | some address =>
    have hc := Makes.of_fresh (follows_install site settings haddress) hs
    generalize (install site settings state s).2.trace = es at hc
    generalize (install site settings state s).1 = r at hc
    -- the opening comes after provisioning and does not touch the file
    rcases hc.of_append with ⟨hc, hne⟩ | ⟨before, t, after, rfl, hbefore, -, hafter⟩
    · rcases hc.provisions with ⟨hunrendered, -⟩ | hlast
      · exact .stopped hunrendered (silent_of_provisionPlan hc) (not_completed_of_halt hne)
      · exact .rendered trivial haddress hlast
    · rcases hbefore.provisions with ⟨-, hne⟩ | hlast
      · exact absurd rfl hne
      · exact .rendered trivial haddress
          (hlast.before_unrendered (hafter.unrendered (leavesUnit_openingPlan address)))

theorem handlesUnit_updateStatus (settings : Settings) (state : Provision.State)
    (hs : s.trace = []) : Finished.HandlesUnit ⟨settings, .updateStatus state,
      (updateStatus site settings state s).2.trace, (updateStatus site settings state s).1⟩ := by
  have hu := Makes.of_fresh (makes_updateStatus site settings state) hs
  generalize (updateStatus site settings state s).2.trace = es at hu
  generalize (updateStatus site settings state s).1 = r at hu
  generalize haddress : state.address = address? at hu
  generalize hhalt : haltOf r = halt at hu
  cases hu with
  | waiting hc =>
    have hrecord : ∀ e ∈ es, Event.isRecord e = true := by
      intro e he
      have hstatus := setsStatus_of_cut hc e he
      cases e with
      | record call reply => rfl
      | host _ _ | slept _ => exact hstatus.elim
    exact .left (foundDown_of_record hrecord) (unrendered_of_record hrecord)
  | unreconciled hrec =>
    have hunit := hrec.unit []
    rw [List.append_nil] at hunit
    rcases hunit with ⟨hup, hunrendered⟩ | ⟨hunrendered, -⟩ | ⟨hdown, hlast⟩
    · exact .left hup hunrendered
    · refine .stopped hunrendered (.of_record fun _ _ he => absurd he hrec.no_record) ?_
      exact not_completed_of_halt (by simp [hhalt])
    · exact .rendered hdown haddress hlast
  | @reconciled address t es reconciled fs halt hrec _ hc =>
    have hfs := hc.unrendered (leavesUnit_updatingPlan address)
    rcases hrec.unit fs with ⟨hup, hunrendered⟩ | ⟨-, hne⟩ | ⟨hdown, hlast⟩
    · exact .left hup (hunrendered.append hfs)
    · exact absurd rfl hne
    · exact .rendered hdown haddress (hlast.before_unrendered hfs)

theorem handlesUnit_consumerJoined (settings : Settings) (state : Provision.State)
    (hs : s.trace = []) : Finished.HandlesUnit ⟨settings, .consumerJoined state,
      (consumerJoined site settings state s).2.trace,
      (consumerJoined site settings state s).1⟩ := by
  have hj := Makes.of_fresh (makes_consumerJoined site settings state) hs
  generalize (consumerJoined site settings state s).2.trace = es at hj
  generalize (consumerJoined site settings state s).1 = r at hj
  generalize state.address = address? at hj
  apply Finished.HandlesUnit.left
  · exact id
  · apply unrendered_of_record
    intro e he
    cases hj with
    | told _ ha => rcases ha.mem he with ⟨_, rfl⟩ | ⟨_, _, rfl⟩ <;> rfl
    | unbound | unreadable _ | waiting _ => cases he

theorem Announced.tellsHost {profile : Record.Profile} (h : Announced profile.bag es) :
    TellsHost es profile.host := by
  intro id data reply he old
  rcases h.mem he with ⟨_, heq⟩ | ⟨_, _, heq⟩
  · cases heq
  · cases heq
    rw [Record.Bag.getElem?_overlay, Record.Profile.host_bag]
    rfl

theorem Told.tellsHost {files : FileTree} (h : Told settings address files es) :
    TellsHost es address.text := by
  cases h with
  | nothing _ => simp [TellsHost]
  | profile _ ha => exact ha.tellsHost

theorem Serves.tellsOwn {address? : Option Net.Address} {r : Except (Halt HookError) Outcome}
    (h : Serves site settings address? s es r) :
    Silent es ∨ ∃ address, address? = some address ∧ TellsHost es address.text := by
  cases h with
  | silent hsilent _ => exact .inl hsilent
  | @tells address _ pre told post _ haddress hpre _ htold hpost =>
    refine .inr ⟨address, haddress, ?_⟩
    intro id data reply he
    have htells : .record (.updateRelation id data) reply ∈ told := by
      rcases List.mem_append.mp he with he | he
      · exact absurd trivial (hpre _ he)
      · rcases List.mem_append.mp he with he | he
        · exact he
        · exact (hpost _ he).elim
    exact htold.tellsHost id data reply htells

/-! ## Runs of hooks -/

/-- What holds of every hook holds of the hooks of a history. -/
theorem History.forall_mem {P : Finished → Prop} {done : List Finished} {w : ω}
    (h : History site done w)
    (hP : ∀ settings trigger (s : Session ω), s.trace = [] →
      P ⟨settings, trigger, (trigger.hook site settings s).2.trace,
        (trigger.hook site settings s).1⟩) : ∀ f ∈ done, P f := by
  induction h with
  | start w => simp
  | change w _ ih => exact ih
  | hook settings trigger _ hs ih =>
    intro f hf
    rcases List.mem_append.mp hf with hf | hf
    · exact ih f hf
    · obtain rfl := List.mem_singleton.mp hf
      exact hP settings trigger _ hs

theorem History.handlesUnit {done : List Finished} {w : ω} (h : History site done w) :
    ∀ f ∈ done, f.HandlesUnit := by
  apply h.forall_mem (P := Finished.HandlesUnit)
  intro settings trigger s hs
  cases trigger with
  | install state => exact handlesUnit_install settings state hs
  | updateStatus state => exact handlesUnit_updateStatus settings state hs
  | consumerJoined state => exact handlesUnit_consumerJoined settings state hs

theorem History.tellsOwn {done : List Finished} {w : ω} (h : History site done w) :
    ∀ f ∈ done, f.TellsOwn := by
  apply h.forall_mem (P := Finished.TellsOwn)
  intro settings trigger s hs
  exact Serves.tellsOwn (Makes.of_fresh (serves site settings trigger) hs)

/-- The hook is the last that wrote the unit file, and it did so for the address it was given. -/
structure LastWriter (settings : Settings) (done : List Finished) (writer : Finished)
    (address : Net.Address) : Prop where
  last : ∃ earlier later, done = earlier ++ writer :: later ∧
    ∀ g ∈ later, Unrendered settings g.events
  given : writer.trigger.address = some address
  rendered : LastRendered settings writer.events address

theorem unrendered_flatMap {done : List Finished} (h : ∀ g ∈ done, Unrendered settings g.events) :
    Unrendered settings (done.flatMap Finished.events) := by
  intro e he
  obtain ⟨g, hg, heg⟩ := List.mem_flatMap.mp he
  exact h g hg e heg

/-- The file is as the last hook that wrote it has left it. -/
theorem LastWriter.lastRendered {done : List Finished} {writer : Finished}
    (h : LastWriter settings done writer address) :
    LastRendered settings (done.flatMap Finished.events) address := by
  obtain ⟨earlier, later, rfl, hlater⟩ := h.last
  rw [List.flatMap_append, List.flatMap_cons]
  have hsince := h.rendered.before_unrendered (unrendered_flatMap hlater)
  exact hsince.after_any (earlier.flatMap Finished.events)

theorem LastWriter.lastRendered_iff {done : List Finished} {writer : Finished}
    (h : LastWriter settings done writer address) :
    LastRendered settings (done.flatMap Finished.events) other ↔ other.text = address.text := by
  constructor
  · intro hother
    exact hother.text_eq h.lastRendered
  · intro heq
    exact h.lastRendered.of_text_eq heq

theorem Finished.HandlesUnit.cases_unrendered {f : Finished} (h : f.HandlesUnit) :
    Unrendered f.settings f.events ∨
      ∃ address, f.trigger.address = some address ∧ LastRendered f.settings f.events address := by
  cases h with
  | left _ hunrendered => exact .inl hunrendered
  | stopped hunrendered _ _ => exact .inl hunrendered
  | rendered _ haddress hlast => exact .inr ⟨_, haddress, hlast⟩

/-- If any hook wrote the unit file there is one that was the last to do so. -/
theorem exists_lastWriter {done : List Finished} (hdone : ∀ f ∈ done, f.settings = settings)
    (hunit : ∀ f ∈ done, f.HandlesUnit) :
    (∀ f ∈ done, Unrendered settings f.events) ∨
      ∃ writer address, LastWriter settings done writer address := by
  -- on the hooks from the first one on: a hook is the last writer if none behind it writes
  induction done with
  | nil => simp
  | cons f done ih =>
    rcases ih (fun g hg => hdone g (by simp [hg])) (fun g hg => hunit g (by simp [hg])) with
      hrest | ⟨writer, address, hwriter⟩
    · have hsettings := hdone f (by simp)
      rcases (hunit f (by simp)).cases_unrendered with hf | ⟨address, haddress, hlast⟩
      · left
        intro g hg
        rcases List.mem_cons.mp hg with rfl | hg
        · exact hsettings ▸ hf
        · exact hrest g hg
      · right
        exact ⟨f, address, ⟨[], done, rfl, hrest⟩, haddress, hsettings ▸ hlast⟩
    · right
      obtain ⟨earlier, later, rfl, hlater⟩ := hwriter.last
      exact ⟨writer, address, ⟨f :: earlier, later, rfl, hlater⟩, hwriter.given, hwriter.rendered⟩

/-- An installation that completes has written the unit file. -/
theorem Finished.HandlesUnit.of_installed {f : Finished} (h : f.HandlesUnit)
    {state : Provision.State} (htrigger : f.trigger = .install state)
    (hending : f.ending = .ok .completed) : ¬ Unrendered f.settings f.events := by
  intro hunrendered
  cases h with
  | left hstarts _ =>
    rw [htrigger] at hstarts
    exact hstarts trivial
  | stopped _ _ hne => exact hne hending
  | rendered _ _ hlast => exact hlast.not_unrendered hunrendered

/-- After a hook that tells consumers, some hook is the last that wrote the unit file, and it is the
hook itself exactly if that is one that starts the daemon. -/
theorem exists_lastWriter_of_tells {before : List Finished} {f g : Finished}
    (hsettings : ∀ f' ∈ before ++ [f], f'.settings = settings)
    (hunit : ∀ f' ∈ before ++ [f], f'.HandlesUnit) (hg : g ∈ before ++ [f])
    (hrendered : ¬ Unrendered settings g.events) (htells : ¬ Silent f.events) :
    ∃ writer address, LastWriter settings (before ++ [f]) writer address ∧
      (f.trigger.Starts f.events ↔ writer = f) := by
  have hf : f ∈ before ++ [f] := by simp
  cases hunit f hf with
  | rendered hstarts haddress hlast =>
    rw [hsettings f hf] at hlast
    exact ⟨f, _, ⟨⟨before, [], rfl, by simp⟩, haddress, hlast⟩, iff_of_true hstarts rfl⟩
  | left hstarts hunrendered =>
    rcases exists_lastWriter hsettings hunit with hnone | ⟨writer, address, hwriter⟩
    · exact absurd (hnone g hg) hrendered
    · refine ⟨writer, address, hwriter, iff_of_false hstarts ?_⟩
      rintro rfl
      rw [hsettings writer hf] at hunrendered
      exact hwriter.rendered.not_unrendered hunrendered
  | stopped _ hsilent _ => exact absurd hsilent htells

/-- After every hook that tells consumers, the host in each updated bag is the address that the hook
was given, and the unit file has the address that was given to the last hook that wrote it. A hook
that starts the daemon is that last one; so both addresses are the same then, and as long as the
address does not change. -/
theorem told_address_rendered (site : Site ω) (settings : Settings) {first : Finished}
    {rest : List Finished} {w : ω} (hhistory : History site (first :: rest) w)
    (hsettings : ∀ f ∈ first :: rest, f.settings = settings) {state : Provision.State}
    (hfirst : first.trigger = .install state) (hcompleted : first.ending = .ok .completed)
    {before after : List Finished} {f : Finished} (hsplit : first :: rest = before ++ f :: after)
    (htells : ¬ Silent f.events) :
    ∃ address writer rendered, f.trigger.address = some address ∧
      TellsHost f.events address.text ∧
      LastWriter settings (before ++ [f]) writer rendered ∧
      (∀ other, LastRendered settings ((before ++ [f]).flatMap Finished.events) other ↔
        other.text = rendered.text) ∧
      (f.trigger.Starts f.events ↔ writer = f) ∧
      (f.trigger.Starts f.events ∨ writer.trigger.address = f.trigger.address →
        TellsHost f.events rendered.text) := by
  have hdone : ∀ f' ∈ before ++ [f], f' ∈ first :: rest := by
    intro f' hf'
    rw [hsplit, List.append_cons]
    exact List.mem_append_left _ hf'
  have hstart : first ∈ before ++ [f] := by
    cases before with
    | nil =>
      obtain ⟨rfl, -⟩ := List.cons.inj hsplit
      simp
    | cons head before =>
      obtain ⟨rfl, -⟩ := List.cons.inj hsplit
      simp
  have hunit : ∀ f' ∈ before ++ [f], f'.HandlesUnit :=
    fun f' hf' => hhistory.handlesUnit f' (hdone f' hf')
  have hsame : ∀ f' ∈ before ++ [f], f'.settings = settings :=
    fun f' hf' => hsettings f' (hdone f' hf')
  have hinstalled := (hunit first hstart).of_installed hfirst hcompleted
  rw [hsame first hstart] at hinstalled
  obtain ⟨writer, rendered, hwriter, hstarts⟩ :=
    exists_lastWriter_of_tells hsame hunit hstart hinstalled htells
  rcases hhistory.tellsOwn f (hdone f (by simp)) with hsilent | ⟨address, haddress, hhost⟩
  · exact absurd hsilent htells
  · refine ⟨address, writer, rendered, haddress, hhost, hwriter, fun _ => hwriter.lastRendered_iff,
      hstarts, ?_⟩
    intro hagree
    have hequal : writer.trigger.address = f.trigger.address := by
      rcases hagree with h | h
      · rw [hstarts.mp h]
      · exact h
    rw [hwriter.given, haddress] at hequal
    obtain rfl := Option.some.inj hequal
    exact hhost

/-! ## A daemon that goes on running -/

def Finished.of (site : Site ω) (settings : Settings) (trigger : Trigger) (w : ω) : Finished :=
  ⟨settings, trigger, (trigger.hook site settings { world := w }).2.trace,
    (trigger.hook site settings { world := w }).1⟩

theorem History.next {done : List Finished} {w : ω} (h : History site done w) (settings : Settings)
    (trigger : Trigger) (v : ω) : History site (done ++ [.of site settings trigger w]) v :=
  .change v (h.hook (s := { world := w }) settings trigger rfl)

/-- A machine where everything that is asked for is done, for one consumer, with the keys ready. -/
def servingSite : Site Unit where
  host call w := ⟨call.success, w, []⟩
  record
    | .setStatus _, w => ⟨.ok (), w, []⟩
    | .openPort _, w => ⟨.ok (), w, []⟩
    | .relations, w => ⟨.ok ["web:0"], w, []⟩
    | .updateRelation .., w => ⟨.ok (), w, []⟩
  files _ := keyed

def settled : Finished :=
  .of servingSite { keysDir := some ⟨"/keys"⟩ } (.install { address := some (.hostname ['r']) }) ()

def relocated : Finished :=
  .of servingSite { keysDir := some ⟨"/keys"⟩ }
    (.updateStatus { address := some (.hostname ['s']) }) ()

theorem history_relocated : History servingSite [settled, relocated] () := by
  have hstart : History servingSite [] () := .start ()
  have hsettled := hstart.next { keysDir := some ⟨"/keys"⟩ }
    (.install { address := some (.hostname ['r']) }) ()
  exact hsettled.next { keysDir := some ⟨"/keys"⟩ }
    (.updateStatus { address := some (.hostname ['s']) }) ()

instance : DecidablePred Event.UpdatesBag
  | .record (.updateRelation ..) _ => .isTrue trivial
  | .record (.setStatus _) _ | .record (.openPort _) _ | .record .relations _ => .isFalse id
  | .host .. | .slept _ => .isFalse id

/-- The installation completes; the update finds the daemon up and tells the consumer. -/
theorem relocated_runs : settled.ending = .ok .completed ∧
    foundDown relocated.events ≠ true ∧ ¬ Silent relocated.events := by
  unfold Silent
  decide +kernel

theorem told_address_rendered_relocated :
    ∃ address writer rendered, relocated.trigger.address = some address ∧
      TellsHost relocated.events address.text ∧
      LastWriter relocated.settings ([settled] ++ [relocated]) writer rendered ∧
      (∀ other, LastRendered relocated.settings
          (([settled] ++ [relocated]).flatMap Finished.events) other ↔
        other.text = rendered.text) ∧
      (relocated.trigger.Starts relocated.events ↔ writer = relocated) ∧
      (relocated.trigger.Starts relocated.events ∨
        writer.trigger.address = relocated.trigger.address →
        TellsHost relocated.events rendered.text) := by
  obtain ⟨hcompleted, -, htells⟩ := relocated_runs
  have hsettings : ∀ f ∈ [settled, relocated], f.settings = relocated.settings := by
    intro f hf
    simp only [List.mem_cons, List.not_mem_nil, or_false] at hf
    rcases hf with rfl | rfl <;> rfl
  have hsplit : [settled, relocated] = [settled] ++ relocated :: [] := rfl
  exact told_address_rendered servingSite relocated.settings history_relocated hsettings
    rfl hcompleted hsplit htells

/-- The consumer is told of one address while the unit file has the other. -/
theorem relocated_tells_other :
    History servingSite [settled, relocated] () ∧ settled.ending = .ok .completed ∧
      ¬ Silent relocated.events ∧
      LastRendered relocated.settings ([settled, relocated].flatMap Finished.events)
        (.hostname ['r']) ∧
      TellsHost relocated.events (Net.Address.hostname ['s']).text ∧
      ∀ address, LastRendered relocated.settings
        ([settled, relocated].flatMap Finished.events) address →
        ¬ TellsHost relocated.events address.text := by
  obtain ⟨hcompleted, hup, htells⟩ := relocated_runs
  have hsettled : LastRendered relocated.settings settled.events (.hostname ['r']) := by
    have hinstalled := history_relocated.handlesUnit settled (by simp)
    rcases hinstalled.cases_unrendered with hunrendered | ⟨address, haddress, hlast⟩
    · exact absurd hunrendered (hinstalled.of_installed rfl hcompleted)
    · obtain rfl := Option.some.inj haddress
      exact hlast
  have hrelocated : Unrendered relocated.settings relocated.events := by
    cases history_relocated.handlesUnit relocated (by simp) with
    | left _ hunrendered => exact hunrendered
    | stopped hunrendered _ _ => exact hunrendered
    | rendered hstarts _ _ => exact absurd hstarts hup
  have hlast : LastRendered relocated.settings ([settled, relocated].flatMap Finished.events)
      (.hostname ['r']) := by
    rw [List.flatMap_cons, List.flatMap_singleton]
    exact hsettled.before_unrendered hrelocated
  have hhost : TellsHost relocated.events (Net.Address.hostname ['s']).text := by
    rcases history_relocated.tellsOwn relocated (by simp) with hsilent | ⟨address, haddress, hhost⟩
    · exact absurd hsilent htells
    · obtain rfl := Option.some.inj haddress
      exact hhost
  refine ⟨history_relocated, hcompleted, htells, hlast, hhost, ?_⟩
  intro address haddress hother
  have hequal := hhost.eq hother htells
  rw [haddress.text_eq hlast] at hequal
  exact absurd hequal (by decide)

end Hooks

end RelayKeeper
