import RelayKeeper.Proofs.StartingDaemon

/-! # Starts that are abandoned

The deadline of a start is reckoned when the host has launched the unit. If no clock can show it the
start is abandoned there, and the unit is left launched and unwatched. This is the only way in which
a start is abandoned, and so it is for the hooks that start the daemon. -/
namespace RelayKeeper.Hooks

open Relay

variable {ω ε δ : Type} {site : Site ω} {settings : Settings} {address : Net.Address}
  {bound : Option Net.Address} {s t : Session ω} {es fs : List Event}

/-- No clock can show the deadline of a wait that begins now. -/
def BeyondClock (settings : Settings) (s : Session ω) : Prop :=
  (Duration.ofSeconds Hook.clockRange).nanos ≤ (s.clock.add settings.startupTimeout).nanos

theorem beyondClock_of_clock (hclock : t.clock.nanos = s.clock.nanos) :
    BeyondClock settings t ↔ BeyondClock settings s := by
  rw [BeyondClock, BeyondClock, Duration.add, Duration.add, hclock]

theorem unitRestarted_mem_launchEvents :
    unitRestarted settings ∈ launchEvents settings address := by
  simp [launchEvents, launchCalls, unitRestarted, Host.Call.success]

/-! ## Steps that take no time -/

def restartsUnit : Host.Call → Bool
  | .restartUnit _ => true
  | _ => false

def Step.IsBrief : Step ε → Prop
  | .ask call _ => restartsUnit call = false
  | .wait .. => False
  | .note .. => True
  | .tell .. => True

theorem Step.IsBrief.map {step : Step δ} (h : step.IsBrief) (f : δ → ε) : (step.map f).IsBrief := by
  cases step with
  | ask call failure => exact h
  | note _ _ | tell _ _ => trivial
  | wait _ _ => exact h.elim

structure Brief (settings : Settings) (es : List Event) (halt : Option (Halt ε)) : Prop where
  unabandoned : halt ≠ some .abandoned
  instant : elapsed es = 0
  unrestarted : unitRestarted settings ∉ es

theorem map_failed_ne_abandoned (error : Option ε) : error.map Halt.failed ≠ some .abandoned := by
  cases error <;> simp

theorem brief_of_events {halt : Option (Halt ε)} (hhalt : halt ≠ some .abandoned)
    (hes : ∀ e ∈ es, e.elapsed = 0 ∧ e ≠ unitRestarted settings) : Brief settings es halt := by
  refine ⟨hhalt, ?_, fun hmem => (hes _ hmem).2 rfl⟩
  induction es with
  | nil => rfl
  | cons e es ih =>
    rw [elapsed, (hes e List.mem_cons_self).1, ih fun d hd => hes d (List.mem_cons_of_mem _ hd)]

theorem Step.Goes.brief {step : Step ε} {halt : Option (Halt ε)} (h : step.Goes site s es halt)
    (hstep : step.IsBrief) : Brief settings es halt := by
  cases h with
  | @ask call failure reply =>
    refine brief_of_events (map_failed_ne_abandoned _) fun e he => ?_
    obtain rfl := List.mem_singleton.mp he
    refine ⟨rfl, fun heq => ?_⟩
    injection heq with hcall
    subst hcall
    cases hstep
  | note reply =>
    refine brief_of_events (map_failed_ne_abandoned _) fun e he => ?_
    obtain rfl := List.mem_singleton.mp he
    exact ⟨rfl, nofun⟩
  | abandon _ | wait _ _ => exact hstep.elim
  | tell ht =>
    refine brief_of_events nofun fun e he => ?_
    rcases ht.announced with rfl | ⟨data, ha⟩
    · cases he
    · rcases ha.mem he with ⟨_, rfl⟩ | ⟨_, _, rfl⟩ <;> exact ⟨rfl, nofun⟩

theorem Cut.brief {plan : List (Step ε)} {halt : Option (Halt ε)} (h : Cut site plan s es halt)
    (hplan : ∀ step ∈ plan, step.IsBrief) : Brief settings es halt := by
  induction h with
  | done => exact ⟨nofun, rfl, nofun⟩
  | failed hg => exact hg.brief (hplan _ List.mem_cons_self)
  | passed hg _ _ ih =>
    have hfirst : Brief settings _ _ := hg.brief (hplan _ List.mem_cons_self)
    have hrest := ih fun step hstep => hplan step (List.mem_cons_of_mem _ hstep)
    refine ⟨hrest.unabandoned, ?_, ?_⟩
    · rw [elapsed_append, hfirst.instant, hrest.instant]
    · intro hmem
      rcases List.mem_append.mp hmem with hmem | hmem
      · exact hfirst.unrestarted hmem
      · exact hrest.unrestarted hmem

theorem isBrief_map {plan : List (Step δ)} (h : ∀ step ∈ plan, step.IsBrief) (f : δ → ε) :
    ∀ step ∈ plan.map (Step.map f), step.IsBrief := by
  intro step hstep
  obtain ⟨part, hpart, rfl⟩ := List.mem_map.mp hstep
  exact (h part hpart).map f

theorem isBrief_dependencyPlan (settings : Settings) (proxy : Option Provision.ProxyConfig) :
    ∀ step ∈ dependencyPlan settings proxy, step.IsBrief := by
  intro step hstep
  cases dependencyStep_of_mem settings hstep <;> rfl

theorem isBrief_keyPlan (settings : Settings) (address : Net.Address) :
    ∀ step ∈ keyPlan settings address, step.IsBrief := by
  intro step hstep
  cases keyStep_of_mem settings hstep <;> rfl

theorem isBrief_preparingPlan (settings : Settings) (address : Net.Address)
    (proxy : Option Provision.ProxyConfig) :
    ∀ step ∈ preparingPlan settings address proxy, step.IsBrief := by
  intro step hstep
  simp only [preparingPlan, List.mem_append, List.mem_singleton] at hstep
  rcases hstep with rfl | hstep | rfl | hstep | rfl
  · trivial
  · exact isBrief_map (isBrief_dependencyPlan settings proxy) _ step hstep
  · trivial
  · exact isBrief_map (isBrief_keyPlan settings address) _ step hstep
  · trivial

theorem isBrief_openingPlan (settings : Settings) (address : Net.Address) :
    ∀ step ∈ openingPlan settings address, step.IsBrief := by
  intro step hstep
  simp only [openingPlan, List.mem_cons, List.not_mem_nil, or_false] at hstep
  rcases hstep with rfl | rfl | rfl <;> trivial

theorem isBrief_updatingPlan (settings : Settings) (address : Net.Address) :
    ∀ step ∈ updatingPlan settings address, step.IsBrief := by
  intro step hstep
  exact isBrief_openingPlan settings address step (List.mem_cons_of_mem _ hstep)

/-! ## When a run is abandoned -/

/-- A run is abandoned exactly if the host restarted the unit and no clock shows the deadline. The
launch is the last thing that it did then. -/
structure Abandons (settings : Settings) (bound : Option Net.Address) (s : Session ω)
    (es : List Event) (halt : Option (Halt ε)) : Prop where
  exactly : halt = some .abandoned ↔ BeyondClock settings s ∧ unitRestarted settings ∈ es
  launched : halt = some .abandoned → ∃ address ∈ bound, ∃ before,
    es = before ++ launchEvents settings address ∧ unitRestarted settings ∉ before

namespace Abandons

variable {halt : Option (Halt ε)}

theorem never (hhalt : halt ≠ some .abandoned) (hes : unitRestarted settings ∉ es) :
    Abandons settings bound s es halt :=
  ⟨⟨fun h => absurd h hhalt, fun h => absurd h.2 hes⟩, fun h => absurd h hhalt⟩

theorem of_brief (h : Brief settings es halt) : Abandons settings bound s es halt :=
  never h.unabandoned h.unrestarted

/-- What takes no time makes no difference to what follows it. -/
theorem after_brief {stop : Option (Halt δ)} (h : Abandons settings bound t es halt)
    (hr : Ran site s t fs) (hfs : Brief settings fs stop) :
    Abandons settings bound s (fs ++ es) halt where
  exactly := by
    have hclock : t.clock.nanos = s.clock.nanos := by
      rw [hr.clock, hfs.instant, Nat.add_zero]
    rw [h.exactly, beyondClock_of_clock hclock, List.mem_append, or_iff_right hfs.unrestarted]
  launched := by
    intro habandoned
    obtain ⟨address, hbound, before, rfl, hbefore⟩ := h.launched habandoned
    refine ⟨address, hbound, fs ++ before, (List.append_assoc ..).symm, ?_⟩
    rw [List.mem_append, not_or]
    exact ⟨hfs.unrestarted, hbefore⟩

/-- A run that was not stopped is not abandoned in what takes no time. -/
theorem before_brief {stop : Option (Halt δ)}
    (h : Abandons settings bound s es (none : Option (Halt ε))) (hfs : Brief settings fs stop) :
    Abandons settings bound s (es ++ fs) stop where
  exactly := by
    constructor
    · intro habandoned
      exact absurd habandoned hfs.unabandoned
    · rintro ⟨hbeyond, hmem⟩
      rw [List.mem_append, or_iff_left hfs.unrestarted] at hmem
      cases h.exactly.mpr ⟨hbeyond, hmem⟩
  launched := fun habandoned => absurd habandoned hfs.unabandoned

theorem map_eq_abandoned (f : ε → δ) :
    halt.map (Halt.map f) = some .abandoned ↔ halt = some .abandoned := by
  rcases halt with _ | _ | _ <;> simp [Halt.map]

theorem map (h : Abandons settings bound s es halt) (f : ε → δ) :
    Abandons settings bound s es (halt.map (Halt.map f)) where
  exactly := (map_eq_abandoned f).trans h.exactly
  launched := fun habandoned => h.launched ((map_eq_abandoned f).mp habandoned)

end Abandons

/-! ## Starting the daemon -/

/-- The launch asks, so that it is done as far as the host takes the calls. -/
theorem Cut.launches {halt : Option (Halt DaemonError)}
    (h : Cut site (daemonCalls settings address) s es halt) (hr : Ran site s t es) :
    (∃ failure, Refused site settings address s.world failure ∧ halt = some (.failed failure) ∧
        unitRestarted settings ∉ es) ∨
      Launched site settings address s.world ∧ halt = none ∧
        es = launchEvents settings address := by
  have htimely : Timely (daemonCalls settings address ++ []) s.clock.nanos :=
    timely_append (onlyAsks_daemonCalls settings address) trivial
  have hnotes : ∀ call failure reply, .note call failure ∈ daemonCalls settings address →
      .record call reply ∈ es → failure reply = none := by
    intro call failure reply hmem
    exact absurd hmem (onlyAsks_daemonCalls settings address).not_note
  rw [List.append_nil] at htimely
  obtain ⟨error, rfl, hasked⟩ := h.asked hnotes htimely
  rw [← List.append_nil (daemonCalls settings address)] at hasked
  rcases hasked.launches hr.world with
    ⟨failure, hrefused, rfl, -, hes⟩ | ⟨fs, hlaunched, rfl, hdone, -⟩
  · exact .inl ⟨failure, hrefused, rfl, hes⟩
  · cases hdone with
    | done => exact .inr ⟨hlaunched, rfl, List.append_nil _⟩

inductive Starts (site : Site ω) (settings : Settings) (address : Net.Address) (s : Session ω) :
    List Event → Option (Halt DaemonError) → Prop where
  | refused {es : List Event} {failure} : Refused site settings address s.world failure →
      unitRestarted settings ∉ es → Starts site settings address s es (some (.failed failure))
  | abandoned : Launched site settings address s.world → BeyondClock settings s →
      Starts site settings address s (launchEvents settings address) (some .abandoned)
  | watched {es : List Event} {error : Option DaemonError} :
      Launched site settings address s.world → ¬ BeyondClock settings s →
      Starts site settings address s (launchEvents settings address ++ es) (error.map .failed)

theorem Cut.goes_of_singleton {step : Step ε} {halt : Option (Halt ε)}
    (h : Cut site [step] s es halt) : step.Goes site s es halt := by
  cases h with
  | failed hg => exact hg
  | passed hg _ hc =>
    cases hc with
    | done =>
      rw [List.append_nil]
      exact hg

theorem Cut.starts {halt : Option (Halt DaemonError)}
    (h : Cut site (daemonPlan settings address) s es halt) (hr : Ran site s t es) :
    Starts site settings address s es halt := by
  rcases h.of_append with ⟨hc, hne⟩ | ⟨before, u, after, rfl, hbefore, hu, hafter⟩
  · rcases hc.launches hr with ⟨failure, hrefused, rfl, hes⟩ | ⟨-, rfl, -⟩
    · exact .refused hrefused hes
    · exact absurd rfl hne
  rcases hbefore.launches hu with ⟨_, -, hnone, -⟩ | ⟨hlaunched, -, rfl⟩
  · cases hnone
  -- the launch has taken no time, so that the deadline is the same as at the beginning
  have hclock : BeyondClock settings u ↔ BeyondClock settings s := beyondClock_of_clock hu.clock
  cases hafter.goes_of_singleton with
  | abandon hbeyond =>
    rw [List.append_nil]
    exact .abandoned hlaunched (hclock.mp hbeyond)
  | wait hwithin _ =>
    have hs : ¬ BeyondClock settings s := fun hbeyond =>
      absurd (hclock.mpr hbeyond) (Nat.not_le.mpr hwithin)
    exact .watched hlaunched hs

namespace Starts

variable {halt : Option (Halt DaemonError)}

theorem abandons (h : Starts site settings address s es halt) :
    Abandons settings (some address) s es halt := by
  cases h with
  | refused _ hes => exact .never nofun hes
  | abandoned _ hbeyond =>
    refine ⟨⟨fun _ => ⟨hbeyond, unitRestarted_mem_launchEvents⟩, fun _ => rfl⟩, fun _ => ?_⟩
    exact ⟨address, rfl, [], rfl, nofun⟩
  | watched _ hwithin =>
    exact ⟨⟨fun heq => absurd heq (map_failed_ne_abandoned _), fun h => absurd h.1 hwithin⟩,
      fun heq => absurd heq (map_failed_ne_abandoned _)⟩

theorem abandoned_iff (h : Starts site settings address s es halt) :
    halt = some .abandoned ↔ Launched site settings address s.world ∧ BeyondClock settings s := by
  cases h with
  | refused hrefused _ =>
    exact ⟨nofun, fun h => absurd h.1 hrefused.not_launched⟩
  | abandoned hlaunched hbeyond => exact ⟨fun _ => ⟨hlaunched, hbeyond⟩, fun _ => rfl⟩
  | watched _ hwithin =>
    exact ⟨fun heq => absurd heq (map_failed_ne_abandoned _), fun h => absurd h.2 hwithin⟩

end Starts

/-! ## The hooks -/

theorem Reconciles.abandons {r : Except (Halt DaemonError) Reconciled}
    (h : Reconciles site settings address s es r) (hr : Ran site s t es) :
    Abandons settings (some address) s es (haltOf r) := by
  have hquery : ∀ reply, Brief settings [.host (.queryStatus settings.serviceName) reply]
      (none : Option (Halt DaemonError)) := by
    intro reply
    refine brief_of_events nofun fun e he => ?_
    obtain rfl := List.mem_singleton.mp he
    exact ⟨rfl, by simp [unitRestarted]⟩
  cases h with
  | @unknown reply _ _ => exact .never (by simp [haltOf]) (hquery reply).unrestarted
  | @running reply _ => exact .never (by simp [haltOf]) (hquery reply).unrestarted
  | @restart reply u es _ _ hu hc =>
    refine Abandons.after_brief ?_ hu (hquery reply)
    rcases hc.of_append with ⟨hc, -⟩ | ⟨start, v, pruned, rfl, hstart, hv, hpruned⟩
    · exact (hc.starts (hu.drop hr)).abandons
    · have hprune : Brief settings pruned (haltOf r) :=
        hpruned.goes_of_singleton.brief rfl
      exact (hstart.starts hv).abandons.before_brief hprune

theorem abandons_install (site : Site ω) (settings : Settings) (state : Provision.State)
    (s : Session ω) : ∃ es, Ran site s (install site settings state s).2 es ∧
      Abandons settings state.address s es (haltOf (install site settings state s).1) := by
  cases hbound : state.address with
  | none =>
    obtain ⟨es, hr, rfl, hend⟩ := makes_install_unbound site settings hbound s
    rw [hend]
    exact ⟨[], hr, .never nofun nofun⟩
  | some address =>
    obtain ⟨es, hr, hc⟩ := follows_install site settings hbound s
    refine ⟨es, hr, ?_⟩
    rw [provisionPlan_eq, List.append_assoc] at hc
    rcases hc.of_append with ⟨hc, -⟩ | ⟨prepared, t, rest, rfl, hprepared, ht, hc⟩
    · exact .of_brief (hc.brief (isBrief_preparingPlan settings address _))
    refine Abandons.after_brief ?_ ht (hprepared.brief (isBrief_preparingPlan settings address _))
    rcases hc.of_append with ⟨hc, -⟩ | ⟨start, u, opening, rfl, hstart, hu, hopening⟩
    · obtain ⟨part, hpart, heq⟩ := hc.of_map
      rw [heq]
      exact (hpart.starts (ht.drop hr)).abandons.map _
    · obtain ⟨part, hpart, heq⟩ := hstart.of_map
      obtain rfl := Option.map_eq_none_iff.mp heq.symm
      exact (hpart.starts hu).abandons.before_brief
        (hopening.brief (isBrief_openingPlan settings address))

theorem abandons_updateStatus (site : Site ω) (settings : Settings) (state : Provision.State)
    (s : Session ω) : ∃ es, Ran site s (updateStatus site settings state s).2 es ∧
      Abandons settings state.address s es (haltOf (updateStatus site settings state s).1) := by
  obtain ⟨es, hr, h⟩ := makes_updateStatus site settings state s
  refine ⟨es, hr, ?_⟩
  generalize haltOf (updateStatus site settings state s).1 = halt at h ⊢
  generalize state.address = bound at h ⊢
  cases h with
  | waiting hc =>
    refine .of_brief (hc.brief fun step hstep => ?_)
    obtain rfl := List.mem_singleton.mp hstep
    trivial
  | unreconciled h => exact (h.abandons hr).map HookError.daemon
  | @reconciled address t es reconciled fs halt h ht hc =>
    exact (h.abandons ht).before_brief (hc.brief (isBrief_updatingPlan settings address))

theorem haltOf_eq_abandoned {α : Type} {r : Except (Halt ε) α} :
    haltOf r = some .abandoned ↔ r = .error .abandoned := by
  cases r <;> simp [haltOf]

/-- How a run ends that would be abandoned only in a launch beyond the clock. -/
structure EndsInTime {α : Type} (settings : Settings) (bound : Option Net.Address) (s : Session ω)
    (es : List Event) (r : Except (Halt ε) α) : Prop where
  ends : 0 < settings.checkInterval.nanos → ¬ BeyondClock settings s →
    (∃ value, r = .ok value) ∨ ∃ failure, r = .error (.failed failure)
  abandons : Abandons settings bound s es (haltOf r)

theorem Abandons.endsInTime {α : Type} {r : Except (Halt ε) α}
    (h : Abandons settings bound s es (haltOf r)) : EndsInTime settings bound s es r where
  ends := by
    intro _ hwithin
    rcases r with (failure | _) | value
    · exact .inr ⟨failure, rfl⟩
    · exact absurd (h.exactly.mp rfl).1 hwithin
    · exact .inl ⟨value, rfl⟩
  abandons := h

/-- A start is abandoned exactly if the host launches the unit and no clock can show the deadline,
and the launch is the last thing that it does. An installation or an update of the status is
abandoned in such a start, and in no other way. With any other deadline, and with pauses between the
checks, all three end with a value or a failure of their own, whatever the host answers. -/
theorem abandoned_beyond_clock (site : Site ω) (settings : Settings) (s : Session ω) :
    (∀ address,
      ((startDaemon site settings address s).1 = .error .abandoned ↔
        Launched site settings address s.world ∧ BeyondClock settings s) ∧
      ∃ es, (startDaemon site settings address s).2.trace = s.trace ++ es ∧
        EndsInTime settings (some address) s es (startDaemon site settings address s).1) ∧
    ∀ state,
      (∃ es, (install site settings state s).2.trace = s.trace ++ es ∧
        EndsInTime settings state.address s es (install site settings state s).1) ∧
      ∃ es, (updateStatus site settings state s).2.trace = s.trace ++ es ∧
        EndsInTime settings state.address s es (updateStatus site settings state s).1 := by
  refine ⟨fun address => ?_, fun state => ⟨?_, ?_⟩⟩
  · obtain ⟨es, hr, hc⟩ := follows_startDaemon site settings address s
    have hstarts := hc.starts hr
    refine ⟨?_, es, hr.trace, hstarts.abandons.endsInTime⟩
    rw [← haltOf_eq_abandoned]
    exact hstarts.abandoned_iff
  · obtain ⟨es, hr, h⟩ := abandons_install site settings state s
    exact ⟨es, hr.trace, h.endsInTime⟩
  · obtain ⟨es, hr, h⟩ := abandons_updateStatus site settings state s
    exact ⟨es, hr.trace, h.endsInTime⟩

/-- The longest timeout that a clock at zero can reach, and the next one. -/
theorem abandoned_beyond_clock_edge :
    ¬ BeyondClock { startupTimeoutSecs := 9223372036854775807 } ({ world := () } : Session Unit) ∧
      (startDaemon quietSite { startupTimeoutSecs := 9223372036854775807 } (.hostname ['r'])
        { world := () }).1 ≠ .error .abandoned ∧
      BeyondClock { startupTimeoutSecs := 9223372036854775808 } ({ world := () } : Session Unit) ∧
      (startDaemon quietSite { startupTimeoutSecs := 9223372036854775808 } (.hostname ['r'])
        { world := () }).1 = .error .abandoned := by
  have hwithin : ¬ BeyondClock { startupTimeoutSecs := 9223372036854775807 }
      ({ world := () } : Session Unit) := Nat.not_le.mpr (by decide)
  have hbeyond : BeyondClock { startupTimeoutSecs := 9223372036854775808 }
      ({ world := () } : Session Unit) := by
    unfold BeyondClock
    decide
  obtain ⟨hstart, -⟩ := abandoned_beyond_clock quietSite
    { startupTimeoutSecs := 9223372036854775807 } { world := () }
  obtain ⟨hnext, -⟩ := abandoned_beyond_clock quietSite
    { startupTimeoutSecs := 9223372036854775808 } { world := () }
  refine ⟨hwithin, fun h => ?_, hbeyond, (hnext _).1.mpr ⟨⟨rfl, rfl, rfl, rfl⟩, hbeyond⟩⟩
  exact hwithin ((hstart _).1.mp h).2

/-- The longest timeout there is, with a host that does everything and answers every status query
that the unit runs. The unit is launched and nobody asks about it. -/
theorem startDaemon_longest_abandoned :
    0 < ({ startupTimeoutSecs := 18446744073709551615 } : Settings).checkInterval.nanos ∧
      (∀ unit w, EndedWith (quietSite.host (.queryStatus unit) w).reply (some 0)) ∧
      (startDaemon quietSite { startupTimeoutSecs := 18446744073709551615 } (.hostname ['r'])
        { world := () }).1 = .error .abandoned ∧
      (startDaemon quietSite { startupTimeoutSecs := 18446744073709551615 } (.hostname ['r'])
        { world := () }).2.trace =
          launchEvents { startupTimeoutSecs := 18446744073709551615 } (.hostname ['r']) :=
  ⟨by decide, fun _ _ => ⟨_, rfl, rfl⟩, rfl, rfl⟩

end RelayKeeper.Hooks
