import RelayKeeper.Proofs.InstallPlan

/-! # Reconciling again and again

A controller reconciles pass after pass. Whatever the host answers, it restarts the daemon at most
once in a pass, and only in the passes in which the first look at the supervisor found the daemon
down; whoever could not tell does nothing more. -/
namespace RelayKeeper

def Event.asks (f : Host.Call → Bool) : Event → Bool
  | .host call _ => f call
  | _ => false

def Event.hostCall? : Event → Option Host.Call
  | .host call _ => some call
  | _ => none

def hostCalls (es : List Event) : List Host.Call := es.filterMap Event.hostCall?

def restarts (es : List Event) : Nat :=
  es.countP (Event.asks fun call => call matches .restartUnit _)

def prunes (es : List Event) : Nat :=
  es.countP (Event.asks fun call => call matches .pruneContainers)

def firstStatus? : List Event → Option (Except Host.CommandError Host.CommandOutput)
  | .host (.queryStatus _) reply :: _ => some reply
  | _ => none

/-- The status query that comes first was answered with the code of a unit that is down. -/
def foundDown (es : List Event) : Bool :=
  match firstStatus? es with
  | some (.ok output) => output.code == some 3
  | _ => false

namespace Hooks

open Relay

variable {ω ε : Type} {site : Site ω} {settings : Settings} {s : Session ω} {es : List Event}

/-! ## Counting calls -/

def Step.asks (f : Host.Call → Bool) : Step ε → Bool
  | .ask call _ => f call
  | _ => false

section counts

variable {f : Host.Call → Bool}

theorem Polled.countP_asks (hf : ∀ unit, f (.queryStatus unit) = false) {left : Nat}
    {error : Option DaemonError} (h : Polled settings left es error) :
    es.countP (Event.asks f) = 0 := by
  induction h with
  | failed _ | met _ | inVain _ _ => simp [Event.asks, hf]
  | again _ _ _ ih => simpa [Event.asks, hf] using ih

theorem Told.countP_asks {address : Net.Address} {files : FileTree}
    (h : Told settings address files es) : es.countP (Event.asks f) = 0 := by
  rcases h.announced with rfl | ⟨data, ha⟩
  · rfl
  · rw [List.countP_eq_zero]
    intro e he
    rcases ha.mem he with ⟨_, rfl⟩ | ⟨_, _, rfl⟩ <;> exact Bool.false_ne_true

theorem Step.Goes.countP_asks (hf : ∀ unit, f (.queryStatus unit) = false) {step : Step ε}
    {halt : Option (Halt ε)} (h : step.Goes site s es halt) :
    es.countP (Event.asks f) ≤ [step].countP (Step.asks f) := by
  cases h with
  | ask reply => exact Nat.le_of_eq rfl
  | note reply => exact Nat.zero_le _
  | abandon _ => exact Nat.zero_le _
  | wait _ hp =>
    rw [hp.countP_asks hf]
    exact Nat.zero_le _
  | tell ht =>
    rw [ht.countP_asks]
    exact Nat.zero_le _

theorem countP_asks_cons (f : Host.Call → Bool) (step : Step ε) (steps : List (Step ε)) :
    (step :: steps).countP (Step.asks f) =
      [step].countP (Step.asks f) + steps.countP (Step.asks f) := by
  rw [← List.countP_append, List.singleton_append]

/-- A run asks no more often than its plan. -/
theorem Cut.countP_asks (hf : ∀ unit, f (.queryStatus unit) = false) {plan : List (Step ε)}
    {halt : Option (Halt ε)} (h : Cut site plan s es halt) :
    es.countP (Event.asks f) ≤ plan.countP (Step.asks f) := by
  induction h with
  | done => exact Nat.le_refl 0
  | @failed step steps s es halt hg =>
    have hone := hg.countP_asks hf
    have hall := countP_asks_cons f step steps
    omega
  | @passed step steps s t es fs halt hg _ _ ih =>
    have hone := hg.countP_asks hf
    have hall := countP_asks_cons f step steps
    rw [List.countP_append]
    omega

end counts

theorem restarts_of_daemonPlan {address : Net.Address} {halt : Option (Halt DaemonError)}
    (h : Cut site (daemonPlan settings address) s es halt) : restarts es ≤ 1 :=
  h.countP_asks fun _ => rfl

theorem prunes_of_daemonPlan {address : Net.Address} {halt : Option (Halt DaemonError)}
    (h : Cut site (daemonPlan settings address) s es halt) : prunes es = 0 :=
  Nat.le_zero.mp (h.countP_asks fun _ => rfl)

end Hooks

/-! ## One pass -/

namespace Relay

open Hooks

variable {ω : Type}

structure Pass (ω : Type) where
  address : Option Net.Address
  before : Session ω

def alerted (s : Session ω) : Session ω :=
  { s with log := s.log ++ [⟨.warn, reconcileComponent, "Daemon not running, restarting", none⟩] }

namespace Pass

variable (site : Site ω) (settings : Settings) (p : Pass ω)

def ending : Except (Halt DaemonError) Reconciled :=
  (reconcile site settings p.address p.before).1

def after : Session ω := (reconcile site settings p.address p.before).2

def events : List Event := (p.after site settings).trace.drop p.before.trace.length

/-- How the start of the daemon ended, if the pass came to it. -/
def started? : Option (Except (Halt DaemonError) Unit) :=
  match p.address, daemonStatus site settings p.before with
  | some address, (.ok ⟨false, _⟩, s) => some (startDaemon site settings address (alerted s)).1
  | _, _ => none

end Pass

/-- What is asked for and done by a pass over an address, how it ends, and how the start of the
daemon ended if it came to that. -/
inductive Went (site : Site ω) (settings : Settings) (address : Net.Address) (s : Session ω) :
    List Event → Except (Halt DaemonError) Reconciled → Option (Except (Halt DaemonError) Unit) →
      Prop where
  | unknown {reply error} : report settings.serviceName reply = .error error →
      Went site settings address s [.host (.queryStatus settings.serviceName) reply]
        (.error (.failed error)) none
  | up {reply text} : report settings.serviceName reply = .ok ⟨true, text⟩ →
      Went site settings address s [.host (.queryStatus settings.serviceName) reply]
        (.ok .running) none
  | failed {reply text t u es halt} : report settings.serviceName reply = .ok ⟨false, text⟩ →
      Ran site s t [.host (.queryStatus settings.serviceName) reply] → Ran site t u es →
      Cut site (daemonPlan settings address) t es (some halt) →
      Went site settings address s (.host (.queryStatus settings.serviceName) reply :: es)
        (.error halt) (some (.error halt))
  | restarted {reply text t u es} (pruned : Except Host.CommandError Unit) :
      report settings.serviceName reply = .ok ⟨false, text⟩ →
      Ran site s t [.host (.queryStatus settings.serviceName) reply] → Ran site t u es →
      Cut site (daemonPlan settings address) t es none →
      Went site settings address s
        (.host (.queryStatus settings.serviceName) reply :: (es ++ [.host .pruneContainers pruned]))
        (.ok .restarted) (some (.ok ()))

section runs

variable (site : Site ω) (settings : Settings)

theorem run_daemonStatus (s : Session ω) :
    ∃ reply t, Ran site s t [.host (.queryStatus settings.serviceName) reply] ∧
      daemonStatus site settings s = ((report settings.serviceName reply).mapError .failed, t) := by
  obtain ⟨es, hr, reply, rfl, hv⟩ := makes_daemonStatus site settings s
  exact ⟨reply, _, hr, Prod.ext hv rfl⟩

def cleanUp : Hook ω DaemonError Reconciled := do
  match ← Hook.attempt (removeStoppedContainers site) with
  | .ok _ => return .restarted
  | .error _ =>
    Hook.log .error reconcileComponent "Failed to clean up stopped containers"
    return .restarted

theorem run_cleanUp (s : Session ω) :
    ∃ pruned t, Ran site s t [.host .pruneContainers pruned] ∧
      cleanUp site s = (.ok .restarted, t) := by
  obtain ⟨_, hr, pruned, rfl, -⟩ :=
    Hook.makes_host (ε := Host.CommandError) site .pruneContainers s
  have hprune : removeStoppedContainers site s =
      Hook.require id (site.host .pruneContainers s.world).reply
        (Hook.host (ε := Host.CommandError) site .pruneContainers s).2 := rfl
  rw [cleanUp, Hook.run_bind, Hook.attempt, hprune]
  cases (site.host .pruneContainers s.world).reply with
  | ok _ => exact ⟨pruned, _, hr, rfl⟩
  | error _ => exact ⟨pruned, _, hr.logs _, rfl⟩

theorem run_reconcile (address : Net.Address) (s : Session ω) :
    reconcile site settings (some address) s =
      match daemonStatus site settings s with
      | (.error halt, t) => (.error halt, t)
      | (.ok status, t) =>
        if status.running then (.ok .running, t)
        else
          match startDaemon site settings address (alerted t) with
          | (.error halt, u) => (.error halt, u)
          | (.ok (), u) => cleanUp site u := by
  rw [reconcile, Hook.run_bind]
  rcases daemonStatus site settings s with ⟨halt | ⟨_ | _, text⟩, t⟩
  · rfl
  · dsimp only
    rw [if_neg nofun, if_neg nofun, Hook.run_bind]
    change (startDaemon site settings address >>= fun _ => cleanUp site) (alerted t) = _
    rw [Hook.run_bind]
    rcases startDaemon site settings address (alerted t) with ⟨halt | _, u⟩ <;> rfl
  · rfl

theorem Pass.events_eq {p : Pass ω} {es : List Event}
    (h : Ran site p.before (p.after site settings) es) : p.events site settings = es := by
  rw [Pass.events, h.trace, List.drop_left]

theorem Pass.ran_none {p : Pass ω} (h : p.address = none) :
    Ran site p.before (p.after site settings) [] ∧ p.ending site settings = .ok .unbound ∧
      p.started? site settings = none := by
  obtain ⟨es, hr, rfl, hend⟩ := makes_reconcile_none site settings p.before
  refine ⟨?_, ?_, ?_⟩
  · rw [Pass.after, h]
    exact hr
  · rw [Pass.ending, h]
    exact hend
  · rw [Pass.started?, h]

/-- Every pass over an address goes in one of four ways. -/
theorem Pass.ran_some {p : Pass ω} {address : Net.Address} (h : p.address = some address) :
    Ran site p.before (p.after site settings) (p.events site settings) ∧
      Went site settings address p.before (p.events site settings) (p.ending site settings)
        (p.started? site settings) := by
  suffices hgoes : ∃ es, Ran site p.before (p.after site settings) es ∧
      Went site settings address p.before es (p.ending site settings)
        (p.started? site settings) by
    obtain ⟨es, hr, hw⟩ := hgoes
    rw [events_eq site settings hr]
    exact ⟨hr, hw⟩
  obtain ⟨reply, t, hr, hquery⟩ := run_daemonStatus site settings p.before
  rw [Pass.after, Pass.ending, Pass.started?, h]
  rw [run_reconcile, hquery]
  rcases hreport : report settings.serviceName reply with error | ⟨_ | _, text⟩
  · exact ⟨_, hr, .unknown hreport⟩
  · -- The unit is down, and how the pass goes depends on how it can be started.
    obtain ⟨es, hr', hc⟩ := follows_startDaemon site settings address (alerted t)
    have hquiet : Ran site t (alerted t) [] := Ran.quiet t _
    dsimp only [Except.mapError]
    rw [if_neg nofun]
    rcases hstart : startDaemon site settings address (alerted t) with ⟨halt | _, u⟩
    · rw [hstart] at hr' hc
      have hu := hquiet.trans hr'
      exact ⟨_, hr.trans hu, .failed hreport hr hu (hc.of_quiet hquiet)⟩
    · rw [hstart] at hr' hc
      obtain ⟨pruned, v, hr'', hclean⟩ := run_cleanUp site u
      dsimp only
      rw [hclean]
      have hu := hquiet.trans hr'
      exact ⟨_, hr.trans (hu.trans hr''), .restarted pruned hreport hr hu (hc.of_quiet hquiet)⟩
  · exact ⟨_, hr, .up hreport⟩

end runs

/-! ## What is said of every pass -/

/-- What follows a start: nothing if it failed, and cleaning up if it did not. -/
inductive Follow : Option DaemonError → List Event → Prop where
  | failed (error : DaemonError) : Follow (some error) []
  | up (reply : Except Host.CommandError Unit) : Follow none [.host .pruneContainers reply]

/-- What a controller may rely on in a pass. -/
structure Pass.Orderly (site : Site ω) (settings : Settings) (p : Pass ω) : Prop where
  /-- Without an address nothing is asked. -/
  unbound : p.address = none → p.events site settings = [] ∧ p.ending site settings = .ok .unbound
  queried : ∀ address, p.address = some address → ∃ reply rest,
    p.events site settings = .host (.queryStatus settings.serviceName) reply :: rest
  unanswered : ∀ cause, firstStatus? (p.events site settings) = some (.error cause) →
    p.events site settings = [.host (.queryStatus settings.serviceName) (.error cause)] ∧
      p.ending site settings = .error (.failed (.statusCommand settings.serviceName cause))
  unclear : ∀ output, firstStatus? (p.events site settings) = some (.ok output) →
    output.code ≠ some 0 → output.code ≠ some 3 →
      p.events site settings = [.host (.queryStatus settings.serviceName) (.ok output)] ∧
        p.ending site settings =
          .error (.failed (.statusCheck settings.serviceName output.code))
  running : ∀ output, firstStatus? (p.events site settings) = some (.ok output) →
    output.code = some 0 →
    p.events site settings = [.host (.queryStatus settings.serviceName) (.ok output)] ∧
      p.ending site settings = .ok .running ∧ (p.after site settings).clock = p.before.clock
  /-- A restart is for a daemon that was found down, and there is no second one. -/
  restarts : restarts (p.events site settings) ≤ if foundDown (p.events site settings) then 1 else 0
  started : (p.started? site settings).isSome = foundDown (p.events site settings)
  /-- The start does the calls of its plan up to the first that fails, and fails as that one. After a
  call that failed there is no other. -/
  follows : ∀ address, p.address = some address → foundDown (p.events site settings) = true →
    (p.before.clock.add settings.startupTimeout).nanos <
      (Duration.ofSeconds Hook.clockRange).nanos →
    ∃ reply start error rest, Asked (daemonPlan settings address) start error ∧
      p.events site settings =
        .host (.queryStatus settings.serviceName) reply :: (start ++ rest) ∧
      p.started? site settings = some (error.elim (.ok ()) fun error => .error (.failed error)) ∧
      Follow error rest
  stopped : ∀ halt, p.started? site settings = some (.error halt) →
    p.ending site settings = .error halt
  unpruned : p.started? site settings ≠ some (.ok ()) → prunes (p.events site settings) = 0
  pruned : p.started? site settings = some (.ok ()) → p.ending site settings = .ok .restarted ∧
    ∃ es reply, p.events site settings = es ++ [.host .pruneContainers reply] ∧ prunes es = 0
  /-- It makes no difference how cleaning up goes. -/
  regardless : ∀ other : Site ω, (∀ call, call ≠ .pruneContainers →
      other.host call = site.host call) →
    p.ending other settings = p.ending site settings ∧
      hostCalls (p.events other settings) = hostCalls (p.events site settings) ∧
      (p.after other settings).clock = (p.after site settings).clock

section fields

variable {site : Site ω} {settings : Settings} {address : Net.Address} {s : Session ω}
  {es : List Event} {r : Except (Halt DaemonError) Reconciled}
  {start? : Option (Except (Halt DaemonError) Unit)}

theorem report_ok (unit : String) (output : Host.CommandOutput) :
    report unit (.ok output) =
      if output.code = some 0 then .ok ⟨true, output.stdout⟩
      else if output.code = some inactiveCode then .ok ⟨false, output.stdout⟩
      else .error (.statusCheck unit output.code) := by
  rw [report, DaemonStatus.of?]
  by_cases hup : output.code = some 0
  · rw [if_pos hup, if_pos hup]
  · rw [if_neg hup, if_neg hup]
    by_cases hdown : output.code = some inactiveCode
    · rw [if_pos hdown, if_pos hdown]
    · rw [if_neg hdown, if_neg hdown]

theorem code_of_report {unit text : String}
    {reply : Except Host.CommandError Host.CommandOutput} {up : Bool}
    (h : report unit reply = .ok ⟨up, text⟩) :
    ∃ output, reply = .ok output ∧ output.code = if up then some 0 else some 3 := by
  cases reply with
  | error cause => cases h
  | ok output =>
    refine ⟨output, rfl, ?_⟩
    rw [report_ok] at h
    by_cases hup : output.code = some 0
    · rw [if_pos hup] at h
      injection h with h
      injection h with hb
      rw [← hb, hup]
      rfl
    · rw [if_neg hup] at h
      by_cases hdown : output.code = some inactiveCode
      · rw [if_pos hdown] at h
        injection h with h
        injection h with hb
        rw [← hb, hdown]
        rfl
      · rw [if_neg hdown] at h
        cases h

namespace Went

variable (h : Went site settings address s es r start?)

include h

theorem queried :
    ∃ reply rest, es = .host (.queryStatus settings.serviceName) reply :: rest := by
  cases h with
  | unknown _ | up _ | failed _ _ _ _ | restarted _ _ _ _ _ => exact ⟨_, _, rfl⟩

theorem unanswered {cause : Host.CommandError} (hfirst : firstStatus? es = some (.error cause)) :
    es = [.host (.queryStatus settings.serviceName) (.error cause)] ∧
      r = .error (.failed (.statusCommand settings.serviceName cause)) := by
  cases h with
  | unknown hreport =>
    obtain rfl := Option.some.inj hfirst
    obtain rfl := Except.error.inj hreport
    exact ⟨rfl, rfl⟩
  | up hreport | failed hreport _ _ _ | restarted _ hreport _ _ _ =>
    obtain rfl := Option.some.inj hfirst
    cases hreport

theorem unclear {output : Host.CommandOutput} (hfirst : firstStatus? es = some (.ok output))
    (hup : output.code ≠ some 0) (hdown : output.code ≠ some inactiveCode) :
    es = [.host (.queryStatus settings.serviceName) (.ok output)] ∧
      r = .error (.failed (.statusCheck settings.serviceName output.code)) := by
  have hreport : report settings.serviceName (.ok output) =
      .error (.statusCheck settings.serviceName output.code) := by
    rw [report_ok, if_neg hup, if_neg hdown]
  cases h with
  | unknown hr =>
    obtain rfl := Option.some.inj hfirst
    rw [hreport] at hr
    obtain rfl := Except.error.inj hr
    exact ⟨rfl, rfl⟩
  | up hr | failed hr _ _ _ | restarted _ hr _ _ _ =>
    obtain rfl := Option.some.inj hfirst
    rw [hreport] at hr
    cases hr

theorem running {output : Host.CommandOutput} (hfirst : firstStatus? es = some (.ok output))
    (hup : output.code = some 0) :
    es = [.host (.queryStatus settings.serviceName) (.ok output)] ∧ r = .ok .running := by
  have hreport : report settings.serviceName (.ok output) = .ok ⟨true, output.stdout⟩ := by
    rw [report_ok, if_pos hup]
  cases h with
  | up hr =>
    obtain rfl := Option.some.inj hfirst
    exact ⟨rfl, rfl⟩
  | unknown hr | failed hr _ _ _ | restarted _ hr _ _ _ =>
    obtain rfl := Option.some.inj hfirst
    rw [hreport] at hr
    cases hr

theorem started : start?.isSome = foundDown es := by
  cases h with
  | @unknown reply error hr =>
    cases reply with
    | error cause => rfl
    | ok output =>
      by_cases hdown : output.code = some 3
      · rw [report_ok, hdown] at hr
        cases hr
      · exact (beq_eq_false_iff_ne.mpr hdown).symm
  | up hr =>
    obtain ⟨output, rfl, hcode⟩ := code_of_report hr
    simp [foundDown, firstStatus?, hcode]
  | failed hr _ _ _ | restarted _ hr _ _ _ =>
    obtain ⟨output, rfl, hcode⟩ := code_of_report hr
    simp [foundDown, firstStatus?, hcode]

theorem restarts_le : restarts es ≤ if foundDown es then 1 else 0 := by
  rw [← h.started]
  cases h with
  | unknown _ | up _ => exact Nat.zero_le _
  | @failed _ _ _ _ es _ _ _ _ hc =>
    have hone : restarts es ≤ 1 := restarts_of_daemonPlan hc
    exact hone
  | @restarted _ _ _ _ es _ _ _ _ hc =>
    have hone : restarts es ≤ 1 := restarts_of_daemonPlan hc
    exact le_of_eq_of_le (List.countP_append ) hone

theorem stopped {halt : Halt DaemonError} (hstart : start? = some (.error halt)) :
    r = .error halt := by
  cases h with
  | unknown _ | up _ | restarted _ _ _ _ _ => cases hstart
  | failed _ _ _ _ =>
    obtain rfl := Except.error.inj (Option.some.inj hstart)
    rfl

theorem unpruned (hstart : start? ≠ some (.ok ())) : prunes es = 0 := by
  cases h with
  | unknown _ | up _ => rfl
  | @failed _ _ _ _ es _ _ _ _ hc =>
    have hnone : prunes es = 0 := prunes_of_daemonPlan hc
    exact hnone
  | restarted _ _ _ _ _ => exact absurd rfl hstart

theorem pruned (hstart : start? = some (.ok ())) : r = .ok .restarted ∧
    ∃ es' reply, es = es' ++ [.host .pruneContainers reply] ∧ prunes es' = 0 := by
  cases h with
  | unknown _ | up _ | failed _ _ _ _ => cases hstart
  | @restarted reply _ _ _ es pruned _ _ _ hc =>
    have hnone : prunes es = 0 := prunes_of_daemonPlan hc
    exact ⟨rfl, .host (.queryStatus settings.serviceName) reply :: es, pruned, rfl, hnone⟩

theorem follows (hdown : foundDown es = true)
    (htime : (s.clock.add settings.startupTimeout).nanos <
      (Duration.ofSeconds Hook.clockRange).nanos) :
    ∃ reply start error rest, Asked (daemonPlan settings address) start error ∧
      es = .host (.queryStatus settings.serviceName) reply :: (start ++ rest) ∧
      start? = some (error.elim (.ok ()) fun error => .error (.failed error)) ∧
      Follow error rest := by
  have hasked : ∀ {reply t u es halt}, Ran site s t [.host (.queryStatus settings.serviceName) reply] →
      Ran site t u es → Cut site (daemonPlan settings address) t es halt →
      ∃ error, halt = error.map .failed ∧ Asked (daemonPlan settings address) es error := by
    intro reply t u es halt ht hu hc
    have hclock : t.clock.nanos = s.clock.nanos := ht.clock
    refine hc.asked_daemonPlan ?_
    rw [hclock]
    exact htime
  cases hw : h with
  | unknown _ | up _ =>
    rw [← h.started] at hdown
    cases hdown
  | @failed reply _ _ _ es _ _ ht hu hc =>
    obtain ⟨error, herror, ha⟩ := hasked ht hu hc
    cases error with
    | none => cases herror
    | some error =>
      obtain rfl := Option.some.inj herror
      exact ⟨reply, es, some error, [], ha, by rw [List.append_nil], rfl, .failed error⟩
  | @restarted reply _ _ _ es pruned _ ht hu hc =>
    obtain ⟨error, herror, ha⟩ := hasked ht hu hc
    cases error with
    | none => exact ⟨reply, es, none, _, ha, rfl, rfl, .up pruned⟩
    | some error => cases herror

end Went

end fields

/-! ## Cleaning up makes no difference -/

section other

variable {ω : Type} {site other : Site ω} {settings : Settings}

theorem host_congr {ε : Type} {call : Host.Call} (h : other.host call = site.host call) :
    (Hook.host other call : Hook ω ε call.Reply) = Hook.host site call := by
  funext s
  rw [Hook.host, Hook.host, h]

variable (h : ∀ call, call ≠ .pruneContainers → other.host call = site.host call)

include h

theorem daemonStatus_congr : daemonStatus other settings = daemonStatus site settings := by
  rw [daemonStatus, daemonStatus, host_congr (h (.queryStatus _) nofun)]

theorem startDaemon_congr (address : Net.Address) :
    startDaemon other settings address = startDaemon site settings address := by
  have hrunning : isRunning other settings = isRunning site settings := by
    rw [isRunning, isRunning, daemonStatus_congr h]
  rw [startDaemon, startDaemon, writeUnit, writeUnit, hrunning, host_congr (h (.writeFile ..) nofun),
    host_congr (h .reloadSupervisor nofun), host_congr (h (.enableUnit _) nofun),
    host_congr (h (.restartUnit _) nofun)]

/-- Two hosts that differ in how they clean up see the same pass. -/
theorem reconcile_regardless (settings : Settings) (address : Option Net.Address) (s : Session ω) :
    (reconcile other settings address s).1 = (reconcile site settings address s).1 ∧
      hostCalls (reconcile other settings address s).2.trace =
        hostCalls (reconcile site settings address s).2.trace ∧
      (reconcile other settings address s).2.clock =
        (reconcile site settings address s).2.clock := by
  cases address with
  | none => exact ⟨rfl, rfl, rfl⟩
  | some address =>
    rw [run_reconcile, run_reconcile, daemonStatus_congr h, startDaemon_congr h]
    rcases daemonStatus site settings s with ⟨halt | ⟨_ | _, text⟩, t⟩
    · exact ⟨rfl, rfl, rfl⟩
    · dsimp only
      rw [if_neg nofun, if_neg nofun]
      rcases startDaemon site settings address (alerted t) with ⟨halt | _, u⟩
      · exact ⟨rfl, rfl, rfl⟩
      · obtain ⟨pruned, v, hv, hclean⟩ := run_cleanUp site u
        obtain ⟨pruned', v', hv', hclean'⟩ := run_cleanUp other u
        dsimp only
        rw [hclean, hclean']
        refine ⟨rfl, ?_, ?_⟩
        · rw [hv.trace, hv'.trace, hostCalls, hostCalls, List.filterMap_append,
            List.filterMap_append]
          rfl
        · have hclock := hv.clock.trans hv'.clock.symm
          rcases v with ⟨_, ⟨_⟩, _, _⟩
          rcases v' with ⟨_, ⟨_⟩, _, _⟩
          exact congrArg Duration.mk hclock.symm
    · exact ⟨rfl, rfl, rfl⟩

end other

/-! ## Every pass, and all of them -/

variable {ω : Type} (site : Site ω) (settings : Settings)

theorem Pass.ran (p : Pass ω) :
    Ran site p.before (p.after site settings) (p.events site settings) := by
  cases h : p.address with
  | none =>
    obtain ⟨hr, -⟩ := ran_none site settings h
    rw [events_eq site settings hr]
    exact hr
  | some address => exact (ran_some site settings h).1

theorem Pass.trace_after (p : Pass ω) :
    (p.after site settings).trace = p.before.trace ++ p.events site settings :=
  (p.ran site settings).trace

theorem Pass.regardless (p : Pass ω) {other : Site ω}
    (h : ∀ call, call ≠ .pruneContainers → other.host call = site.host call) :
    p.ending other settings = p.ending site settings ∧
      hostCalls (p.events other settings) = hostCalls (p.events site settings) ∧
      (p.after other settings).clock = (p.after site settings).clock := by
  obtain ⟨hend, hcalls, hclock⟩ := reconcile_regardless h settings p.address p.before
  refine ⟨hend, ?_, hclock⟩
  change hostCalls (p.after other settings).trace = hostCalls (p.after site settings).trace at hcalls
  rw [trace_after, trace_after, hostCalls, hostCalls, List.filterMap_append,
    List.filterMap_append] at hcalls
  exact List.append_cancel_left hcalls

theorem Pass.orderly (p : Pass ω) : p.Orderly site settings := by
  cases h : p.address with
  | none =>
    obtain ⟨hr, hend, hstart⟩ := ran_none site settings h
    have hes := events_eq site settings hr
    exact {
      unbound := fun _ => ⟨hes, hend⟩
      queried := fun _ ha => by rw [h] at ha; cases ha
      unanswered := fun _ hf => by rw [hes] at hf; cases hf
      unclear := fun _ hf => by rw [hes] at hf; cases hf
      running := fun _ hf => by rw [hes] at hf; cases hf
      restarts := by rw [hes]; exact Nat.zero_le _
      started := by rw [hes, hstart]; rfl
      follows := fun _ ha => by rw [h] at ha; cases ha
      stopped := fun _ hs => by rw [hstart] at hs; cases hs
      unpruned := fun _ => by rw [hes]; rfl
      pruned := fun hs => by rw [hstart] at hs; cases hs
      regardless := fun _ => p.regardless site settings }
  | some address =>
    obtain ⟨hr, hw⟩ := ran_some site settings h
    exact {
      unbound := fun ha => by rw [h] at ha; cases ha
      queried := fun _ _ => hw.queried
      unanswered := fun _ => hw.unanswered
      unclear := fun _ => hw.unclear
      running := fun output hfirst hup => by
        obtain ⟨hes, hend⟩ := hw.running hfirst hup
        have hclock : (p.after site settings).clock.nanos = p.before.clock.nanos := by
          rw [hr.clock, hes]
          rfl
        exact ⟨hes, hend, Duration.mk.injEq _ _ ▸ hclock⟩
      restarts := hw.restarts_le
      started := hw.started
      follows := fun other ha hdown htime => by
        obtain rfl := Option.some.inj (h.symm.trans ha)
        exact hw.follows hdown htime
      stopped := fun _ => hw.stopped
      unpruned := hw.unpruned
      pruned := hw.pruned
      regardless := fun _ => p.regardless site settings }

/-- The passes over some addresses, each in the session that the one before it left. -/
def passes : List (Option Net.Address) → Session ω → List (Pass ω)
  | [], _ => []
  | address :: addresses, s =>
    ⟨address, s⟩ :: passes addresses (reconcile site settings address s).2

def reconcileAll (addresses : List (Option Net.Address)) (s : Session ω) : Session ω :=
  addresses.foldl (fun s address => (reconcile site settings address s).2) s

theorem trace_reconcileAll (addresses : List (Option Net.Address)) (s : Session ω) :
    (reconcileAll site settings addresses s).trace =
      s.trace ++ (passes site settings addresses s).flatMap (·.events site settings) := by
  induction addresses generalizing s with
  | nil => exact (List.append_nil _).symm
  | cons address addresses ih =>
    have hpass := Pass.trace_after site settings ⟨address, s⟩
    rw [reconcileAll, List.foldl_cons, ← reconcileAll, ih, passes, List.flatMap_cons,
      ← List.append_assoc, ← hpass]
    rfl

theorem restarts_append (es fs : List Event) :
    RelayKeeper.restarts (es ++ fs) = RelayKeeper.restarts es + RelayKeeper.restarts fs :=
  List.countP_append

/-- A restart is counted by the pass that found the daemon down. -/
theorem restarts_le_foundDown (ps : List (Pass ω)) :
    RelayKeeper.restarts (ps.flatMap (·.events site settings)) ≤
      ps.countP fun p => foundDown (p.events site settings) := by
  induction ps with
  | nil => exact Nat.le_refl 0
  | cons p ps ih =>
    have hpass := (p.orderly site settings).restarts
    rw [List.flatMap_cons, restarts_append, List.countP_cons]
    omega

/-- However the host answers in passes over any addresses, every pass is orderly, and the daemon is
restarted no more often than it was found down. -/
theorem reconciliation_orderly (addresses : List (Option Net.Address)) (s : Session ω) :
    (passes site settings addresses s).map (·.address) = addresses ∧
      (reconcileAll site settings addresses s).trace =
        s.trace ++ (passes site settings addresses s).flatMap (·.events site settings) ∧
      restarts ((reconcileAll site settings addresses s).trace.drop s.trace.length) ≤
        (passes site settings addresses s).countP (fun p => foundDown (p.events site settings)) ∧
      ∀ p ∈ passes site settings addresses s, p.Orderly site settings := by
  have htrace := trace_reconcileAll site settings addresses s
  refine ⟨?_, htrace, ?_, fun p _ => p.orderly site settings⟩
  · clear htrace
    induction addresses generalizing s with
    | nil => rfl
    | cons address addresses ih => exact congrArg (address :: ·) (ih _)
  · rw [htrace, List.drop_left]
    exact restarts_le_foundDown site settings _

end Relay

end RelayKeeper
