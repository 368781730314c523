import RelayKeeper.Machine.Ground
import RelayKeeper.Proofs.RelayPlans
import RelayKeeper.Rehearsal.Worktree

/-! # Installing follows its plan

What an installation asks of the host is its plan, up to the first call that fails; the failure tells
which call that was. If no call fails the port is opened and the unit becomes active. -/
namespace RelayKeeper.Hooks

open Relay

variable {ω ε : Type} {site : Site ω} {settings : Settings}

/-- The steps of a plan were done in order. The record takes what is noted; the host is asked up to
the first call that fails, and waiting fails if it is in vain or the unit cannot be asked about. -/
inductive Asked : List (Step ε) → List Event → Option ε → Prop where
  | done : Asked [] [] none
  | failed {call failure steps error} (reply : call.Reply) : failure reply = some error →
      Asked (.ask call failure :: steps) [.host call reply] (some error)
  | passed {call failure steps es error} (reply : call.Reply) : failure reply = none →
      Asked steps es error → Asked (.ask call failure :: steps) (.host call reply :: es) error
  | noted {call failure steps es error} (reply : call.Reply) : failure reply = none →
      Asked steps es error → Asked (.note call failure :: steps) (.record call reply :: es) error
  | inVain {settings : Settings} {failure steps es error} :
      Polled settings settings.startupTimeout.nanos es (some error) →
      Asked (.wait settings failure :: steps) es (some (failure error))
  | met {settings : Settings} {failure steps es fs error} :
      Polled settings settings.startupTimeout.nanos es none → Asked steps fs error →
      Asked (.wait settings failure :: steps) (es ++ fs) error

def Event.isRecord : Event → Bool
  | .record .. => true
  | _ => false

def outside (es : List Event) : List Event :=
  es.filter (!Event.isRecord ·)

theorem outside_append (es fs : List Event) : outside (es ++ fs) = outside es ++ outside fs :=
  List.filter_append ..

def Step.isNote : Step ε → Bool
  | .note .. => true
  | _ => false

def Event.isTaken : Event → Bool
  | .record (.setStatus _) reply => reply.isOk
  | .record (.openPort _) reply => reply.isOk
  | _ => true

/-- The record took every status and every port that it was told. -/
def Records (es : List Event) : Prop :=
  ∀ e ∈ es, Event.isTaken e = true

namespace Records

variable {es : List Event}

theorem setStatus (h : Records es) {status : Record.Status} {reply : Except Record.StoreError Unit}
    (he : .record (.setStatus status) reply ∈ es) : reply = .ok () := by
  have htaken : reply.isOk = true := h _ he
  cases reply with
  | error error => cases htaken
  | ok _ => rfl

theorem openPort (h : Records es) {port : UInt16} {reply : Except Record.StoreError Unit}
    (he : .record (.openPort port) reply ∈ es) : reply = .ok () := by
  have htaken : reply.isOk = true := h _ he
  cases reply with
  | error error => cases htaken
  | ok _ => rfl

end Records

/-- The plan asks and notes, and waits at most at its end, when the clock still can show the
deadline. -/
def Timely : List (Step ε) → Nat → Prop
  | [], _ => True
  | .ask .. :: steps, clock => Timely steps clock
  | .note .. :: steps, clock => Timely steps clock
  | .wait settings _ :: steps, clock => steps = [] ∧
    clock + settings.startupTimeout.nanos < (Duration.ofSeconds Hook.clockRange).nanos
  | .tell .. :: _, _ => False

namespace Asked

variable {plan : List (Step ε)} {es : List Event} {error : Option ε}

theorem polled_outside {left : Nat} {error : Option DaemonError}
    (h : Polled settings left es error) :
    outside es = es := by
  induction h with
  | failed _ | met _ | inVain _ _ => rfl
  | again _ _ _ ih => exact congrArg (fun es => _ :: _ :: es) ih

/-- Without what the record is told, the plan is done all the same. -/
theorem of_outside (h : Asked plan es error) :
    Asked (plan.filter (!Step.isNote ·)) (outside es) error := by
  induction h with
  | done => exact .done
  | failed reply hf => exact .failed reply hf
  | passed reply hf _ ih => exact .passed reply hf ih
  | noted reply hf _ ih => exact ih
  | inVain hp =>
    rw [polled_outside hp]
    exact .inVain hp
  | met hp _ ih =>
    rw [outside_append, polled_outside hp]
    exact .met hp ih

end Asked

/-- A step that stops a plan fails. -/
theorem asked_of_failed {step : Step ε} {steps : List (Step ε)} {s : Session ω} {es : List Event}
    {stop : Halt ε} (hg : step.Goes site s es (some stop))
    (hnotes : ∀ call failure reply, step = .note call failure → .record call reply ∈ es →
      failure reply = none)
    (htime : Timely (step :: steps) s.clock.nanos) :
    ∃ error, stop = .failed error ∧ Asked (step :: steps) es (some error) := by
  generalize hsome : some stop = halt at hg
  cases hg with
  | @ask call failure reply =>
    cases hf : failure reply with
    | none =>
      rw [hf] at hsome
      cases hsome
    | some error =>
      rw [hf] at hsome
      exact ⟨error, Option.some.inj hsome, .failed reply hf⟩
  | @note call failure reply =>
    rw [hnotes call failure reply rfl (by simp)] at hsome
    cases hsome
  | abandon hc => exact absurd htime.2 (Nat.not_lt.mpr hc)
  | @wait settings failure es error hc hp =>
    cases error with
    | none => cases hsome
    | some error => exact ⟨failure error, Option.some.inj hsome, .inVain hp⟩
  | tell _ => cases hsome

/-- A plan that is cut is done, if the record takes what is noted and there is time to wait. -/
theorem Cut.asked {plan : List (Step ε)} {s : Session ω} {es : List Event}
    {halt : Option (Halt ε)} (h : Cut site plan s es halt)
    (hnotes : ∀ call failure reply, .note call failure ∈ plan → .record call reply ∈ es →
      failure reply = none)
    (htime : Timely plan s.clock.nanos) :
    ∃ error, halt = error.map .failed ∧ Asked plan es error := by
  -- Until the wait, which comes last, the clock stands still, so that there is time for it.
  induction h with
  | done => exact ⟨none, rfl, .done⟩
  | @failed step steps s es stop hg =>
    have hnote : ∀ call failure reply, step = .note call failure → .record call reply ∈ es →
        failure reply = none := by
      rintro call failure reply rfl he
      exact hnotes call failure reply (by simp) he
    obtain ⟨error, rfl, hasked⟩ := asked_of_failed hg hnote htime
    exact ⟨some error, rfl, hasked⟩
  | @passed step steps s u es fs halt hg hu hc ih =>
    have hrest := ih fun call failure reply hm he =>
      hnotes call failure reply (List.mem_cons_of_mem _ hm) (List.mem_append_right _ he)
    have hclock := hu.clock
    generalize hnone : (none : Option (Halt ε)) = stop at hg
    cases hg with
    | @ask call failure reply =>
      have hf : failure reply = none := by
        cases hf : failure reply with
        | none => rfl
        | some error =>
          rw [hf] at hnone
          cases hnone
      obtain ⟨error, heq, hasked⟩ := hrest (hclock ▸ htime)
      exact ⟨error, heq, .passed reply hf hasked⟩
    | @note call failure reply =>
      have hf : failure reply = none := hnotes call failure reply (by simp) (by simp)
      obtain ⟨error, heq, hasked⟩ := hrest (hclock ▸ htime)
      exact ⟨error, heq, .noted reply hf hasked⟩
    | abandon _ => cases hnone
    | @wait settings failure es error hc hp =>
      obtain rfl := htime.1
      cases error with
      | none =>
        obtain ⟨error, heq, hasked⟩ := hrest trivial
        exact ⟨error, heq, .met hp hasked⟩
      | some error => cases hnone
    | tell _ => exact htime.elim

/-! ## The installation -/

def hostPlan (settings : Settings) (address : Net.Address) (proxy : Option Provision.ProxyConfig) :
    List (Step HookError) :=
  (dependencyPlan settings proxy).map (Step.map .dependencies) ++
    ((keyPlan settings address).map (Step.map .keys) ++
    (daemonPlan settings address).map (Step.map .daemon))

/-- An installation stops at the failure of its plan. If there is none, the port is opened, the
consumers are told, and the unit becomes active. -/
inductive Installs (settings : Settings) (address : Net.Address)
    (proxy : Option Provision.ProxyConfig) :
    List Event → Except (Halt HookError) Outcome → Prop where
  | stopped {es error} : Asked (provisionPlan settings address proxy) es (some error) →
      Installs settings address proxy es (.error (.failed error))
  | completed {es told files} : Asked (provisionPlan settings address proxy) es none →
      Told settings address files told →
      Installs settings address proxy
        (es ++ .record (.openPort settings.port) (.ok ()) ::
          (told ++ [.record (.setStatus .active) (.ok ())])) (.ok .completed)

def failureOf : Except (Halt HookError) Outcome → Option HookError
  | .error (.failed error) => some error
  | _ => none

theorem filter_of_onlyAsks {plan : List (Step ε)} (h : OnlyAsks plan) :
    plan.filter (!Step.isNote ·) = plan := by
  refine List.filter_eq_self.mpr fun step hstep => ?_
  cases step with
  | note call failure => exact absurd hstep h.not_note
  | ask _ _ | wait _ _ | tell _ _ => rfl

/-- Without what the record is told, provisioning is what the host is asked. -/
theorem filter_provisionPlan (settings : Settings) (address : Net.Address)
    (proxy : Option Provision.ProxyConfig) :
    (provisionPlan settings address proxy).filter (!Step.isNote ·) =
      hostPlan settings address proxy := by
  have hdependencies := filter_of_onlyAsks
    ((onlyAsks_dependencyPlan settings proxy).map (f := HookError.dependencies))
  have hkeys := filter_of_onlyAsks ((onlyAsks_keyPlan settings address).map (f := HookError.keys))
  have hdaemon : ((daemonPlan settings address).map (Step.map HookError.daemon)).filter
      (!Step.isNote ·) = (daemonPlan settings address).map (Step.map HookError.daemon) := rfl
  simp only [provisionPlan, List.filter_append, hdependencies, hkeys, hdaemon]
  rfl

theorem timely_append {plan more : List (Step ε)} {clock : Nat} (h : OnlyAsks plan)
    (k : Timely more clock) : Timely (plan ++ more) clock := by
  induction plan with
  | nil => exact k
  | cons step plan ih =>
    have hstep := h step (by simp)
    cases step with
    | ask _ _ => exact ih fun other ho => h other (List.mem_cons_of_mem _ ho)
    | note _ _ | wait _ _ | tell _ _ => exact hstep.elim

/-- A start that has time to wait does its plan, and is not abandoned. -/
theorem Cut.asked_daemonPlan {address : Net.Address} {s : Session ω} {es : List Event}
    {halt : Option (Halt DaemonError)} (h : Cut site (daemonPlan settings address) s es halt)
    (htime : s.clock.nanos + settings.startupTimeout.nanos <
      (Duration.ofSeconds Hook.clockRange).nanos) :
    ∃ error, halt = error.map .failed ∧ Asked (daemonPlan settings address) es error := by
  refine h.asked ?_ (timely_append (onlyAsks_daemonCalls settings address) ⟨rfl, htime⟩)
  intro call failure reply hmem
  simp [daemonPlan, daemonCalls] at hmem

theorem timely_status {status : Record.Status} {plan : List (Step HookError)} {clock : Nat}
    (h : Timely plan clock) : Timely ([statusStep status] ++ plan) clock := h

theorem timely_provisionPlan {address : Net.Address} {proxy : Option Provision.ProxyConfig}
    {clock : Nat} (h : clock + settings.startupTimeout.nanos <
      (Duration.ofSeconds Hook.clockRange).nanos) :
    Timely (provisionPlan settings address proxy) clock := by
  have hwait : Timely [Step.wait settings fun error => HookError.daemon (id error)] clock := ⟨rfl, h⟩
  have hdaemon : Timely ((daemonPlan settings address).map (Step.map HookError.daemon)) clock := by
    rw [daemonPlan, List.map_append]
    exact timely_append (onlyAsks_daemonCalls settings address).map hwait
  refine timely_status (timely_append (onlyAsks_dependencyPlan settings proxy).map ?_)
  refine timely_status (timely_append (onlyAsks_keyPlan settings address).map ?_)
  exact timely_status hdaemon

theorem notes_provisionPlan (settings : Settings) (address : Net.Address)
    (proxy : Option Provision.ProxyConfig) {es : List Event} (h : Records es) (call : Record.Call)
    (failure : call.Reply → Option HookError) (reply : call.Reply)
    (hmem : .note call failure ∈ provisionPlan settings address proxy)
    (he : .record call reply ∈ es) : failure reply = none := by
  obtain ⟨message, heq⟩ := note_of_mem_provisionPlan settings hmem
  cases heq
  rw [h.setStatus he]
  rfl

/-- A note that the record took is passed. -/
theorem Cut.noted {call : Record.Call} {failure : call.Reply → Option ε} {steps : List (Step ε)}
    {s : Session ω} {es : List Event} {halt : Option (Halt ε)}
    (h : Cut site (.note call failure :: steps) s es halt)
    (hok : ∀ reply, .record call reply ∈ es → failure reply = none) :
    ∃ reply u fs, es = .record call reply :: fs ∧ Cut site steps u fs halt := by
  rcases h.of_note with ⟨reply, error, rfl, hf, -⟩ | ⟨reply, u, fs, rfl, -, -, hc⟩
  · rw [hok reply (List.mem_singleton_self _)] at hf
    cases hf
  · exact ⟨reply, u, fs, rfl, hc⟩

/-- Opening the port, telling the consumers and becoming active does not fail if the record takes
what it is told. -/
theorem Cut.opened {address : Net.Address} {s : Session ω} {es : List Event}
    {halt : Option (Halt HookError)} (h : Records es)
    (hc : Cut site (openingPlan settings address) s es halt) :
    halt = none ∧ ∃ told files, Told settings address files told ∧
      es = .record (.openPort settings.port) (.ok ()) ::
        (told ++ [.record (.setStatus .active) (.ok ())]) := by
  have hport : ∀ reply, .record (.openPort settings.port) reply ∈ es →
      refusal HookError.record reply = none := by
    intro reply he
    rw [h.openPort he]
    rfl
  have hactive : ∀ reply, .record (.setStatus .active) reply ∈ es →
      refusal HookError.record reply = none := by
    intro reply he
    rw [h.setStatus he]
    rfl
  obtain ⟨opened, u, fs, rfl, hfs⟩ := hc.noted hport
  obtain ⟨v, told, gs, rfl, htold, -, hgs⟩ := hfs.of_tell
  have hafter : ∀ e ∈ gs, e ∈ .record (.openPort settings.port) opened :: (told ++ gs) :=
    fun e he => List.mem_cons_of_mem _ (List.mem_append_right told he)
  obtain ⟨set, x, last, rfl, hlast⟩ := hgs.noted fun reply he => hactive reply (hafter _ he)
  cases hlast with
  | done =>
    rw [h.openPort List.mem_cons_self, h.setStatus (hafter _ List.mem_cons_self)]
    exact ⟨rfl, told, _, htold, rfl⟩

theorem outside_told {address : Net.Address} {files : FileTree} {es : List Event}
    (h : Told settings address files es) : outside es = [] := by
  rcases h.announced with rfl | ⟨data, ha⟩
  · rfl
  · refine List.filter_eq_nil_iff.mpr fun e he => ?_
    rcases ha.mem he with ⟨_, rfl⟩ | ⟨_, _, rfl⟩ <;> simp [Event.isRecord]

/-- An installation that ends well is completed. -/
theorem yields_install (site : Site ω) (settings : Settings) {state : Provision.State}
    {address : Net.Address} (h : state.address = some address) :
    (install site settings state).Yields .completed := by
  unfold install
  rw [h]
  iterate 10 refine Hook.Yields.bind fun _ => ?_
  exact Hook.Yields.pure _

/-- What an installation asks of the host is its plan, cut after the first call that fails, and the
wait counts as a call; the hook fails as that call says. If none fails the installation completes. -/
theorem install_follows_plan (site : Site ω) (settings : Settings) (state : Provision.State)
    (address : Net.Address) (s : Session ω) (haddress : state.address = some address)
    (hclock : s.clock.nanos + settings.startupTimeout.nanos <
      (Duration.ofSeconds Hook.clockRange).nanos) :
    ∃ es, (install site settings state s).2.trace = s.trace ++ es ∧
      (Records es →
        Installs settings address state.proxy es (install site settings state s).1 ∧
          Asked (hostPlan settings address state.proxy) (outside es)
            (failureOf (install site settings state s).1)) := by
  obtain ⟨es, hr, hc⟩ := follows_install site settings haddress s
  refine ⟨es, hr.trace, fun hrecords => ?_⟩
  have hvalue := yields_install site settings haddress s
  generalize (install site settings state s).1 = r at hc hvalue ⊢
  have htime : Timely (provisionPlan settings address state.proxy) s.clock.nanos :=
    timely_provisionPlan hclock
  rcases hc.of_append with ⟨hc, hne⟩ | ⟨before, t, after, rfl, hbefore, ht, hafter⟩
  · obtain ⟨error, herror, hasked⟩ :=
      hc.asked (notes_provisionPlan settings address state.proxy hrecords) htime
    cases error with
    | none => exact absurd herror hne
    | some error =>
      have hstop : r = .error (.failed error) := by
        cases r with
        | ok _ => cases herror
        | error halt => exact congrArg Except.error (Option.some.inj herror)
      subst hstop
      refine ⟨.stopped hasked, ?_⟩
      rw [← filter_provisionPlan]
      exact hasked.of_outside
  · have hrecordsBefore : Records before := fun e he => hrecords e (List.mem_append_left _ he)
    have hrecordsAfter : Records after := fun e he => hrecords e (List.mem_append_right _ he)
    obtain ⟨error, herror, hasked⟩ :=
      hbefore.asked (notes_provisionPlan settings address state.proxy hrecordsBefore) htime
    obtain ⟨hnone, told, files, htold, rfl⟩ := hafter.opened hrecordsAfter
    cases error with
    | some error => cases herror
    | none =>
      cases r with
      | error halt => cases hnone
      | ok v =>
        obtain rfl := hvalue v rfl
        refine ⟨.completed hasked htold, ?_⟩
        have hquiet : outside (.record (.openPort settings.port) (.ok ()) ::
            (told ++ [.record (.setStatus .active) (.ok ())])) = [] := by
          have hsplit := outside_append told [.record (.setStatus .active) (.ok ())]
          rw [outside_told htold] at hsplit
          exact hsplit
        rw [outside_append, hquiet, List.append_nil, ← filter_provisionPlan]
        exact hasked.of_outside

def bareMachine : Machine where
  files := FileTree.empty.provide ⟨"/etc/systemd/system"⟩ none
  programs := Machine.usualPrograms

def bareInstall : Except (Halt HookError) Outcome × Session Machine :=
  install (Machine.ground.site ⟨⟨"/var/lib/tmate-operator"⟩⟩) {} { address := some (.hostname ['r']) }
    { world := bareMachine }

theorem install_follows_plan_bare :
    ∃ es, bareInstall.2.trace = [] ++ es ∧ Records es ∧
      Installs {} (.hostname ['r']) none es bareInstall.1 ∧
      Asked (hostPlan {} (.hostname ['r']) none) (outside es) (failureOf bareInstall.1) := by
  obtain ⟨es, htrace, hplan⟩ := install_follows_plan
    (Machine.ground.site ⟨⟨"/var/lib/tmate-operator"⟩⟩) {} { address := some (.hostname ['r']) }
    (.hostname ['r']) { world := bareMachine } rfl (by decide)
  have hrecords : Records es := by
    have hall : bareInstall.2.trace.all Event.isTaken = true := by decide +kernel
    have hes : bareInstall.2.trace = es := htrace
    rw [hes] at hall
    exact List.all_eq_true.mp hall
  exact ⟨es, htrace, hrecords, hplan hrecords⟩

end RelayKeeper.Hooks
