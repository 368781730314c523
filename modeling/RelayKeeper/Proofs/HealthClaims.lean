import RelayKeeper.Proofs.RelayPlans

/-! # Health that is claimed was seen

A unit that becomes active, or opens its port, says that the relay runs. Whatever the host and the
record answer, a hook says so only if its last look at the supervisor found the daemon running and it
has not restarted it since. -/
namespace RelayKeeper

/-- The call says of the unit that it runs. -/
def Record.Call.ClaimsHealth : Record.Call → Prop
  | .setStatus .active => True
  | .openPort _ => True
  | _ => False

namespace Event

def ClaimsHealth : Event → Prop
  | .record call _ => call.ClaimsHealth
  | _ => False

def TouchesUnit : Event → Prop
  | .host (.queryStatus _) _ => True
  | .host (.restartUnit _) _ => True
  | _ => False

end Event

/-- The last query found the unit running, and there was no restart after it. -/
def SeenRunning (unit : String) (es : List Event) : Prop :=
  ∃ before output after,
    es = before ++ .host (.queryStatus unit) (.ok output) :: after ∧
      output.code = some 0 ∧ ∀ e ∈ after, ¬ e.TouchesUnit

def Modest (es : List Event) : Prop := ∀ e ∈ es, ¬ e.ClaimsHealth

theorem modest_of_record {es : List Event}
    (h : ∀ call reply, .record call reply ∈ es → ¬ call.ClaimsHealth) : Modest es := by
  intro e he
  cases e with
  | record call reply => exact h call reply he
  | host _ _ | slept _ => exact id

def Calm (es : List Event) : Prop := ∀ e ∈ es, ¬ e.TouchesUnit

namespace SeenRunning

variable {unit : String} {es fs : List Event}

theorem after_any (h : SeenRunning unit es) (fs : List Event) : SeenRunning unit (fs ++ es) := by
  obtain ⟨before, output, after, rfl, hcode, hcalm⟩ := h
  exact ⟨fs ++ before, output, after, (List.append_assoc ..).symm, hcode, hcalm⟩

theorem before_calm (h : SeenRunning unit es) (hfs : Calm fs) : SeenRunning unit (es ++ fs) := by
  obtain ⟨before, output, after, rfl, hcode, hcalm⟩ := h
  refine ⟨before, output, after ++ fs, by simp, hcode, fun e he => ?_⟩
  rcases List.mem_append.mp he with he | he
  · exact hcalm e he
  · exact hfs e he

theorem backs (h : SeenRunning unit es) (hes : Modest es) (hfs : Calm fs) {before after : List Event}
    {e : Event} (hsplit : es ++ fs = before ++ e :: after) (he : e.ClaimsHealth) :
    SeenRunning unit before := by
  rcases List.append_eq_append_iff.mp hsplit with ⟨mid, rfl, hmid⟩ | ⟨mid, rfl, hmid⟩
  · refine h.before_calm fun x hx => hfs x ?_
    rw [hmid]
    exact List.mem_append_left _ hx
  · cases mid with
    | nil =>
      rw [List.append_nil] at h
      exact h
    | cons x mid =>
      obtain ⟨rfl, -⟩ := List.cons.inj hmid
      exact absurd he (hes e (by simp))

end SeenRunning

namespace Hooks

open Relay

variable {ω ε : Type} {site : Site ω} {settings : Settings} {s : Session ω} {es : List Event}

/-! ## Steps -/

theorem verdict_true {unit : String} {reply : Except Host.CommandError Host.CommandOutput}
    (h : verdict unit reply = .ok true) : ∃ output, reply = .ok output ∧ output.code = some 0 := by
  cases reply with
  | error cause => cases h
  | ok output =>
    refine ⟨output, rfl, ?_⟩
    by_cases hc : output.code = some 0
    · exact hc
    · simp only [verdict, report, DaemonStatus.of?, if_neg hc] at h
      by_cases hi : output.code = some inactiveCode
      · rw [if_pos hi] at h
        cases h
      · rw [if_neg hi] at h
        cases h

theorem Polled.seen {left : Nat} (h : Polled settings left es none) :
    SeenRunning settings.serviceName es := by
  generalize hnone : (none : Option DaemonError) = error at h
  induction h with
  | failed _ => cases hnone
  | inVain _ _ => cases hnone
  | met hv =>
    obtain ⟨output, rfl, hcode⟩ := verdict_true hv
    exact ⟨[], output, [], rfl, hcode, by simp⟩
  | again _ _ _ ih => exact (ih hnone).after_any [_, _]

theorem Announced.modest {data : Record.Bag} (h : Announced data es) : Modest es := by
  intro e he
  rcases h.mem he with ⟨_, rfl⟩ | ⟨_, _, rfl⟩ <;> exact id

theorem Announced.calm {data : Record.Bag} (h : Announced data es) : Calm es := by
  intro e he
  rcases h.mem he with ⟨_, rfl⟩ | ⟨_, _, rfl⟩ <;> exact id

inductive OfRecord : Step HookError → Prop where
  | note (call : Record.Call) (view : call.Reply → Except Record.StoreError Unit) :
      OfRecord (.note call fun reply => refusal .record (view reply))
  | tell (settings : Settings) (address : Net.Address) : OfRecord (.tell settings address)

theorem OfRecord.calm {step : Step HookError} (hstep : OfRecord step)
    {halt : Option (Halt HookError)} (h : step.Goes site s es halt) : Calm es := by
  intro e he
  cases hstep with
  | note call view =>
    cases h with
    | note reply =>
      obtain rfl := List.mem_singleton.mp he
      exact id
  | tell settings address =>
    cases h with
    | tell ht =>
      rcases ht.announced with rfl | ⟨data, ha⟩
      · cases he
      · exact ha.calm e he

theorem OfRecord.failure {step : Step HookError} (hstep : OfRecord step) {stop : Halt HookError}
    (h : step.Goes site s es (some stop)) : ∃ cause, stop = .failed (.record cause) := by
  cases hstep with
  | note call view =>
    generalize hsome : some stop = halt at h
    cases h with
    | note reply =>
      dsimp only at hsome
      cases hv : view reply with
      | ok _ =>
        rw [hv] at hsome
        cases hsome
      | error cause =>
        rw [hv] at hsome
        exact ⟨cause, Option.some.inj hsome⟩
  | tell settings address =>
    generalize hsome : some stop = halt at h
    cases h with
    | tell _ => cases hsome

/-! ## Hooks -/

theorem calm_of_record {plan : List (Step HookError)} {halt : Option (Halt HookError)}
    (h : Cut site plan s es halt) (hplan : ∀ step ∈ plan, OfRecord step) : Calm es := by
  intro e he
  obtain ⟨step, hstep, t, fs, stop, hg, hefs⟩ := h.exists_goes he
  exact (hplan step hstep).calm hg e hefs

theorem provisionPlan_modest {address : Net.Address} {proxy : Option Provision.ProxyConfig}
    {halt : Option (Halt HookError)}
    (h : Cut site (provisionPlan settings address proxy) s es halt) : Modest es := by
  refine modest_of_record fun call reply he hc => ?_
  obtain ⟨message, rfl⟩ := record_of_provisionPlan settings h he
  exact hc

theorem seen_of_last (plan : List (Step ε)) {more : List (Step ε)} {unit : String}
    (hlast : ∀ t fs, Cut site more t fs none → SeenRunning unit fs)
    (h : Cut site (plan ++ more) s es none) : SeenRunning unit es := by
  rcases h.of_append with ⟨-, hne⟩ | ⟨before, t, after, rfl, -, -, hmore⟩
  · exact absurd rfl hne
  · exact (hlast t after hmore).after_any before

theorem wait_seen {failure : DaemonError → ε} (t : Session ω) (fs : List Event)
    (h : Cut site [.wait settings failure] t fs none) : SeenRunning settings.serviceName fs := by
  cases h with
  | passed hg _ hc =>
    cases hc with
    | done =>
      rw [List.append_nil]
      generalize hnone : (none : Option (Halt ε)) = halt at hg
      cases hg with
      | abandon _ => cases hnone
      | @wait _ _ _ error _ hp =>
        cases error with
        | none => exact hp.seen
        | some error => cases hnone

theorem daemonPlan_seen {address : Net.Address} (t : Session ω) (fs : List Event)
    (h : Cut site (daemonPlan settings address) t fs none) :
    SeenRunning settings.serviceName fs :=
  seen_of_last _ wait_seen h

theorem provisionPlan_seen {address : Net.Address} {proxy : Option Provision.ProxyConfig}
    (h : Cut site (provisionPlan settings address proxy) s es none) :
    SeenRunning settings.serviceName es := by
  refine seen_of_last _ (fun t fs h => ?_) h
  refine seen_of_last _ (fun t fs h => ?_) h
  refine seen_of_last _ (fun t fs h => ?_) h
  refine seen_of_last _ (fun t fs h => ?_) h
  refine seen_of_last _ (fun t fs h => ?_) h
  exact seen_of_last ((daemonCalls settings address).map (Step.map HookError.daemon)) wait_seen h

theorem openingPlan_ofRecord (settings : Settings) (address : Net.Address) :
    ∀ step ∈ openingPlan settings address, OfRecord step := by
  intro step h
  simp only [openingPlan, List.mem_cons, List.not_mem_nil, or_false] at h
  rcases h with rfl | rfl | rfl
  · exact .note (.openPort settings.port) id
  · exact .tell settings address
  · exact .note (.setStatus .active) id

theorem updatingPlan_ofRecord (settings : Settings) (address : Net.Address) :
    ∀ step ∈ updatingPlan settings address, OfRecord step := by
  intro step h
  simp only [updatingPlan, List.mem_cons, List.not_mem_nil, or_false] at h
  rcases h with rfl | rfl
  · exact .tell settings address
  · exact .note (.setStatus .active) id

theorem Reconciles.modest {address : Net.Address} {r : Except (Halt DaemonError) Reconciled}
    (h : Reconciles site settings address s es r) : Modest es :=
  modest_of_record fun _ _ he => absurd he h.no_record

theorem Reconciles.seen {address : Net.Address} {reconciled : Reconciled}
    (h : Reconciles site settings address s es (.ok reconciled)) :
    SeenRunning settings.serviceName es := by
  cases h with
  | running hv =>
    obtain ⟨output, rfl, hcode⟩ := verdict_true hv
    exact ⟨[], output, [], rfl, hcode, by simp⟩
  | restart _ _ hc =>
    rcases hc.of_append with ⟨-, hne⟩ | ⟨before, t, after, rfl, hdaemon, -, hprune⟩
    · exact absurd rfl hne
    · have hcalm : Calm after := by
        intro e he
        obtain ⟨step, hstep, _, fs, _, hg, hefs⟩ := hprune.exists_goes he
        obtain rfl := List.mem_singleton.mp hstep
        cases hg with
        | ask reply =>
          obtain rfl := List.mem_singleton.mp hefs
          exact id
      exact ((daemonPlan_seen _ _ hdaemon).before_calm hcalm).after_any [_]

theorem Joins.modest {files : FileTree} {address? : Option Net.Address}
    {r : Except (Halt HookError) Outcome} (h : Joins settings files address? es r) : Modest es := by
  cases h with
  | told _ ha => exact ha.modest
  | unbound | unreadable _ | waiting _ => simp [Modest]

/-! ## Runs of hooks -/

structure Finished where
  settings : Settings
  trigger : Trigger
  events : List Event
  ending : Except (Halt HookError) Outcome

/-- What a finished hook says of the relay's health is backed by what it saw. -/
structure Finished.Backed (f : Finished) : Prop where
  /-- Whoever claims health has just seen the unit running. -/
  seen : ∀ before e after, f.events = before ++ e :: after → e.ClaimsHealth →
    SeenRunning f.settings.serviceName before
  /-- Only an installation opens a port, and only that of the settings. -/
  port : ∀ port reply, .record (.openPort port) reply ∈ f.events →
    port = f.settings.port ∧ ∃ state, f.trigger = .install state
  /-- A hook that fails, but for its record, has claimed nothing. -/
  modest : ∀ error, f.ending = .error (.failed error) → (∀ cause, error ≠ .record cause) →
    Modest f.events

theorem Finished.Backed.of_modest {f : Finished} (h : Modest f.events) : f.Backed where
  seen before e after hsplit hc := by
    refine absurd hc (h e ?_)
    rw [hsplit]
    simp
  port port reply he := absurd (show (Event.record (.openPort port) reply).ClaimsHealth from trivial)
    (h _ he)
  modest _ _ _ := h

/-- After the unit was seen running, steps of the record are backed, whatever they claim. -/
theorem Finished.Backed.of_seen {f : Finished} {before after : List Event} {t : Session ω}
    {plan : List (Step HookError)} {halt : Option (Halt HookError)}
    (hevents : f.events = before ++ after) (hseen : SeenRunning f.settings.serviceName before)
    (hmodest : Modest before) (hplan : ∀ step ∈ plan, OfRecord step)
    (hcut : Cut site plan t after halt) (hending : haltOf f.ending = halt)
    (hport : ∀ port failure, .note (.openPort port) failure ∈ plan →
      port = f.settings.port ∧ ∃ state, f.trigger = .install state) : f.Backed where
  seen pre e post hsplit hc :=
    hseen.backs hmodest (calm_of_record hcut hplan) (hevents ▸ hsplit) hc
  port port reply he := by
    rw [hevents] at he
    rcases List.mem_append.mp he with he | he
    · exact absurd trivial (hmodest _ he)
    · obtain ⟨step, hstep, _, _, _, hg, hefs⟩ := hcut.exists_goes he
      rcases hg.of_record hefs with ⟨failure, rfl⟩ | ⟨_, _, -, data, ha⟩
      · exact hport port failure hstep
      · exact absurd trivial (ha.modest _ hefs)
  modest error herror hother := by
    rw [herror] at hending
    rw [← hending] at hcut
    obtain ⟨step, hstep, _, _, hg⟩ := hcut.exists_failed
    obtain ⟨cause, hcause⟩ := (hplan step hstep).failure hg
    injection hcause with hcause
    exact absurd hcause (hother cause)

/-- Hooks ran one after the other, each with its own settings and its own trace. Between them
anything may happen to the world. -/
inductive History (site : Site ω) : List Finished → ω → Prop where
  | start (w : ω) : History site [] w
  | change {done : List Finished} {v : ω} (w : ω) : History site done v → History site done w
  | hook {done : List Finished} {s : Session ω} (settings : Settings) (trigger : Trigger) :
      History site done s.world → s.trace = [] →
      History site (done ++ [⟨settings, trigger, (trigger.hook site settings s).2.trace,
        (trigger.hook site settings s).1⟩]) (trigger.hook site settings s).2.world

theorem backed_install (settings : Settings) (state : Provision.State) {s : Session ω}
    (hs : s.trace = []) : Finished.Backed ⟨settings, .install state,
      (install site settings state s).2.trace, (install site settings state s).1⟩ := by
  cases haddress : state.address with
  | none =>
    obtain ⟨es, hr, rfl, -⟩ := makes_install_unbound site settings haddress s
    apply Finished.Backed.of_modest
    rw [hr.trace, hs]
    simp [Modest]
  | some address =>
    obtain ⟨es, hr, hc⟩ := follows_install site settings haddress s
    have htrace : (install site settings state s).2.trace = es := by
      rw [hr.trace, hs, List.nil_append]
    rw [htrace]
    rcases hc.of_append with ⟨hc, -⟩ | ⟨before, t, after, rfl, hbefore, -, hafter⟩
    · exact .of_modest (provisionPlan_modest hc)
    · refine .of_seen rfl (provisionPlan_seen hbefore) (provisionPlan_modest hbefore)
        (openingPlan_ofRecord settings address) hafter rfl ?_
      intro port failure hmem
      simp only [openingPlan, List.mem_cons, List.not_mem_nil, or_false] at hmem
      rcases hmem with hmem | hmem | hmem
      · injection hmem with hcall
        injection hcall with hport
        exact ⟨hport, state, rfl⟩
      · cases hmem
      · cases hmem

theorem backed_updateStatus (settings : Settings) (state : Provision.State) {s : Session ω}
    (hs : s.trace = []) : Finished.Backed ⟨settings, .updateStatus state,
      (updateStatus site settings state s).2.trace, (updateStatus site settings state s).1⟩ := by
  obtain ⟨es, hr, hu⟩ := makes_updateStatus site settings state s
  have htrace : (updateStatus site settings state s).2.trace = es := by
    rw [hr.trace, hs, List.nil_append]
  rw [htrace]
  generalize haddress : state.address = address? at hu
  generalize hhalt : haltOf (updateStatus site settings state s).1 = halt at hu
  cases hu with
  | waiting hc =>
    refine .of_modest (modest_of_record fun call reply he => ?_)
    obtain ⟨failure, hmem⟩ := hc.of_record he (by simp [statusStep])
    cases List.mem_singleton.mp hmem
    exact id
  | unreconciled hrec => exact .of_modest hrec.modest
  | @reconciled address t _ _ _ _ hrec _ hc =>
    refine .of_seen rfl hrec.seen hrec.modest (updatingPlan_ofRecord settings address) hc hhalt ?_
    intro port failure hmem
    simp [updatingPlan, statusStep] at hmem

theorem backed_consumerJoined (settings : Settings) (state : Provision.State) {s : Session ω}
    (hs : s.trace = []) : Finished.Backed ⟨settings, .consumerJoined state,
      (consumerJoined site settings state s).2.trace,
      (consumerJoined site settings state s).1⟩ := by
  obtain ⟨es, hr, hj⟩ := makes_consumerJoined site settings state s
  apply Finished.Backed.of_modest
  rw [hr.trace, hs, List.nil_append]
  exact hj.modest

theorem health_claims_backed (site : Site ω) {done : List Finished} {w : ω}
    (h : History site done w) : ∀ f ∈ done, f.Backed := by
  induction h with
  | start w => simp
  | change w _ ih => exact ih
  | hook settings trigger _ hs ih =>
    intro f hf
    rcases List.mem_append.mp hf with hf | hf
    · exact ih f hf
    · obtain rfl := List.mem_singleton.mp hf
      cases trigger with
      | install state => exact backed_install settings state hs
      | updateStatus state => exact backed_updateStatus settings state hs
      | consumerJoined state => exact backed_consumerJoined settings state hs

theorem health_claims_backed_quiet :
    ∃ f w, History quietSite [f] w ∧
      f.events.getLast? = some (.record (.setStatus .active) (.ok ())) ∧ f.Backed := by
  have hstart : History quietSite [] () := .start ()
  have h := History.hook (s := { world := () }) {}
    (.updateStatus { address := some (.hostname ['r']) }) hstart rfl
  refine ⟨_, _, h, ?_, health_claims_backed quietSite h _ (by simp)⟩
  rfl

end Hooks

end RelayKeeper
