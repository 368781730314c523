import RelayKeeper.Proofs.HandingOut
import RelayKeeper.Proofs.StatusQueries

/-! # Writing the unit file

The unit file names the address that it was rendered for. It is written when the daemon is started
and at no other time: nothing else that a hook writes is a unit, whatever the paths are. -/
namespace RelayKeeper

/-! ## Documents -/

namespace Document

theorem head?_ofLines {line : String} {c : Char} (h : line.toList.head? = some c)
    (lines : List String) : (ofLines (line :: lines)).toList.head? = some c := by
  rw [toList_ofLines, List.head?_append, h]
  rfl

theorem ServiceUnit.head?_render (d : ServiceUnit) : d.render.toList.head? = some '[' :=
  head?_ofLines rfl _

theorem head?_runtimeProxy (proxy : Provision.ProxyConfig) :
    (runtimeProxy proxy).toList.head? = some '\x7b' := by
  rw [runtimeProxy, String.toList_ofList]
  rfl

end Document

namespace Hooks

open Relay

variable {ω ε δ : Type} {site : Site ω} {settings : Settings} {s : Session ω} {es fs : List Event}
  {address other : Net.Address}

/-! ## Rendering the unit file -/

/-- The unit file tells for which address it was rendered, up to how the address is written. -/
theorem render_serviceUnit_inj :
    (serviceUnit settings address).render = (serviceUnit settings other).render ↔
      address.text = other.text := by
  constructor
  · intro h
    simpa [serviceUnit, Document.ServiceUnit.render, Document.ServiceUnit.lines, Document.ofLines,
      String.join_cons, String.append_assoc] using h
  · intro h
    rw [serviceUnit, serviceUnit, h]

abbrev unitWrite (settings : Settings) (address : Net.Address) : Host.Call :=
  .writeFile settings.unitPath (serviceUnit settings address).render unitFileMode

def RendersUnit (settings : Settings) (address : Net.Address) (e : Event) : Prop :=
  e = .host (unitWrite settings address) (.ok ())

def Unrendered (settings : Settings) (es : List Event) : Prop :=
  ∀ e ∈ es, ∀ address, ¬ RendersUnit settings address e

/-- The unit file was written for an address, and not again after that. -/
def LastRendered (settings : Settings) (es : List Event) (address : Net.Address) : Prop :=
  ∃ before e after, es = before ++ e :: after ∧ RendersUnit settings address e ∧
    Unrendered settings after

theorem RendersUnit.text_eq {e : Event} (h : RendersUnit settings address e)
    (k : RendersUnit settings other e) : address.text = other.text := by
  have heq : Event.host (unitWrite settings address) (.ok ()) =
      .host (unitWrite settings other) (.ok ()) := h.symm.trans k
  injection heq with hcall
  exact render_serviceUnit_inj.mp (Host.Call.writeFile.inj hcall).2.1

theorem Unrendered.append (h : Unrendered settings es) (k : Unrendered settings fs) :
    Unrendered settings (es ++ fs) := by
  intro e he
  rcases List.mem_append.mp he with he | he
  · exact h e he
  · exact k e he

namespace LastRendered

theorem not_unrendered (h : LastRendered settings es address) : ¬ Unrendered settings es := by
  intro hunrendered
  obtain ⟨before, e, after, rfl, he, -⟩ := h
  exact hunrendered e (by simp) address he

theorem after_any (h : LastRendered settings es address) (fs : List Event) :
    LastRendered settings (fs ++ es) address := by
  obtain ⟨before, e, after, rfl, he, hafter⟩ := h
  exact ⟨fs ++ before, e, after, (List.append_assoc ..).symm, he, hafter⟩

theorem before_unrendered (h : LastRendered settings es address) (hfs : Unrendered settings fs) :
    LastRendered settings (es ++ fs) address := by
  obtain ⟨before, e, after, rfl, he, hafter⟩ := h
  exact ⟨before, e, after ++ fs, by simp, he, hafter.append hfs⟩

theorem of_text_eq (h : LastRendered settings es address) (heq : other.text = address.text) :
    LastRendered settings es other := by
  obtain ⟨before, e, after, hes, he, hafter⟩ := h
  refine ⟨before, e, after, hes, ?_, hafter⟩
  unfold RendersUnit unitWrite
  rw [render_serviceUnit_inj.mpr heq]
  exact he

/-- The event that renders last is the last one of any two that render. -/
theorem eq_of_split {before after pre post : List Event} {e d : Event}
    (hsplit : before ++ e :: after = pre ++ d :: post) (he : RendersUnit settings address e)
    (hafter : Unrendered settings after) (hd : RendersUnit settings other d)
    (hpost : Unrendered settings post) : e = d := by
  -- of two splits at different events the earlier event has the later one behind it
  rcases List.append_eq_append_iff.mp hsplit with ⟨mid, -, hmid⟩ | ⟨mid, -, hmid⟩
  · cases mid with
    | nil => exact (List.cons.inj hmid).1
    | cons x mid =>
      obtain ⟨-, rfl⟩ := List.cons.inj hmid
      exact absurd hd (hafter d (by simp) other)
  · cases mid with
    | nil => exact (List.cons.inj hmid).1.symm
    | cons x mid =>
      obtain ⟨-, rfl⟩ := List.cons.inj hmid
      exact absurd he (hpost e (by simp) address)

theorem text_eq (h : LastRendered settings es address) (k : LastRendered settings es other) :
    address.text = other.text := by
  obtain ⟨before, e, after, rfl, he, hafter⟩ := h
  obtain ⟨pre, d, post, hsplit, hd, hpost⟩ := k
  obtain rfl := eq_of_split hsplit he hafter hd hpost
  exact he.text_eq hd

end LastRendered

/-! ## Steps -/

def Step.LeavesUnit (settings : Settings) (step : Step ε) : Prop :=
  ∀ address, step.asks (fun call => call = unitWrite settings address) = false

theorem Step.LeavesUnit.map {step : Step δ} (h : step.LeavesUnit settings) (f : δ → ε) :
    (step.map f).LeavesUnit settings := by
  intro address
  have hstep := h address
  cases step with
  | ask call failure => exact hstep
  | note _ _ | wait _ _ | tell _ _ => rfl

theorem leavesUnit_map {plan : List (Step δ)} (h : ∀ step ∈ plan, step.LeavesUnit settings)
    (f : δ → ε) : ∀ step ∈ plan.map (Step.map f), step.LeavesUnit settings := by
  intro step hstep
  obtain ⟨part, hpart, rfl⟩ := List.mem_map.mp hstep
  exact (h part hpart).map f

theorem leavesUnit_ask {call : Host.Call} {failure : call.Reply → Option ε}
    (h : ∀ address, call ≠ unitWrite settings address) :
    (Step.ask call failure).LeavesUnit settings :=
  fun address => decide_eq_false (h address)

def writesFile : Host.Call → Bool
  | .writeFile .. => true
  | _ => false

theorem leavesUnit_of_not_writesFile {call : Host.Call} {failure : call.Reply → Option ε}
    (h : writesFile call = false) : (Step.ask call failure).LeavesUnit settings := by
  apply leavesUnit_ask
  rintro address rfl
  cases h

theorem unrendered_of_countP
    (h : ∀ address, es.countP (Event.asks fun call => call = unitWrite settings address) = 0) :
    Unrendered settings es := by
  rintro e he address rfl
  have hnone := List.countP_eq_zero.mp (h address) _ he
  simp [Event.asks] at hnone

theorem Cut.unrendered {plan : List (Step ε)} {halt : Option (Halt ε)}
    (h : Cut site plan s es halt) (hplan : ∀ step ∈ plan, step.LeavesUnit settings) :
    Unrendered settings es := by
  apply unrendered_of_countP
  intro address
  have hle := h.countP_asks (f := fun call => call = unitWrite settings address) (by simp)
  have hzero : plan.countP (Step.asks fun call => call = unitWrite settings address) = 0 := by
    rw [List.countP_eq_zero]
    intro step hstep
    simp [hplan step hstep address]
  omega

theorem unrendered_of_query (unit : String) (reply : Except Host.CommandError Host.CommandOutput) :
    Unrendered settings [.host (.queryStatus unit) reply] := by
  apply unrendered_of_countP
  intro address
  rfl

/-- A write that is refused is none. -/
theorem unrendered_of_refused (address : Net.Address) (cause : Fault) :
    Unrendered settings [.host (unitWrite settings address) (.error cause)] := by
  intro e he other hr
  obtain rfl := List.mem_singleton.mp he
  injection hr with _ hreply
  cases hreply

theorem unrendered_of_record (h : ∀ e ∈ es, Event.isRecord e = true) : Unrendered settings es := by
  rintro e he address rfl
  exact absurd (h _ he) Bool.false_ne_true

theorem foundDown_of_record (h : ∀ e ∈ es, Event.isRecord e = true) : foundDown es ≠ true := by
  cases es with
  | nil => exact Bool.false_ne_true
  | cons e es =>
    cases e with
    | record call reply => exact Bool.false_ne_true
    | host _ _ | slept _ => exact absurd (h _ List.mem_cons_self) Bool.false_ne_true

/-- A plan that begins with the unit file stops there, or has written it for its address. -/
theorem Cut.renders {failure : Except Fault Unit → Option ε} {steps : List (Step ε)}
    {halt : Option (Halt ε)}
    (h : Cut site (.ask (unitWrite settings address) failure :: steps) s es halt)
    (hfailure : ∀ reply, failure reply = none ↔ reply = .ok ())
    (hsteps : ∀ step ∈ steps, step.LeavesUnit settings) :
    (Unrendered settings es ∧ halt ≠ none) ∨ LastRendered settings es address := by
  cases h with
  | failed hg =>
    obtain ⟨reply, rfl, hstop⟩ := hg.of_ask
    cases reply with
    | error cause => exact .inl ⟨unrendered_of_refused address cause, by simp⟩
    | ok _ =>
      rw [(hfailure _).mpr rfl] at hstop
      cases hstop
  | passed hg _ hc =>
    obtain ⟨reply, rfl, hnone⟩ := hg.of_ask
    rw [(hfailure reply).mp (Option.map_eq_none_iff.mp hnone.symm)]
    exact .inr ⟨[], _, _, rfl, rfl, hc.unrendered hsteps⟩

/-! ## Plans -/

/-- A proxy configuration is an object, and no unit file begins as an object does. -/
theorem proxyWrite_ne_unitWrite (path : Path) (proxy : Provision.ProxyConfig) (mode : Nat) :
    Host.Call.writeFile path (Document.runtimeProxy proxy) mode ≠ unitWrite settings address := by
  intro h
  obtain ⟨-, hcontents, -⟩ := Host.Call.writeFile.inj h
  have hhead := Document.head?_runtimeProxy proxy
  rw [hcontents, Document.ServiceUnit.head?_render] at hhead
  exact absurd hhead (by decide)

theorem scriptWrite_ne_unitWrite (path : Path) (contents : String) :
    Host.Call.writeFile path contents scriptMode ≠ unitWrite settings address := by
  intro h
  exact absurd (Host.Call.writeFile.inj h).2.2 (by decide)

theorem leavesUnit_dependencyPlan (proxy : Option Provision.ProxyConfig) :
    ∀ step ∈ dependencyPlan settings proxy, step.LeavesUnit settings := by
  intro step hstep
  cases dependencyStep_of_mem settings hstep with
  | proxies proxy =>
    apply leavesUnit_ask
    intro address
    exact proxyWrite_ne_unitWrite _ proxy _
  | refresh | directory _ | package _ | group | member => exact leavesUnit_of_not_writesFile rfl

theorem leavesUnit_keyPlan (address : Net.Address) :
    ∀ step ∈ keyPlan settings address, step.LeavesUnit settings := by
  intro step hstep
  cases keyStep_of_mem settings hstep with
  | script =>
    apply leavesUnit_ask
    intro other
    exact scriptWrite_ne_unitWrite _ _
  | directory _ | owner | run => exact leavesUnit_of_not_writesFile rfl

def preparingPlan (settings : Settings) (address : Net.Address)
    (proxy : Option Provision.ProxyConfig) : List (Step HookError) :=
  [statusStep (.maintenance "Installing packages.")] ++
    ((dependencyPlan settings proxy).map (Step.map .dependencies) ++
    ([statusStep (.maintenance "Generating keys.")] ++
    ((keyPlan settings address).map (Step.map .keys) ++
    [statusStep (.maintenance "Starting tmate-ssh-server daemon.")])))

theorem provisionPlan_eq (settings : Settings) (address : Net.Address)
    (proxy : Option Provision.ProxyConfig) : provisionPlan settings address proxy =
      preparingPlan settings address proxy ++
        (daemonPlan settings address).map (Step.map .daemon) := by
  simp [provisionPlan, preparingPlan]

theorem leavesUnit_preparingPlan (address : Net.Address) (proxy : Option Provision.ProxyConfig) :
    ∀ step ∈ preparingPlan settings address proxy, step.LeavesUnit settings := by
  intro step hstep
  simp only [preparingPlan, List.mem_append, List.mem_singleton] at hstep
  rcases hstep with rfl | hstep | rfl | hstep | rfl
  · exact fun _ => rfl
  · exact leavesUnit_map (leavesUnit_dependencyPlan proxy) _ step hstep
  · exact fun _ => rfl
  · exact leavesUnit_map (leavesUnit_keyPlan address) _ step hstep
  · exact fun _ => rfl

/-- After the unit file is written, starting the daemon leaves it alone. -/
theorem leavesUnit_daemonPlan (address : Net.Address) :
    ∀ step ∈ (daemonPlan settings address).tail, step.LeavesUnit settings := by
  intro step hstep
  simp only [daemonPlan, daemonCalls, List.cons_append, List.nil_append, List.tail_cons,
    List.mem_cons, List.not_mem_nil, or_false] at hstep
  rcases hstep with rfl | rfl | rfl | rfl
  · exact leavesUnit_of_not_writesFile rfl
  · exact leavesUnit_of_not_writesFile rfl
  · exact leavesUnit_of_not_writesFile rfl
  · exact fun _ => rfl

theorem leavesUnit_openingPlan (address : Net.Address) :
    ∀ step ∈ openingPlan settings address, step.LeavesUnit settings := by
  intro step hstep
  simp only [openingPlan, List.mem_cons, List.not_mem_nil, or_false] at hstep
  rcases hstep with rfl | rfl | rfl <;> exact fun _ => rfl

theorem leavesUnit_updatingPlan (address : Net.Address) :
    ∀ step ∈ updatingPlan settings address, step.LeavesUnit settings := by
  intro step hstep
  exact leavesUnit_openingPlan address step (List.mem_cons_of_mem _ hstep)

theorem refusal_eq_none {f : δ → ε} {reply : Except δ Unit} :
    refusal f reply = none ↔ reply = .ok () := by
  cases reply <;> simp [refusal]

/-! ## Starting the daemon -/

/-- Provisioning that is not stopped has written the unit file. -/
theorem Cut.provisions {proxy : Option Provision.ProxyConfig} {halt : Option (Halt HookError)}
    (h : Cut site (provisionPlan settings address proxy) s es halt) :
    (Unrendered settings es ∧ halt ≠ none) ∨ LastRendered settings es address := by
  rw [provisionPlan_eq] at h
  have hprepared : ∀ step ∈ preparingPlan settings address proxy, step.LeavesUnit settings :=
    leavesUnit_preparingPlan address proxy
  rcases h.of_append with ⟨hc, hne⟩ | ⟨before, t, after, rfl, hbefore, -, hafter⟩
  · exact .inl ⟨hc.unrendered hprepared, hne⟩
  · have hsteps : ∀ step ∈ (daemonPlan settings address).tail.map (Step.map HookError.daemon),
        step.LeavesUnit settings := leavesUnit_map (leavesUnit_daemonPlan address) _
    rcases Cut.renders hafter (fun _ => by simp [refusal_eq_none]) hsteps with ⟨hc, hne⟩ | hlast
    · exact .inl ⟨(hbefore.unrendered hprepared).append hc, hne⟩
    · exact .inr (hlast.after_any before)

theorem verdict_false_iff {unit : String} {reply : Except Host.CommandError Host.CommandOutput} :
    verdict unit reply = .ok false ↔
      foundDown (.host (.queryStatus unit) reply :: es) = true := by
  rw [verdict_eq_false]
  cases reply with
  | error cause => simp [foundDown, firstStatus?]
  | ok output => simp [foundDown, firstStatus?]

/-- Reconciling leaves the unit file alone, unless the unit was found down. Then it is written, or
reconciling fails. -/
theorem Reconciles.unit {r : Except (Halt DaemonError) Reconciled}
    (h : Reconciles site settings address s es r) (fs : List Event) :
    (foundDown (es ++ fs) ≠ true ∧ Unrendered settings es) ∨
      (Unrendered settings es ∧ haltOf r ≠ none) ∨
      (foundDown (es ++ fs) = true ∧ LastRendered settings es address) := by
  cases h with
  | unknown hv =>
    left
    constructor
    · intro hdown
      rw [List.singleton_append, ← verdict_false_iff, hv] at hdown
      cases hdown
    · exact unrendered_of_query _ _
  | running hv =>
    left
    constructor
    · intro hdown
      rw [List.singleton_append, ← verdict_false_iff, hv] at hdown
      cases hdown
    · exact unrendered_of_query _ _
  | @restart reply t es r hv _ hc =>
    right
    have hrest : ∀ step ∈ (daemonPlan settings address).tail ++
        [.ask .pruneContainers fun _ => none], step.LeavesUnit settings := by
      intro step hstep
      rcases List.mem_append.mp hstep with hstep | hstep
      · exact leavesUnit_daemonPlan address step hstep
      · obtain rfl := List.mem_singleton.mp hstep
        exact leavesUnit_of_not_writesFile rfl
    rcases Cut.renders hc (fun _ => refusal_eq_none) hrest with ⟨hunrendered, hhalt⟩ | hlast
    · left
      exact ⟨(unrendered_of_query _ reply).append hunrendered, hhalt⟩
    · right
      exact ⟨verdict_false_iff.mp hv, hlast.after_any [_]⟩

end Hooks

end RelayKeeper
