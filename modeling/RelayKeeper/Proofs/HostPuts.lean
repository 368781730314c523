import RelayKeeper.Proofs.RelayPlans
import RelayKeeper.Proofs.TreePairs

/-! # What is put on the host

The files that a run writes on the host are those that its plan says, and of several that lie at one
place the last is there. -/
namespace RelayKeeper

open FileTree (placeOf)

/-- What an event puts at a place. A write that is refused puts nothing there. -/
def Event.puts? (current q : Place) : Event → Option Node
  | .host (.writeFile path contents mode) (.ok _) =>
    if placeOf current path = q then some (.file contents.toUTF8 mode) else none
  | _ => none

def lastPut (current q : Place) (es : List Event) : Option Node :=
  (es.filterMap (Event.puts? current q)).getLast?

theorem lastPut_append (current q : Place) (es fs : List Event) :
    lastPut current q (es ++ fs) = (lastPut current q fs).or (lastPut current q es) := by
  rw [lastPut, List.filterMap_append, List.getLast?_append]
  rfl

theorem lastPut_singleton (current q : Place) (e : Event) :
    lastPut current q [e] = e.puts? current q := by
  cases h : e.puts? current q with
  | none => simp [lastPut, h]
  | some node => simp [lastPut, h]

namespace Hooks

open Relay

variable {ω ε δ : Type}

def Step.puts? (current q : Place) : Step ε → Option Node
  | .ask (.writeFile path contents mode) _ =>
    if placeOf current path = q then some (.file contents.toUTF8 mode) else none
  | _ => none

/-- The step writes one of the files, and fails if it cannot, or it writes none. -/
def Step.WritesOnly (paths : List Path) : Step ε → Prop
  | .ask (.writeFile path _ _) failure => path ∈ paths ∧ ∀ fault, failure (.error fault) ≠ none
  | _ => True

theorem Step.WritesOnly.map {paths : List Path} {step : Step δ} (h : step.WritesOnly paths)
    (f : δ → ε) : (step.map f).WritesOnly paths := by
  cases step with
  | ask call failure =>
    cases call with
    | writeFile path contents mode =>
      exact ⟨h.1, fun fault hnone => h.2 fault (Option.map_eq_none_iff.mp hnone)⟩
    | _ => trivial
  | note _ _ | wait _ _ | tell _ _ => trivial

def hostFiles (settings : Settings) : List Path :=
  [settings.dockerDaemonConfig, settings.scriptPath, settings.unitPath]

theorem writesOnly_write {path : Path} {contents : String} {mode : Nat} {failure : Fault → ε}
    {paths : List Path} (h : path ∈ paths) :
    (Step.ask (.writeFile path contents mode) fun reply => refusal failure reply).WritesOnly
      paths :=
  ⟨h, fun _ => nofun⟩

theorem writesOnly_provisionPlan (settings : Settings) (address : Net.Address)
    (proxy : Option Provision.ProxyConfig) :
    ∀ step ∈ provisionPlan settings address proxy, step.WritesOnly (hostFiles settings) := by
  have hdependencies : ∀ step ∈ dependencyPlan settings proxy,
      step.WritesOnly (hostFiles settings) := by
    intro step hstep
    cases dependencyStep_of_mem settings hstep with
    | proxies _ => exact writesOnly_write (by simp [hostFiles])
    | refresh | directory _ | package _ | group | member => trivial
  have hkeys : ∀ step ∈ keyPlan settings address, step.WritesOnly (hostFiles settings) := by
    intro step hstep
    cases keyStep_of_mem settings hstep with
    | script => exact writesOnly_write (by simp [hostFiles])
    | directory _ | owner | run => trivial
  have hdaemon : ∀ step ∈ daemonPlan settings address, step.WritesOnly (hostFiles settings) := by
    intro step hstep
    simp only [daemonPlan, daemonCalls, List.mem_append, List.mem_cons, List.not_mem_nil,
      or_false] at hstep
    rcases hstep with (rfl | rfl | rfl | rfl) | rfl
    · exact writesOnly_write (by simp [hostFiles])
    all_goals trivial
  intro step hstep
  simp only [provisionPlan, List.mem_append, List.mem_singleton, List.mem_map] at hstep
  rcases hstep with rfl | ⟨part, hpart, rfl⟩ | rfl | ⟨part, hpart, rfl⟩ | rfl | ⟨part, hpart, rfl⟩
  · trivial
  · exact (hdependencies part hpart).map _
  · trivial
  · exact (hkeys part hpart).map _
  · trivial
  · exact (hdaemon part hpart).map _

/-- Nothing is put where none of the files lies. -/
theorem filterMap_puts_eq_nil {plan : List (Step ε)} {paths : List Path}
    (hplan : ∀ step ∈ plan, step.WritesOnly paths) {current q : Place}
    (hq : ∀ path ∈ paths, placeOf current path ≠ q) :
    plan.filterMap (Step.puts? current q) = [] := by
  refine List.filterMap_eq_nil_iff.mpr fun step hstep => ?_
  have hwrites := hplan step hstep
  cases step with
  | ask call failure =>
    cases call with
    | writeFile path contents mode => exact if_neg (hq path hwrites.1)
    | _ => rfl
  | note _ _ | wait _ _ | tell _ _ => rfl

section cut

variable {site : Site ω} {s : Session ω} {es : List Event} {plan : List (Step ε)}
  {paths : List Path}

theorem filterMap_puts_polled {settings : Settings} {left : Nat} {error : Option DaemonError}
    (h : Polled settings left es error) (current q : Place) :
    es.filterMap (Event.puts? current q) = [] := by
  induction h with
  | failed _ | met _ | inVain _ _ => rfl
  | again _ _ _ ih => exact ih

theorem filterMap_puts_told {settings : Settings} {address : Net.Address} {files : FileTree}
    (h : Told settings address files es) (current q : Place) :
    es.filterMap (Event.puts? current q) = [] := by
  rw [List.filterMap_eq_nil_iff]
  intro e he
  rcases h.announced with rfl | ⟨data, ha⟩
  · cases he
  · rcases ha.mem he with ⟨reply, rfl⟩ | ⟨id, reply, rfl⟩ <;> rfl

/-- A step that does not fail puts what it says. -/
theorem Step.Goes.filterMap_puts {step : Step ε} (h : step.Goes site s es none)
    (hstep : step.WritesOnly paths) (current q : Place) :
    es.filterMap (Event.puts? current q) = (step.puts? current q).toList := by
  generalize hnone : (none : Option (Halt ε)) = halt at h
  cases h with
  | @ask call failure reply =>
    have hpasses : failure reply = none := Option.map_eq_none_iff.mp hnone.symm
    have hevent : (Event.host call reply).puts? current q =
        (Step.ask call failure).puts? current q := by
      cases call with
      | writeFile path contents mode =>
        cases reply with
        | ok _ => rfl
        | error fault => exact absurd hpasses (hstep.2 fault)
      | _ => rfl
    rw [List.filterMap_cons, hevent]
    cases (Step.ask call failure).puts? current q <;> rfl
  | note reply => rfl
  | abandon _ => cases hnone
  | wait _ hp => exact filterMap_puts_polled hp current q
  | tell ht => exact filterMap_puts_told ht current q

/-- A plan that is done puts what its steps say. -/
theorem Cut.filterMap_puts (h : Cut site plan s es none)
    (hplan : ∀ step ∈ plan, step.WritesOnly paths) (current q : Place) :
    es.filterMap (Event.puts? current q) = plan.filterMap (Step.puts? current q) := by
  generalize hnone : (none : Option (Halt ε)) = halt at h
  induction h with
  | done => rfl
  | failed _ => cases hnone
  | @passed step steps _ _ _ _ _ hg _ _ ih =>
    have hfirst := hg.filterMap_puts (hplan step List.mem_cons_self) current q
    have hrest := ih (fun other ho => hplan other (List.mem_cons_of_mem step ho)) hnone
    rw [List.filterMap_append, hfirst, hrest, List.filterMap_cons]
    cases step.puts? current q <;> rfl

end cut

end Hooks

end RelayKeeper
