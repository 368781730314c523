import RelayKeeper.Hooks.Outcome
import RelayKeeper.Proofs.HookRuns

/-! # Plans

A plan is a list of steps, each of which says what is asked and which answers are failures. A run
that is cut does the steps in order, up to the first that fails. A hook follows a plan if every run
of it is the plan, cut. -/
namespace RelayKeeper.Hooks

variable {ω ε δ α β : Type}

def report (unit : String) :
    Except Host.CommandError Host.CommandOutput → Except Relay.DaemonError Relay.DaemonStatus
  | .error cause => .error (.statusCommand unit cause)
  | .ok output =>
    match Relay.DaemonStatus.of? output with
    | some status => .ok status
    | none => .error (.statusCheck unit output.code)

def verdict (unit : String) (reply : Except Host.CommandError Host.CommandOutput) :
    Except Relay.DaemonError Bool :=
  (report unit reply).map (·.running)

/-- Waiting for the unit with some time left: queries that find it not running, with pauses between
them, and one that ends the wait. It is in vain if the unit does not run when no time is left. -/
inductive Polled (settings : Settings) : Nat → List Event → Option Relay.DaemonError → Prop where
  | failed {left reply error} : verdict settings.serviceName reply = .error error →
      Polled settings left [.host (.queryStatus settings.serviceName) reply] (some error)
  | met {left reply} : verdict settings.serviceName reply = .ok true →
      Polled settings left [.host (.queryStatus settings.serviceName) reply] none
  | inVain {left reply} : verdict settings.serviceName reply = .ok false →
      left = 0 ∨ settings.checkInterval.nanos = 0 →
      Polled settings left [.host (.queryStatus settings.serviceName) reply]
        (some (.timedOut settings.startupTimeout))
  | again {left reply es error} : verdict settings.serviceName reply = .ok false → 0 < left →
      Polled settings (left - min settings.checkInterval.nanos left) es error →
      Polled settings left (.host (.queryStatus settings.serviceName) reply ::
        .slept ⟨min settings.checkInterval.nanos left⟩ :: es) error

theorem Polled.no_record {settings : Settings} {left : Nat} {es : List Event}
    {error : Option Relay.DaemonError} (h : Polled settings left es error) {call : Record.Call}
    {reply : call.Reply} : .record call reply ∉ es := by
  intro he
  induction h with
  | failed _ | met _ | inVain _ _ => cases List.mem_singleton.mp he
  | again _ _ _ ih =>
    rcases List.mem_cons.mp he with he | he
    · cases he
    rcases List.mem_cons.mp he with he | he
    · cases he
    · exact ih he

inductive Spread (data : Record.Bag) : List String → List Event → Prop where
  | nil : Spread data [] []
  | cons {id ids es} (reply : Except Record.StoreError Unit) : Spread data ids es →
      Spread data (id :: ids) (.record (.updateRelation id data) reply :: es)

inductive Announced (data : Record.Bag) : List Event → Prop where
  | unknown (error : Record.StoreError) : Announced data [.record .relations (.error error)]
  | everyone {ids es} : Spread data ids es → Announced data (.record .relations (.ok ids) :: es)

/-- The consumers are told of an address if the keys are ready, and of nothing else. -/
inductive Told (settings : Settings) (address : Net.Address) (files : FileTree) :
    List Event → Prop where
  | nothing : (∀ fingerprints, Relay.fingerprints settings files ≠ .ok (.ready fingerprints)) →
      Told settings address files []
  | profile {fingerprints es} : Relay.fingerprints settings files = .ok (.ready fingerprints) →
      Announced (Record.Profile.of address settings.port fingerprints).bag es →
      Told settings address files es

theorem Spread.mem {data : Record.Bag} {ids : List String} {es : List Event}
    (h : Spread data ids es) {e : Event} (he : e ∈ es) :
    ∃ id reply, e = .record (.updateRelation id data) reply := by
  induction h with
  | nil => cases he
  | cons reply _ ih =>
    rcases List.mem_cons.mp he with rfl | he
    · exact ⟨_, reply, rfl⟩
    · exact ih he

theorem Announced.mem {data : Record.Bag} {es : List Event} (h : Announced data es) {e : Event}
    (he : e ∈ es) :
    (∃ reply, e = .record .relations reply) ∨
      ∃ id reply, e = .record (.updateRelation id data) reply := by
  cases h with
  | unknown error =>
    obtain rfl := List.mem_singleton.mp he
    exact .inl ⟨_, rfl⟩
  | everyone hspread =>
    rcases List.mem_cons.mp he with rfl | he
    · exact .inl ⟨_, rfl⟩
    · exact .inr (hspread.mem he)

theorem Told.announced {settings : Settings} {address : Net.Address} {files : FileTree}
    {es : List Event} (h : Told settings address files es) :
    es = [] ∨ ∃ data, Announced data es := by
  cases h with
  | nothing _ => exact .inl rfl
  | profile _ ha => exact .inr ⟨_, ha⟩

/-- A step of a plan, with the failures that its answers mean. -/
inductive Step (ε : Type) where
  | ask (call : Host.Call) (failure : call.Reply → Option ε)
  | note (call : Record.Call) (failure : call.Reply → Option ε)
  | wait (settings : Settings) (failure : Relay.DaemonError → ε)
  | tell (settings : Settings) (address : Net.Address)

namespace Step

def map (f : δ → ε) : Step δ → Step ε
  | .ask call failure => .ask call fun reply => (failure reply).map f
  | .note call failure => .note call fun reply => (failure reply).map f
  | .wait settings failure => .wait settings fun error => f (failure error)
  | .tell settings address => .tell settings address

inductive Goes (site : Site ω) (s : Session ω) :
    Step ε → List Event → Option (Halt ε) → Prop where
  | ask {call failure} (reply : call.Reply) :
      Goes site s (.ask call failure) [.host call reply] ((failure reply).map .failed)
  | note {call failure} (reply : call.Reply) :
      Goes site s (.note call failure) [.record call reply] ((failure reply).map .failed)
  | abandon {settings : Settings} {failure} :
      (Duration.ofSeconds Hook.clockRange).nanos ≤ (s.clock.add settings.startupTimeout).nanos →
      Goes site s (.wait settings failure) [] (some .abandoned)
  | wait {settings : Settings} {failure es error} :
      (s.clock.add settings.startupTimeout).nanos < (Duration.ofSeconds Hook.clockRange).nanos →
      Polled settings settings.startupTimeout.nanos es error →
      Goes site s (.wait settings failure) es ((error.map failure).map .failed)
  | tell {settings address es} : Told settings address (site.files s.world) es →
      Goes site s (.tell settings address) es none

end Step

/-- A step asks the record what it notes, unless it tells the consumers. -/
theorem Step.Goes.of_record {site : Site ω} {s : Session ω} {step : Step ε} {es : List Event}
    {halt : Option (Halt ε)} (h : step.Goes site s es halt) {call : Record.Call}
    {reply : call.Reply} (he : .record call reply ∈ es) :
    (∃ failure, step = .note call failure) ∨
      ∃ settings address, step = .tell settings address ∧ ∃ data, Announced data es := by
  cases h with
  | ask _ => cases List.mem_singleton.mp he
  | note _ =>
    cases List.mem_singleton.mp he
    exact .inl ⟨_, rfl⟩
  | abandon _ => cases he
  | wait _ hp => exact absurd he hp.no_record
  | tell ht =>
    rcases ht.announced with rfl | ha
    · cases he
    · exact .inr ⟨_, _, rfl, ha⟩

theorem Step.Goes.of_ask {site : Site ω} {s : Session ω} {call : Host.Call}
    {failure : call.Reply → Option ε} {es : List Event} {halt : Option (Halt ε)}
    (h : (Step.ask call failure).Goes site s es halt) :
    ∃ reply, es = [.host call reply] ∧ halt = (failure reply).map .failed := by
  cases h with
  | ask reply => exact ⟨reply, rfl, rfl⟩

theorem Step.Goes.of_note {site : Site ω} {s : Session ω} {call : Record.Call}
    {failure : call.Reply → Option ε} {es : List Event} {halt : Option (Halt ε)}
    (h : (Step.note call failure).Goes site s es halt) :
    ∃ reply, es = [.record call reply] ∧ halt = (failure reply).map .failed := by
  cases h with
  | note reply => exact ⟨reply, rfl, rfl⟩

/-- The steps were done in order, up to the first that failed. -/
inductive Cut (site : Site ω) : List (Step ε) → Session ω → List Event → Option (Halt ε) → Prop where
  | done {s} : Cut site [] s [] none
  | failed {step steps s es halt} : step.Goes site s es (some halt) →
      Cut site (step :: steps) s es (some halt)
  | passed {step steps s t es fs halt} : step.Goes site s es none → Ran site s t es →
      Cut site steps t fs halt → Cut site (step :: steps) s (es ++ fs) halt

namespace Cut

variable {site : Site ω} {plan more : List (Step ε)} {s t : Session ω} {es fs : List Event}
  {halt : Option (Halt ε)}

theorem goes_of_quiet {step : Step ε} (hr : Ran site s t []) (h : step.Goes site t es halt) :
    step.Goes site s es halt := by
  have hclock : t.clock = s.clock := by
    have hc := hr.clock
    rcases s with ⟨_, ⟨_⟩, _, _⟩
    rcases t with ⟨_, ⟨_⟩, _, _⟩
    simpa [elapsed] using hc
  have hworld : t.world = s.world := hr.world.unique (.nil _)
  cases h with
  | ask reply => exact .ask reply
  | note reply => exact .note reply
  | abandon hc => exact .abandon (hclock ▸ hc)
  | wait hc hp => exact .wait (hclock ▸ hc) hp
  | tell ht => exact .tell (hworld ▸ ht)

theorem of_quiet (hr : Ran site s t []) (h : Cut site plan t es halt) :
    Cut site plan s es halt := by
  cases h with
  | done => exact .done
  | failed hg => exact .failed (goes_of_quiet hr hg)
  | passed hg ht hc => exact .passed (goes_of_quiet hr hg) (hr.trans ht) hc

theorem append (h : Cut site plan s es none) (hr : Ran site s t es)
    (k : Cut site more t fs halt) : Cut site (plan ++ more) s (es ++ fs) halt := by
  generalize hnone : (none : Option (Halt ε)) = stop at h
  induction h with
  | done => exact k.of_quiet hr
  | failed _ => cases hnone
  | passed hg ht _ ih =>
    rw [List.append_assoc]
    exact .passed hg ht (ih (ht.drop hr) hnone)

theorem append_of_some {stop : Halt ε} (h : Cut site plan s es (some stop))
    (more : List (Step ε)) : Cut site (plan ++ more) s es (some stop) := by
  generalize hsome : some stop = halt at h
  induction h with
  | done => cases hsome
  | failed hg => exact .failed hg
  | passed hg ht _ ih => exact .passed hg ht (ih hsome)

theorem of_append (h : Cut site (plan ++ more) s es halt) :
    (Cut site plan s es halt ∧ halt ≠ none) ∨
      ∃ before t after, es = before ++ after ∧ Cut site plan s before none ∧ Ran site s t before ∧
        Cut site more t after halt := by
  induction plan generalizing s es with
  | nil => exact .inr ⟨[], s, es, rfl, .done, Ran.quiet s s.log, h⟩
  | cons step plan ih =>
    cases h with
    | failed hg => exact .inl ⟨.failed hg, by simp⟩
    | passed hg ht hc =>
      rcases ih hc with ⟨hcut, hne⟩ | ⟨before, t, after, rfl, hcut, hr, hmore⟩
      · exact .inl ⟨.passed hg ht hcut, hne⟩
      · refine .inr ⟨_, t, after, (List.append_assoc ..).symm, .passed hg ht hcut, ht.trans hr, ?_⟩
        exact hmore

theorem single {step : Step ε} (h : step.Goes site s es halt) (hr : Ran site s t es) :
    Cut site [step] s es halt := by
  cases halt with
  | none =>
    have hc : Cut site [step] s (es ++ []) none := .passed h hr .done
    rwa [List.append_nil] at hc
  | some stop => exact .failed h

/-- A step that notes something fails as its answer says, or is passed. -/
theorem of_note {call : Record.Call} {failure : call.Reply → Option ε}
    (h : Cut site (.note call failure :: plan) s es halt) :
    (∃ reply error, es = [.record call reply] ∧ failure reply = some error ∧
        halt = some (.failed error)) ∨
      ∃ reply t fs, es = .record call reply :: fs ∧ failure reply = none ∧
        Ran site s t [.record call reply] ∧ Cut site plan t fs halt := by
  cases h with
  | failed hg =>
    obtain ⟨reply, rfl, hstop⟩ := hg.of_note
    obtain ⟨error, hf, rfl⟩ := Option.map_eq_some_iff.mp hstop.symm
    exact .inl ⟨reply, error, rfl, hf, rfl⟩
  | passed hg ht hc =>
    obtain ⟨reply, rfl, hnone⟩ := hg.of_note
    exact .inr ⟨reply, _, _, rfl, Option.map_eq_none_iff.mp hnone.symm, ht, hc⟩

theorem of_tell {settings : Settings} {address : Net.Address}
    (h : Cut site (.tell settings address :: plan) s es halt) :
    ∃ t told fs, es = told ++ fs ∧ Told settings address (site.files s.world) told ∧
      Ran site s t told ∧ Cut site plan t fs halt := by
  cases h with
  | @failed _ _ _ _ stop hg =>
    generalize hsome : some stop = halt at hg
    cases hg with
    | tell _ => cases hsome
  | @passed _ _ _ t told fs _ hg ht hc =>
    cases hg with
    | tell htold => exact ⟨t, told, fs, rfl, htold, ht, hc⟩

theorem exists_goes (h : Cut site plan s es halt) {e : Event} (he : e ∈ es) :
    ∃ step ∈ plan, ∃ t fs stop, step.Goes site t fs stop ∧ e ∈ fs := by
  induction h with
  | done => cases he
  | failed hg => exact ⟨_, by simp, _, _, _, hg, he⟩
  | passed hg _ _ ih =>
    rcases List.mem_append.mp he with he | he
    · exact ⟨_, by simp, _, _, _, hg, he⟩
    · obtain ⟨step, hm, rest⟩ := ih he
      exact ⟨step, List.mem_cons_of_mem _ hm, rest⟩

/-- A plan that tells nobody asks the record what it notes. -/
theorem of_record (h : Cut site plan s es halt) {call : Record.Call} {reply : call.Reply}
    (he : .record call reply ∈ es)
    (htell : ∀ settings address, Step.tell settings address ∉ plan) :
    ∃ failure, .note call failure ∈ plan := by
  obtain ⟨step, hstep, t, fs, stop, hg, hefs⟩ := h.exists_goes he
  rcases hg.of_record hefs with ⟨failure, rfl⟩ | ⟨settings, address, rfl, -⟩
  · exact ⟨failure, hstep⟩
  · exact absurd hstep (htell settings address)

/-- The step that stops a run is the last that it does. -/
theorem last_failed {stop : Halt ε} (h : Cut site plan s es (some stop)) :
    ∃ step ∈ plan, ∃ before t fs, es = before ++ fs ∧ Ran site s t before ∧
      step.Goes site t fs (some stop) := by
  generalize hsome : some stop = halt at h
  induction h with
  | done => cases hsome
  | @failed step _ s es _ hg =>
    exact ⟨step, List.mem_cons_self, [], s, es, rfl, Ran.quiet s s.log, hsome ▸ hg⟩
  | @passed _ _ _ _ es _ _ _ hr _ ih =>
    obtain ⟨step, hm, before, t, fs, rfl, ht, hg⟩ := ih hsome
    exact ⟨step, List.mem_cons_of_mem _ hm, es ++ before, t, fs,
      (List.append_assoc ..).symm, hr.trans ht, hg⟩

theorem exists_failed {stop : Halt ε} (h : Cut site plan s es (some stop)) :
    ∃ step ∈ plan, ∃ t fs, step.Goes site t fs (some stop) := by
  obtain ⟨step, hm, -, t, fs, -, -, hg⟩ := h.last_failed
  exact ⟨step, hm, t, fs, hg⟩

theorem goes_map (f : δ → ε) {step : Step δ} {stop : Option (Halt δ)}
    (h : step.Goes site s es stop) : (step.map f).Goes site s es (stop.map (Halt.map f)) := by
  cases h with
  | @ask call failure reply =>
    have hg : (Step.map f (.ask call failure)).Goes site s [.host call reply]
        (((failure reply).map f).map .failed) := .ask reply
    simpa [Option.map_map, Function.comp_def, Halt.map] using hg
  | @note call failure reply =>
    have hg : (Step.map f (.note call failure)).Goes site s [.record call reply]
        (((failure reply).map f).map .failed) := .note reply
    simpa [Option.map_map, Function.comp_def, Halt.map] using hg
  | abandon hc => exact .abandon hc
  | @wait settings failure es error hc hp =>
    have hg : (Step.map f (.wait settings failure)).Goes site s es
        ((error.map fun error => f (failure error)).map .failed) := .wait hc hp
    simpa [Option.map_map, Function.comp_def, Halt.map] using hg
  | tell ht => exact .tell ht

theorem map (f : δ → ε) {plan : List (Step δ)} {stop : Option (Halt δ)}
    (h : Cut site plan s es stop) :
    Cut site (plan.map (Step.map f)) s es (stop.map (Halt.map f)) := by
  induction h with
  | done => exact .done
  | failed hg => exact .failed (goes_map f hg)
  | passed hg hr _ ih => exact .passed (goes_map f hg) hr ih

theorem goes_of_map (f : δ → ε) {step : Step δ} (h : (step.map f).Goes site s es halt) :
    ∃ part, step.Goes site s es part ∧ halt = part.map (Halt.map f) := by
  cases step with
  | ask call failure =>
    obtain ⟨reply, rfl, rfl⟩ := Step.Goes.of_ask h
    exact ⟨_, .ask reply, by simp [Option.map_map, Function.comp_def, Halt.map]⟩
  | note call failure =>
    obtain ⟨reply, rfl, rfl⟩ := Step.Goes.of_note h
    exact ⟨_, .note reply, by simp [Option.map_map, Function.comp_def, Halt.map]⟩
  | wait settings failure =>
    cases h with
    | abandon hc => exact ⟨_, .abandon hc, rfl⟩
    | wait hc hp => exact ⟨_, .wait hc hp, by simp [Option.map_map, Function.comp_def, Halt.map]⟩
  | tell settings address =>
    cases h with
    | tell ht => exact ⟨_, .tell ht, rfl⟩

/-- Only the failures of a plan change with what the whole makes of them. -/
theorem of_map (f : δ → ε) {plan : List (Step δ)}
    (h : Cut site (plan.map (Step.map f)) s es halt) :
    ∃ part, Cut site plan s es part ∧ halt = part.map (Halt.map f) := by
  induction plan generalizing s es with
  | nil =>
    cases h with
    | done => exact ⟨none, .done, rfl⟩
  | cons step plan ih =>
    cases h with
    | failed hg =>
      obtain ⟨part, hpart, heq⟩ := goes_of_map f hg
      cases part with
      | none => cases heq
      | some stop => exact ⟨some stop, .failed hpart, heq⟩
    | passed hg ht hc =>
      obtain ⟨first, hfirst, heq⟩ := goes_of_map f hg
      obtain rfl := Option.map_eq_none_iff.mp heq.symm
      obtain ⟨part, hpart, rfl⟩ := ih hc
      exact ⟨part, .passed hfirst ht hpart, rfl⟩

end Cut

def haltOf : Except (Halt ε) α → Option (Halt ε)
  | .ok _ => none
  | .error halt => some halt

/-- Every run of the hook is the plan, cut. -/
def Follows (site : Site ω) (x : Hook ω ε α) (plan : List (Step ε)) : Prop :=
  x.Makes site fun s es r => Cut site plan s es (haltOf r)

def refusal (f : δ → ε) : Except δ α → Option ε
  | .ok _ => none
  | .error error => some (f error)

/-- A call whose answer is a failure was refused. -/
theorem Step.Goes.of_refusal {site : Site ω} {s : Session ω} {es : List Event} {call : Host.Call}
    {view : call.Reply → Except δ α} {f : δ → ε} {error : ε}
    (h : (Step.ask call fun reply => refusal f (view reply)).Goes site s es
      (some (.failed error))) :
    ∃ reply cause, es = [.host call reply] ∧ view reply = .error cause ∧ f cause = error := by
  obtain ⟨reply, rfl, hstop⟩ := h.of_ask
  cases hview : view reply with
  | ok a =>
    rw [hview] at hstop
    cases hstop
  | error cause =>
    rw [hview] at hstop
    cases hstop
    exact ⟨reply, cause, rfl, hview, rfl⟩

namespace Follows

variable {site : Site ω} {plan more : List (Step ε)} {x : Hook ω ε α}

theorem value (a : α) : Follows site (pure a : Hook ω ε α) [] :=
  Hook.Makes.pure fun _ => .done

theorem bind {f : α → Hook ω ε β} (hx : Follows site x plan)
    (hf : ∀ a, Follows site (f a) more) : Follows site (x >>= f) (plan ++ more) := by
  refine Hook.Makes.bind hx hf ?_ ?_
  · intro s t es fs a r hp hr hq
    exact hp.append hr hq
  · intro s es halt hp
    exact hp.append_of_some more

theorem log (level : Log.Level) (component message : String) :
    Follows site (Hook.log level component message : Hook ω ε Unit) [] := by
  refine (Hook.makes_log site level component message).mono ?_
  rintro s es r ⟨rfl, rfl⟩
  exact .done

theorem after_log {level : Log.Level} {component message : String} {f : Unit → Hook ω ε β}
    (h : Follows site (f ()) plan) :
    Follows site (Hook.log level component message >>= f) plan :=
  (log level component message).bind fun _ => h

theorem haltOf_mapError (f : δ → ε) (answer : Except δ α) :
    haltOf (answer.mapError fun error => Halt.failed (f error)) =
      (refusal f answer).map .failed := by
  cases answer <;> rfl

theorem ask {call : Host.Call} {view : call.Reply → Except δ α} {f : δ → ε} :
    Follows site (Hook.host site call >>= fun reply => Hook.require f (view reply))
      [.ask call fun reply => refusal f (view reply)] := by
  refine (Hook.Makes.after_host _ fun reply => Hook.makes_require site f (view reply)).mono ?_
  rintro s es r ⟨reply, t, fs, rfl, hr, rfl, rfl⟩
  rw [haltOf_mapError]
  exact Cut.single (.ask reply) hr

theorem note {call : Record.Call} {view : call.Reply → Except δ α} {f : δ → ε} :
    Follows site (Hook.record site call >>= fun reply => Hook.require f (view reply))
      [.note call fun reply => refusal f (view reply)] := by
  refine (Hook.Makes.after_record _ fun reply => Hook.makes_require site f (view reply)).mono ?_
  rintro s es r ⟨reply, t, fs, rfl, hr, rfl, rfl⟩
  rw [haltOf_mapError]
  exact Cut.single (.note reply) hr

theorem after_ask {call : Host.Call} {view : call.Reply → Except δ α} {f : δ → ε}
    {rest : α → Hook ω ε β} (h : ∀ a, Follows site (rest a) plan) :
    Follows site (Hook.host site call >>= fun reply => Hook.require f (view reply) >>= rest)
      ((.ask call fun reply => refusal f (view reply)) :: plan) := by
  rw [← bind_assoc]
  exact ask.bind h

theorem after_note {call : Record.Call} {view : call.Reply → Except δ α} {f : δ → ε}
    {rest : α → Hook ω ε β} (h : ∀ a, Follows site (rest a) plan) :
    Follows site (Hook.record site call >>= fun reply => Hook.require f (view reply) >>= rest)
      ((.note call fun reply => refusal f (view reply)) :: plan) := by
  rw [← bind_assoc]
  exact note.bind h

theorem mapError (f : δ → ε) {plan : List (Step δ)} {x : Hook ω δ α}
    (h : Follows site x plan) : Follows site (Hook.mapError f x) (plan.map (Step.map f)) := by
  refine (Hook.Makes.mapError f h).mono ?_
  rintro s es r ⟨part, hc, rfl⟩
  cases part with
  | error halt => exact hc.map f
  | ok a => exact hc.map f

theorem onFailure (component message : String) (h : Follows site x plan) :
    Follows site (Hook.onFailure component message x) plan :=
  Hook.Makes.onFailure component message h

end Follows

end RelayKeeper.Hooks
