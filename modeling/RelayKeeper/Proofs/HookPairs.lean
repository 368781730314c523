import RelayKeeper.Hooks.Install
import RelayKeeper.Hooks.UpdateStatus
import RelayKeeper.Proofs.HookRuns

/-! # Two runs of a hook

Two sessions are abreast if their worlds are related, their clocks show the same, and what others saw
of them is the same: the calls of the host with their answers, the pauses, the statuses and the ports.
Who the consumers are and what they are told is not part of this. A hook is indifferent if two runs
of it that start abreast end in the same way and abreast, as long as the calls that both make are
answered alike. -/
namespace RelayKeeper

/-- What others see, apart from the consumers. -/
def Event.isOutward : Event → Bool
  | .record .relations _ => false
  | .record (.updateRelation ..) _ => false
  | _ => true

def outward (es : List Event) : List Event := es.filter Event.isOutward

theorem outward_append (es fs : List Event) : outward (es ++ fs) = outward es ++ outward fs :=
  List.filter_append ..

structure Abreast {ω : Type} (R : ω → ω → Prop) (s t : Session ω) : Prop where
  world : R s.world t.world
  clock : s.clock = t.clock
  trace : outward s.trace = outward t.trace

namespace Abreast

variable {ω : Type} {R : ω → ω → Prop} {s t u : Session ω}

theorem symm (hR : ∀ v w, R v w → R w v) (h : Abreast R s t) : Abreast R t s :=
  ⟨hR _ _ h.world, h.clock.symm, h.trace.symm⟩

theorem trans (hR : ∀ u v w, R u v → R v w → R u w) (h : Abreast R s t) (k : Abreast R t u) :
    Abreast R s u :=
  ⟨hR _ _ _ h.world k.world, h.clock.trans k.clock, h.trace.trans k.trace⟩

/-- What is logged does not matter. -/
theorem logs (h : Abreast R s t) (log more : List Log.Entry) :
    Abreast R { s with log := log } { t with log := more } :=
  ⟨h.world, h.clock, h.trace⟩

end Abreast

def Host.Call.path? : Host.Call → Option Path
  | .createDirectories path => some path
  | .writeFile path .. => some path
  | .changeOwner path .. => some path
  | .runScript path => some path
  | _ => none

namespace Hook

variable {ω ε δ α β : Type} {site : Site ω} {R : ω → ω → Prop} {apart : Path → Prop}

/-- When the hook runs in this session, the host gets this call in this world. -/
def Asks (site : Site ω) (x : Hook ω ε α) (s : Session ω) (call : Host.Call) (w : ω) : Prop :=
  ∃ before reply after, Ran site s (x s).2 (before ++ .host call reply :: after) ∧
    site.Takes s.world before w

/-- A call that both runs make in related worlds, and that is about no path but one that is apart, is
answered alike and leads to related worlds. -/
def Unmoved (site : Site ω) (R : ω → ω → Prop) (apart : Path → Prop) (x : Hook ω ε α)
    (s t : Session ω) : Prop :=
  ∀ call v w, (∀ p ∈ call.path?, apart p) → Asks site x s call v → Asks site x t call w → R v w →
    (site.host call v).reply = (site.host call w).reply ∧
      R (site.host call v).world (site.host call w).world

structure Indifferent (site : Site ω) (R : ω → ω → Prop) (apart : Path → Prop) (x : Hook ω ε α) :
    Prop where
  runs : ∀ s, ∃ es, Ran site s (x s).2 es
  alike : ∀ s t, Abreast R s t → Unmoved site R apart x s t →
    (x s).1 = (x t).1 ∧ Abreast R (x s).2 (x t).2

/-- In a world that is related to any, the hook comes to an end of its own, and others see nothing
of it. -/
def Aside (R : ω → ω → Prop) (x : Hook ω ε Unit) : Prop :=
  ∀ s w, R s.world w → (x s).1 = .ok () ∧ Abreast R s (x s).2

namespace Asks

variable {x : Hook ω ε α} {f : α → Hook ω ε β} {s s' : Session ω} {call : Host.Call} {w : ω}

/-- What is asked is asked in every hook with the same events. -/
theorem of_ran {y : Hook ω δ β} (h : Asks site x s call w)
    (hy : ∀ es, Ran site s (x s).2 es → Ran site s (y s).2 es) : Asks site y s call w := by
  obtain ⟨before, reply, after, hr, hw⟩ := h
  exact ⟨before, reply, after, hy _ hr, hw⟩

theorem bind_left (hf : ∀ a s, ∃ es, Ran site s (f a s).2 es) (h : Asks site x s call w) :
    Asks site (x >>= f) s call w := by
  obtain ⟨before, reply, after, hr, hw⟩ := h
  rcases hx : x s with ⟨halt | a, t⟩
  · rw [hx] at hr
    refine ⟨before, reply, after, ?_, hw⟩
    rw [run_bind, hx]
    exact hr
  · rw [hx] at hr
    obtain ⟨es, hes⟩ := hf a t
    refine ⟨before, reply, after ++ es, ?_, hw⟩
    rw [run_bind, hx, ← List.cons_append, ← List.append_assoc]
    exact hr.trans hes

theorem bind_right {a : α} {es : List Event} (hx : x s = (.ok a, s')) (hr : Ran site s s' es)
    (h : Asks site (f a) s' call w) : Asks site (x >>= f) s call w := by
  obtain ⟨before, reply, after, hr', hw⟩ := h
  refine ⟨es ++ before, reply, after, ?_, hr.world.append hw⟩
  rw [run_bind, hx, List.append_assoc]
  exact hr.trans hr'

end Asks

theorem Unmoved.mono {x : Hook ω ε α} {y : Hook ω δ β} {s s' t t' : Session ω}
    (h : Unmoved site R apart y s' t') (hs : ∀ call w, Asks site x s call w → Asks site y s' call w)
    (ht : ∀ call w, Asks site x t call w → Asks site y t' call w) : Unmoved site R apart x s t :=
  fun call v w hcall hv hw hR => h call v w hcall (hs call v hv) (ht call w hw) hR

/-- On related worlds the record's statuses and ports are answered alike, and lead to related worlds. -/
def Screened (site : Site ω) (R : ω → ω → Prop) : Prop :=
  ∀ call v w, (∀ reply, Event.isOutward (.record call reply) = true) → R v w →
    (site.record call v).reply = (site.record call w).reply ∧
      R (site.record call v).world (site.record call w).world

namespace Indifferent

variable {x : Hook ω ε α} {f : α → Hook ω ε β}

/-- A hook that asks nobody for anything. -/
theorem of_quiet (hr : ∀ s, Ran site s (x s).2 [])
    (hx : ∀ s t, Abreast R s t → (x s).1 = (x t).1 ∧ Abreast R (x s).2 (x t).2) :
    Indifferent site R apart x :=
  ⟨fun s => ⟨[], hr s⟩, fun s t h _ => hx s t h⟩

theorem pure (a : α) : Indifferent site R apart (Pure.pure a : Hook ω ε α) :=
  of_quiet (fun s => Ran.quiet s s.log) fun _ _ h => ⟨rfl, h⟩

theorem bind (hx : Indifferent site R apart x) (hf : ∀ a, Indifferent site R apart (f a)) :
    Indifferent site R apart (x >>= f) where
  runs := by
    intro s
    obtain ⟨es, hr⟩ := hx.runs s
    rw [run_bind]
    rcases hxs : x s with ⟨halt | a, s'⟩
    · rw [hxs] at hr
      exact ⟨es, hr⟩
    · rw [hxs] at hr
      obtain ⟨fs, hr'⟩ := (hf a).runs s'
      exact ⟨es ++ fs, hr.trans hr'⟩
  alike := by
    intro s t h hunmoved
    have hfirst : Unmoved site R apart x s t := hunmoved.mono
      (fun _ _ ha => ha.bind_left fun a => (hf a).runs)
      fun _ _ ha => ha.bind_left fun a => (hf a).runs
    obtain ⟨hvalue, hafter⟩ := hx.alike s t h hfirst
    obtain ⟨es, hs⟩ := hx.runs s
    obtain ⟨fs, ht⟩ := hx.runs t
    rcases hxs : x s with ⟨r, s'⟩
    rcases hxt : x t with ⟨r', t'⟩
    rw [hxs, hxt] at hvalue hafter
    rw [hxs] at hs
    rw [hxt] at ht
    obtain rfl : r = r' := hvalue
    cases r with
    | error halt =>
      rw [run_bind, run_bind, hxs, hxt]
      exact ⟨rfl, hafter⟩
    | ok a =>
      -- what the rest asks, the whole asks after the first part
      have hrest : Unmoved site R apart (f a) s' t' := hunmoved.mono
        (fun _ _ ha => ha.bind_right hxs hs) fun _ _ ha => ha.bind_right hxt ht
      rw [run_bind, run_bind, hxs, hxt]
      exact (hf a).alike s' t' hafter hrest

theorem log (level : Log.Level) (component message : String) :
    Indifferent site R apart (Hook.log level component message : Hook ω ε Unit) :=
  of_quiet (fun s => Ran.quiet s _) fun _ _ h => ⟨rfl, h.logs _ _⟩

theorem now : Indifferent site R apart (Hook.now : Hook ω ε Duration) :=
  of_quiet (fun s => Ran.quiet s s.log) fun _ _ h => ⟨congrArg Except.ok h.clock, h⟩

theorem fail (error : ε) : Indifferent site R apart (Hook.fail error : Hook ω ε α) :=
  of_quiet (fun s => Ran.quiet s s.log) fun _ _ h => ⟨rfl, h⟩

theorem abandon : Indifferent site R apart (Hook.abandon : Hook ω ε α) :=
  of_quiet (fun s => Ran.quiet s s.log) fun _ _ h => ⟨rfl, h⟩

theorem require (g : δ → ε) (answer : Except δ α) :
    Indifferent site R apart (Hook.require g answer : Hook ω ε α) := by
  cases answer with
  | ok a => exact .pure a
  | error error => exact fail (g error)

theorem sleep (duration : Duration) :
    Indifferent site R apart (Hook.sleep duration : Hook ω ε Unit) where
  runs s := ⟨[.slept duration], rfl, .cons (.slept duration s.world) (.nil _), rfl⟩
  alike := by
    intro s t h _
    refine ⟨rfl, h.world, ?_, ?_⟩
    · exact congrArg (·.add duration) h.clock
    · exact (outward_append ..).trans
        ((congrArg (· ++ _) h.trace).trans (outward_append ..).symm)

theorem host {call : Host.Call} (hcall : ∀ p ∈ call.path?, apart p) :
    Indifferent site R apart (Hook.host site call : Hook ω ε call.Reply) where
  runs s := (makes_host site call s).imp fun _ h => h.1
  alike := by
    intro s t h hunmoved
    have hasks : ∀ s, Asks site (Hook.host site call : Hook ω ε call.Reply) s call s.world :=
      fun s => ⟨[], _, [], ⟨rfl, .cons (.host call s.world) (.nil _), rfl⟩, .nil _⟩
    obtain ⟨hreply, hworld⟩ := hunmoved call _ _ hcall (hasks s) (hasks t) h.world
    refine ⟨congrArg Except.ok hreply, hworld, h.clock, ?_⟩
    change outward (s.trace ++ _) = outward (t.trace ++ _)
    rw [outward_append, outward_append, h.trace, hreply]

theorem record (hsite : Screened site R) (call : Record.Call)
    (hcall : ∀ reply, Event.isOutward (.record call reply) = true) :
    Indifferent site R apart (Hook.record site call : Hook ω ε call.Reply) where
  runs s := (makes_record site call s).imp fun _ h => h.1
  alike := by
    intro s t h _
    obtain ⟨hreply, hworld⟩ := hsite call s.world t.world hcall h.world
    refine ⟨congrArg Except.ok hreply, hworld, h.clock, ?_⟩
    change outward (s.trace ++ _) = outward (t.trace ++ _)
    rw [outward_append, outward_append, h.trace, hreply]

/-- A hook that does what another does, and makes the same of its end. -/
theorem of_same {y : Hook ω δ β} (hx : Indifferent site R apart x)
    (hr : ∀ s es, Ran site s (x s).2 es → Ran site s (y s).2 es)
    (hy : ∀ s t, (x s).1 = (x t).1 → Abreast R (x s).2 (x t).2 →
      (y s).1 = (y t).1 ∧ Abreast R (y s).2 (y t).2) : Indifferent site R apart y where
  runs s := (hx.runs s).imp (hr s)
  alike := by
    intro s t h hunmoved
    obtain ⟨hend, hafter⟩ := hx.alike s t h
      (hunmoved.mono (fun _ _ ha => ha.of_ran (hr s)) fun _ _ ha => ha.of_ran (hr t))
    exact hy s t hend hafter

theorem mapError (g : δ → ε) {part : Hook ω δ α} (h : Indifferent site R apart part) :
    Indifferent site R apart (Hook.mapError g part) := by
  have hrun : ∀ s, Hook.mapError g part s = ((part s).1.mapError (Halt.map g), (part s).2) := by
    intro s
    unfold Hook.mapError
    rcases part s with ⟨_ | _, _⟩ <;> rfl
  refine h.of_same (fun s es hr => ?_) fun s t hend hafter => ?_
  · rw [hrun]
    exact hr
  · rw [hrun, hrun, hend]
    exact ⟨rfl, hafter⟩

theorem onFailure (component message : String) (h : Indifferent site R apart x) :
    Indifferent site R apart (Hook.onFailure component message x) := by
  have hrun : ∀ s, ∃ log, Hook.onFailure component message x s = ((x s).1, { (x s).2 with log }) := by
    intro s
    unfold Hook.onFailure
    rcases x s with ⟨(_ | _) | _, _⟩ <;> exact ⟨_, rfl⟩
  refine h.of_same (fun s es hr => ?_) fun s t hend hafter => ?_
  · obtain ⟨log, heq⟩ := hrun s
    rw [heq]
    exact hr.logs log
  · obtain ⟨log, hs⟩ := hrun s
    obtain ⟨more, ht⟩ := hrun t
    rw [hs, ht]
    exact ⟨hend, hafter.logs log more⟩

theorem attempt {part : Hook ω δ α} (h : Indifferent site R apart part) :
    Indifferent site R apart (Hook.attempt part : Hook ω ε (Except δ α)) := by
  have hsession : ∀ s, (Hook.attempt part s : Except (Halt ε) (Except δ α) × Session ω).2 =
      (part s).2 := by
    intro s
    unfold Hook.attempt
    rcases part s with ⟨(_ | _) | _, _⟩ <;> rfl
  refine h.of_same (fun s es hr => ?_) fun s t hend hafter => ?_
  · rw [hsession]
    exact hr
  · rw [hsession, hsession]
    refine ⟨?_, hafter⟩
    unfold Hook.attempt
    rcases hs : part s with ⟨r, s'⟩
    rcases ht : part t with ⟨r', t'⟩
    rw [hs, ht] at hend
    obtain rfl : r = r' := hend
    rcases r with (_ | _) | _ <;> rfl

theorem ite {c : Prop} [Decidable c] {y : Hook ω ε α} (hx : Indifferent site R apart x)
    (hy : Indifferent site R apart y) : Indifferent site R apart (if c then x else y) := by
  by_cases hc : c
  · rw [if_pos hc]
    exact hx
  · rw [if_neg hc]
    exact hy

/-- What happens aside does not matter to either run. -/
theorem of_aside (hsymm : ∀ v w, R v w → R w v) (htrans : ∀ u v w, R u v → R v w → R u w)
    {x : Hook ω ε Unit} (hr : ∀ s, ∃ es, Ran site s (x s).2 es) (h : Aside R x) :
    Indifferent site R apart x := by
  refine ⟨hr, fun s t hst _ => ?_⟩
  obtain ⟨hs, has⟩ := h s t.world hst.world
  obtain ⟨ht, hat⟩ := h t s.world (hsymm _ _ hst.world)
  refine ⟨hs.trans ht.symm, ?_⟩
  exact (has.symm hsymm).trans htrans (hst.trans htrans hat)

end Indifferent

/-! ## Waiting -/

section waiting

variable {check : Hook ω ε Bool}

theorem indifferent_lastCheck (h : Indifferent site R apart check) (timeout : Duration) :
    Indifferent site R apart (lastCheck check timeout) := by
  refine h.bind fun held => ?_
  exact .ite (.pure _) (.pure _)

theorem indifferent_pollUntil (h : Indifferent site R apart check)
    (timeout interval deadline : Duration) (n : Nat) :
    Indifferent site R apart (pollUntil check timeout interval deadline n) := by
  induction n with
  | zero => exact indifferent_lastCheck h timeout
  | succ n ih =>
    refine Indifferent.now.bind fun moment => .ite ?_ (indifferent_lastCheck h timeout)
    refine h.bind fun held => .ite (.pure _) ?_
    refine Indifferent.now.bind fun later => ?_
    exact (Indifferent.sleep _).bind fun _ => ih

theorem indifferent_poll (h : Indifferent site R apart check) (timeout interval : Duration) :
    Indifferent site R apart (poll check timeout interval) := by
  refine Indifferent.now.bind fun moment => .ite .abandon ?_
  exact indifferent_pollUntil h _ _ _ _

end waiting

end Hook

/-! ## The hooks and their parts -/

section parts

open Hook Relay Hooks

variable {ω ε δ α β : Type} {site : Site ω} {R : ω → ω → Prop} {apart : Path → Prop}

namespace Hook.Indifferent

variable {call : Host.Call} {view : call.Reply → Except δ α} {f : δ → ε} {rest : α → Hook ω ε β}

/-- The host is asked something that is about no file, and the rest goes on if the answer is no
failure. -/
theorem ask (hcall : call.path? = none) (hrest : ∀ a, Indifferent site R apart (rest a)) :
    Indifferent site R apart
      (Hook.host site call >>= fun reply => Hook.require f (view reply) >>= rest) := by
  have hpaths : ∀ p ∈ call.path?, apart p := by simp [hcall]
  exact (Indifferent.host hpaths).bind fun reply => (Indifferent.require f (view reply)).bind hrest

/-- The host is asked something about a file that is apart. -/
theorem ask_at {path : Path} (hpath : apart path) (hcall : call.path? = some path)
    (hrest : ∀ a, Indifferent site R apart (rest a)) :
    Indifferent site R apart
      (Hook.host site call >>= fun reply => Hook.require f (view reply) >>= rest) := by
  have hpaths : ∀ p ∈ call.path?, apart p := by
    intro p hp
    rw [hcall] at hp
    exact Option.some.inj hp ▸ hpath
  exact (Indifferent.host hpaths).bind fun reply => (Indifferent.require f (view reply)).bind hrest

theorem after_log {level : Log.Level} {component message : String} {rest : Unit → Hook ω ε β}
    (hrest : Indifferent site R apart (rest ())) :
    Indifferent site R apart (Hook.log level component message >>= rest) :=
  (Indifferent.log level component message).bind fun _ => hrest

end Hook.Indifferent

structure WritesApart (settings : Settings) (apart : Path → Prop) : Prop where
  script : apart settings.scriptPath
  unit : apart settings.unitPath
  proxies : apart settings.dockerDaemonConfig
  parent : ∀ p q, p.parent? = some q → apart p → apart q

variable (settings : Settings)

theorem indifferent_daemonStatus :
    Indifferent site R apart (daemonStatus site settings) := by
  refine Indifferent.ask rfl fun output => ?_
  cases DaemonStatus.of? output with
  | some status => exact .pure status
  | none => exact .after_log (.fail _)

theorem indifferent_isRunning : Indifferent site R apart (isRunning site settings) :=
  (indifferent_daemonStatus settings).bind fun status => .pure status.running

theorem indifferent_installPackages (packages : List String) :
    Indifferent site R apart (installPackages site packages) := by
  induction packages with
  | nil => exact .pure ()
  | cons package packages ih => exact .ask rfl fun _ => ih

variable {settings} (hw : WritesApart settings apart)

include hw

theorem indifferent_startDaemon (address : Net.Address) :
    Indifferent site R apart (startDaemon site settings address) := by
  have hwrite : Indifferent site R apart (writeUnit site settings address) :=
    .ask_at hw.unit rfl fun _ => .log _ _ _
  refine hwrite.bind fun _ => ?_
  refine .ask rfl fun _ => .ask rfl fun _ => .ask rfl fun _ => .after_log ?_
  refine (indifferent_poll (indifferent_isRunning settings) _ _).bind fun wait => ?_
  cases wait with
  | met => exact .log _ _ _
  | timedOut timeout => exact .fail _

theorem indifferent_writeProxyConfig (proxy : Provision.ProxyConfig) :
    Indifferent site R apart (writeProxyConfig site settings proxy) := by
  unfold writeProxyConfig
  dsimp only
  cases hparent : settings.dockerDaemonConfig.parent? with
  | none => exact .ask_at hw.proxies rfl fun _ => .log _ _ _
  | some parent =>
    refine .ask_at (hw.parent _ parent hparent hw.proxies) rfl fun _ => ?_
    exact .ask_at hw.proxies rfl fun _ => .log _ _ _

theorem indifferent_installDependencies (proxy : Option Provision.ProxyConfig) :
    Indifferent site R apart (installDependencies site settings proxy) := by
  have hend : ∀ failed, Indifferent site R apart
      (do
        installPackages site settings.packages
        Hook.require failed (← Hook.host site (.ensureGroup settings.runtimeGroup))
        Hook.require failed
          (← Hook.host site (.addToGroup settings.user settings.runtimeGroup))
        Hook.log .info dependencyComponent "Dependencies installed") := by
    intro failed
    refine (indifferent_installPackages settings.packages).bind fun _ => ?_
    exact .ask rfl fun _ => .ask rfl fun _ => .log _ _ _
  refine .ask rfl fun _ => ?_
  cases proxy with
  | none => exact hend _
  | some proxy => exact (indifferent_writeProxyConfig hw proxy).bind fun _ => hend _

theorem indifferent_installKeys (address : Net.Address) :
    Indifferent site R apart (installKeys site settings address) := by
  have hend : Indifferent site R apart
      (do
        Hook.require (.writeScript settings.scriptPath) (← Hook.host site
          (.writeFile settings.scriptPath (keyScript settings address).render scriptMode))
        Hook.require (.ownership settings.scriptPath) (← Hook.host site
          (.changeOwner settings.scriptPath settings.user settings.group))
        let _ ← Hook.require .generate (← Hook.host site (.runScript settings.scriptPath))
        Hook.log .debug "tmate_operator::keys" "Key script output"
        Hook.log .info "tmate_operator::keys" "Host keys generated" :
        Hook ω KeyInstallError Unit) := by
    refine .ask_at hw.script rfl fun _ => .ask_at hw.script rfl fun _ => ?_
    exact .ask_at hw.script rfl fun _ => .after_log (.log _ _ _)
  unfold installKeys
  dsimp only
  cases hparent : settings.scriptPath.parent? with
  | none => exact hend
  | some parent => exact .ask_at (hw.parent _ parent hparent hw.script) rfl fun _ => hend

theorem indifferent_reconcile (address : Option Net.Address) :
    Indifferent site R apart (reconcile site settings address) := by
  cases address with
  | none => exact .after_log (.pure _)
  | some address =>
    refine (indifferent_daemonStatus settings).bind fun status => .ite (.pure _) ?_
    refine .after_log ((indifferent_startDaemon hw address).bind fun _ => ?_)
    have hpath : ∀ p ∈ Host.Call.pruneContainers.path?, apart p := by simp [Host.Call.path?]
    have hprune : Indifferent site R apart (removeStoppedContainers site) :=
      (Indifferent.host hpath).bind fun reply => .require id reply
    refine hprune.attempt.bind fun answer => ?_
    cases answer with
    | ok _ => exact .pure _
    | error _ => exact .after_log (.pure _)

omit hw in
theorem indifferent_setStatus (h : Screened site R) (status : Record.Status) :
    Indifferent site R apart (setStatus site status) :=
  (Indifferent.record h (.setStatus status) fun _ => rfl).bind fun reply => .require _ reply

omit hw in
theorem indifferent_enterMaintenance (h : Screened site R) (message : String) :
    Indifferent site R apart (enterMaintenance site message) :=
  .after_log (indifferent_setStatus h _)

/-- If nobody notices that the consumers are told, installing is indifferent. -/
theorem indifferent_install (h : Screened site R) (state : Provision.State)
    (htell : ∀ address, Indifferent site R apart (publishIfReady site settings address)) :
    Indifferent site R apart (install site settings state) := by
  unfold install
  cases state.address with
  | none => exact .after_log (.pure _)
  | some address =>
    refine (indifferent_enterMaintenance h _).bind fun _ => ?_
    refine ((indifferent_installDependencies hw state.proxy).mapError _).onFailure _ _
      |>.bind fun _ => ?_
    refine (indifferent_enterMaintenance h _).bind fun _ => ?_
    refine ((indifferent_installKeys hw address).mapError _).onFailure _ _ |>.bind fun _ => ?_
    refine (indifferent_enterMaintenance h _).bind fun _ => ?_
    refine ((indifferent_startDaemon hw address).mapError _).onFailure _ _ |>.bind fun _ => ?_
    refine (Indifferent.record h (.openPort settings.port) fun _ => rfl).bind fun reply => ?_
    refine (Indifferent.require _ reply).bind fun _ => ?_
    refine (htell address).bind fun _ => ?_
    refine (indifferent_setStatus h .active).bind fun _ => ?_
    exact .after_log (.pure _)

/-- If nobody notices that the consumers are told, updating the status is indifferent. -/
theorem indifferent_updateStatus (h : Screened site R) (state : Provision.State)
    (htell : ∀ address, Indifferent site R apart (publishIfReady site settings address)) :
    Indifferent site R apart (updateStatus site settings state) := by
  unfold updateStatus
  refine ((indifferent_reconcile hw state.address).mapError _).onFailure _ _
    |>.bind fun reconciled => ?_
  cases state.address with
  | none => exact (indifferent_setStatus h _).bind fun _ => .pure _
  | some address =>
    have hend : Indifferent site R apart
        (do
          publishIfReady site settings address
          setStatus site .active
          return .completed : Hook ω HookError Outcome) := by
      refine (htell address).bind fun _ => ?_
      exact (indifferent_setStatus h .active).bind fun _ => .pure _
    dsimp only
    by_cases hr : reconciled = .restarted
    · rw [if_pos hr]
      exact .after_log hend
    · rw [if_neg hr]
      exact hend

end parts

end RelayKeeper
