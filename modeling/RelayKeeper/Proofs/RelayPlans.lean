import RelayKeeper.Hooks.ConsumerJoined
import RelayKeeper.Hooks.Install
import RelayKeeper.Hooks.UpdateStatus
import RelayKeeper.Proofs.HookPlans

/-! # The plans of the relay's parts

What installing, starting, reconciling and publishing do, each told once as a plan. The plan of a
hook is made of those of its parts. -/
namespace RelayKeeper.Hooks

open Relay Hook

variable {ω ε : Type} (site : Site ω) (settings : Settings)

/-! ## Waiting -/

theorem makes_report (reply : Except Host.CommandError Host.CommandOutput) :
    (do
      let output ← require (.statusCommand settings.serviceName) reply
      match DaemonStatus.of? output with
      | some status => pure status
      | none =>
        Hook.log .error daemonComponent "Status check failed"
        fail (.statusCheck settings.serviceName output.code) :
      Hook ω DaemonError DaemonStatus).Makes site fun _ es r =>
        es = [] ∧ r = (report settings.serviceName reply).mapError .failed := by
  intro s
  cases reply with
  | error cause => exact ⟨[], Ran.quiet s s.log, rfl, rfl⟩
  | ok output =>
    simp only [run_bind, require, run_pure, report]
    cases DaemonStatus.of? output with
    | some status => exact ⟨[], Ran.quiet s s.log, rfl, rfl⟩
    | none => exact ⟨[], Ran.quiet s _, rfl, rfl⟩

theorem makes_daemonStatus :
    (daemonStatus site settings).Makes site fun _ es r =>
      ∃ reply, es = [.host (.queryStatus settings.serviceName) reply] ∧
        r = (report settings.serviceName reply).mapError .failed := by
  refine (Makes.after_host (.queryStatus _) fun reply => makes_report site settings reply).mono ?_
  rintro s es r ⟨reply, t, fs, rfl, -, rfl, rfl⟩
  exact ⟨reply, rfl, rfl⟩

theorem makes_isRunning :
    (isRunning site settings).Makes site fun _ es r =>
      ∃ reply, es = [.host (.queryStatus settings.serviceName) reply] ∧
        r = (verdict settings.serviceName reply).mapError .failed := by
  have hpure : ∀ status : DaemonStatus,
      (pure status.running : Hook ω DaemonError Bool).Makes site fun _ es r =>
        es = [] ∧ r = .ok status.running := fun status => .pure fun _ => ⟨rfl, rfl⟩
  refine ((makes_daemonStatus site settings).map hpure).mono ?_
  rintro s es r ⟨part, ⟨reply, rfl, rfl⟩, rfl⟩
  refine ⟨reply, rfl, ?_⟩
  unfold verdict
  cases report settings.serviceName reply <;> rfl

theorem run_isRunning (s : Session ω) :
    ∃ reply t, Ran site s t [.host (.queryStatus settings.serviceName) reply] ∧
      isRunning site settings s = ((verdict settings.serviceName reply).mapError .failed, t) := by
  obtain ⟨es, hr, reply, rfl, hv⟩ := makes_isRunning site settings s
  exact ⟨reply, _, hr, Prod.ext hv rfl⟩

def waitHalt : Except (Halt DaemonError) Wait → Option (Halt DaemonError)
  | .ok .met => none
  | .ok (.timedOut timeout) => some (.failed (.timedOut timeout))
  | .error halt => some halt

def Reaches (deadline : Duration) (n : Nat) (s : Session ω) : Prop :=
  deadline.nanos ≤ s.clock.nanos + n * settings.checkInterval.nanos ∨
    settings.checkInterval.nanos = 0

theorem makes_lastCheck {left : Nat} (hleft : left = 0 ∨ settings.checkInterval.nanos = 0) :
    (lastCheck (isRunning site settings) settings.startupTimeout).Makes site fun _ es r =>
      ∃ error, Polled settings left es error ∧ waitHalt r = error.map .failed := by
  intro s
  obtain ⟨reply, t, hr, hrun⟩ := run_isRunning site settings s
  rw [lastCheck, run_bind, hrun]
  cases hver : verdict settings.serviceName reply with
  | error error => exact ⟨_, hr, some error, .failed hver, rfl⟩
  | ok up =>
    cases up with
    | true => exact ⟨_, hr, none, .met hver, rfl⟩
    | false => exact ⟨_, hr, some _, .inVain hver hleft, rfl⟩

theorem reaches_paused {deadline : Duration} {n : Nat} {s t : Session ω}
    (hlt : s.clock.nanos < deadline.nanos) (h : Reaches settings deadline (n + 1) s)
    (ht : t.clock.nanos = s.clock.nanos +
      min settings.checkInterval.nanos (deadline.nanos - s.clock.nanos)) :
    Reaches settings deadline n t := by
  rcases h with h | h
  · left
    rw [Nat.succ_mul] at h
    omega
  · exact .inr h

def paused (duration : Duration) (s : Session ω) : Session ω :=
  { s with clock := s.clock.add duration, trace := s.trace ++ [.slept duration] }

theorem ran_paused (duration : Duration) (s : Session ω) :
    Ran site s (paused duration s) [.slept duration] :=
  ⟨rfl, .cons (.slept duration s.world) (.nil _), rfl⟩

/-- A round before the deadline is a check, and a pause if the check does not hold. -/
theorem run_pollUntil {check : Hook ω ε Bool} {timeout interval deadline : Duration} {s : Session ω}
    (n : Nat) (h : s.clock.nanos < deadline.nanos) :
    pollUntil check timeout interval deadline (n + 1) s =
      match check s with
      | (.ok true, t) => (.ok .met, t)
      | (.ok false, t) => pollUntil check timeout interval deadline n
          (paused (interval.min (deadline.sub t.clock)) t)
      | (.error halt, t) => (.error halt, t) := by
  rw [pollUntil, run_bind]
  simp only [now, if_pos h]
  rw [run_bind]
  rcases check s with ⟨halt | up, t⟩
  · rfl
  · cases up <;> rfl

theorem run_pollUntil_late {check : Hook ω ε Bool} {timeout interval deadline : Duration}
    {s : Session ω} (n : Nat) (h : ¬ s.clock.nanos < deadline.nanos) :
    pollUntil check timeout interval deadline n s = lastCheck check timeout s := by
  cases n with
  | zero => rfl
  | succ n =>
    rw [pollUntil, run_bind]
    simp only [now, if_neg h]

theorem makes_pollUntil (deadline : Duration) (n : Nat) :
    (pollUntil (isRunning site settings) settings.startupTimeout settings.checkInterval deadline
      n).Makes site
      fun s es r => Reaches settings deadline n s →
        ∃ error, Polled settings (deadline.nanos - s.clock.nanos) es error ∧
          waitHalt r = error.map .failed := by
  -- Induction on the rounds. A pause moves the clock by what a round counts for, so that the last
  -- round is not before the deadline.
  induction n with
  | zero =>
    intro s
    by_cases hreach : Reaches settings deadline 0 s
    · have hleft : deadline.nanos - s.clock.nanos = 0 ∨ settings.checkInterval.nanos = 0 := by
        rcases hreach with h | h
        · left
          omega
        · exact .inr h
      obtain ⟨es, hr, hp⟩ := makes_lastCheck site settings hleft s
      exact ⟨es, hr, fun _ => hp⟩
    · obtain ⟨es, hr, -⟩ := makes_lastCheck site settings (.inl rfl) s
      exact ⟨es, hr, fun h => absurd h hreach⟩
  | succ n ih =>
    intro s
    by_cases hlt : s.clock.nanos < deadline.nanos
    · obtain ⟨reply, t, hr, hrun⟩ := run_isRunning site settings s
      rw [run_pollUntil n hlt, hrun]
      have hclock : t.clock.nanos = s.clock.nanos := hr.clock
      cases hver : verdict settings.serviceName reply with
      | error error => exact ⟨_, hr, fun _ => ⟨some error, .failed hver, rfl⟩⟩
      | ok up =>
        cases up with
        | true => exact ⟨_, hr, fun _ => ⟨none, .met hver, rfl⟩⟩
        | false =>
          have hpause : settings.checkInterval.min (deadline.sub t.clock) =
              ⟨min settings.checkInterval.nanos (deadline.nanos - s.clock.nanos)⟩ := by
            rw [← hclock]
            rfl
          obtain ⟨fs, hr', hp⟩ := ih (paused (settings.checkInterval.min (deadline.sub t.clock)) t)
          refine ⟨_, (hr.trans (ran_paused site _ t)).trans hr', fun hreach => ?_⟩
          have hnext : (paused (settings.checkInterval.min (deadline.sub t.clock)) t).clock.nanos =
              s.clock.nanos +
                min settings.checkInterval.nanos (deadline.nanos - s.clock.nanos) := by
            rw [← hclock]
            rfl
          obtain ⟨error, hpolled, hhalt⟩ := hp (reaches_paused settings hlt hreach hnext)
          refine ⟨error, ?_, hhalt⟩
          rw [hpause]
          refine .again hver (by omega) ?_
          rw [hnext, Nat.sub_add_eq] at hpolled
          exact hpolled
    · rw [run_pollUntil_late (n + 1) hlt]
      have hleft : deadline.nanos - s.clock.nanos = 0 := by omega
      obtain ⟨es, hr, hp⟩ := makes_lastCheck site settings (.inl hleft) s
      exact ⟨es, hr, fun _ => hp⟩

theorem le_rounds_mul {timeout interval : Duration} (h : interval.nanos ≠ 0) :
    timeout.nanos ≤ rounds timeout interval * interval.nanos := by
  have hdiv := Nat.div_add_mod (timeout.nanos + interval.nanos - 1) interval.nanos
  have hmod := Nat.mod_lt (timeout.nanos + interval.nanos - 1) (Nat.pos_of_ne_zero h)
  rw [rounds, if_neg h, Nat.mul_comm]
  omega

theorem run_poll_abandon {check : Hook ω ε Bool} {timeout interval : Duration} {s : Session ω}
    (h : (Duration.ofSeconds clockRange).nanos ≤ (s.clock.add timeout).nanos) :
    poll check timeout interval s = (.error .abandoned, s) := by
  rw [poll, run_bind]
  simp only [now]
  rw [if_pos h]
  rfl

theorem run_poll {check : Hook ω ε Bool} {timeout interval : Duration} {s : Session ω}
    (h : ¬ (Duration.ofSeconds clockRange).nanos ≤ (s.clock.add timeout).nanos) :
    poll check timeout interval s =
      pollUntil check timeout interval (s.clock.add timeout) (rounds timeout interval) s := by
  rw [poll, run_bind]
  simp only [now]
  rw [if_neg h]

theorem makes_poll :
    (poll (isRunning site settings) settings.startupTimeout settings.checkInterval).Makes site
      fun s es r => (Step.wait settings id).Goes site s es (waitHalt r) := by
  intro s
  by_cases hc : (Duration.ofSeconds clockRange).nanos ≤
      (s.clock.add settings.startupTimeout).nanos
  · rw [run_poll_abandon hc]
    exact ⟨[], Ran.quiet s s.log, .abandon hc⟩
  · rw [run_poll hc]
    have hreach : Reaches settings (s.clock.add settings.startupTimeout)
        (rounds settings.startupTimeout settings.checkInterval) s := by
      by_cases hi : settings.checkInterval.nanos = 0
      · exact .inr hi
      · left
        exact Nat.add_le_add_left (le_rounds_mul hi) s.clock.nanos
    obtain ⟨es, hr, hp⟩ := makes_pollUntil site settings (s.clock.add settings.startupTimeout)
      (rounds settings.startupTimeout settings.checkInterval) s
    obtain ⟨error, hpolled, hhalt⟩ := hp hreach
    have hleft : (s.clock.add settings.startupTimeout).nanos - s.clock.nanos =
        settings.startupTimeout.nanos := Nat.add_sub_cancel_left ..
    rw [hleft] at hpolled
    have hgoes : (Step.wait settings id).Goes site s es ((error.map id).map .failed) :=
      .wait (Nat.not_le.mp hc) hpolled
    rw [Option.map_id, id_eq, ← hhalt] at hgoes
    exact ⟨es, hr, hgoes⟩

/-- A wait for the unit is a step, however it is done. -/
theorem Follows.wait {site : Site ω} {settings : Settings} {x : Hook ω DaemonError Wait}
    (h : x.Makes site fun s es r =>
      (Step.wait settings id).Goes site s es (waitHalt r)) :
    Follows site
      (do
        match ← x with
        | .met => Hook.log .info daemonComponent "Daemon is running"
        | .timedOut timeout => fail (.timedOut timeout))
      [.wait settings id] := by
  intro s
  obtain ⟨es, hr, hgoes⟩ := h s
  rw [run_bind]
  rcases hx : x s with ⟨halt | wait, t⟩
  · rw [hx] at hr hgoes
    exact ⟨es, hr, Cut.single hgoes hr⟩
  · rw [hx] at hr hgoes
    cases wait with
    | met => exact ⟨es, hr.logs _, Cut.single hgoes hr⟩
    | timedOut timeout => exact ⟨es, hr, Cut.single hgoes hr⟩

theorem follows_wait (site : Site ω) (settings : Settings) :
    Follows site
      (do
        match ← poll (isRunning site settings) settings.startupTimeout settings.checkInterval with
        | .met => Hook.log .info daemonComponent "Daemon is running"
        | .timedOut timeout => fail (.timedOut timeout))
      [.wait settings id] :=
  Follows.wait (makes_poll site settings)

/-! ## The daemon -/

def daemonCalls (address : Net.Address) : List (Step DaemonError) :=
  [.ask (.writeFile settings.unitPath (serviceUnit settings address).render unitFileMode)
      fun reply => refusal (.writeUnit settings.unitPath) reply,
    .ask .reloadSupervisor fun reply => refusal .reload reply,
    .ask (.enableUnit settings.serviceName) fun reply =>
      refusal (.enable settings.serviceName) reply,
    .ask (.restartUnit settings.serviceName) fun reply =>
      refusal (.start settings.serviceName) reply]

def daemonPlan (address : Net.Address) : List (Step DaemonError) :=
  daemonCalls settings address ++ [.wait settings id]

theorem follows_startDaemon (address : Net.Address) :
    Follows site (startDaemon site settings address) (daemonPlan settings address) := by
  have hwrite : Follows site (writeUnit site settings address)
      [.ask (.writeFile settings.unitPath (serviceUnit settings address).render unitFileMode)
        fun reply => refusal (.writeUnit settings.unitPath) reply] :=
    Follows.after_ask fun _ => Follows.log _ _ _
  refine hwrite.bind fun _ => ?_
  refine Follows.after_ask fun _ => ?_
  refine Follows.after_ask fun _ => ?_
  refine Follows.after_ask fun _ => ?_
  refine Follows.after_log ?_
  exact follows_wait site settings

/-! ## Dependencies and keys -/

def parentPlan (path : Path) (failure : Fault → ε) : List (Step ε) :=
  match path.parent? with
  | none => []
  | some parent => [.ask (.createDirectories parent) fun reply => refusal failure reply]

def proxyPlan (proxy : Provision.ProxyConfig) : List (Step DependencyError) :=
  parentPlan settings.dockerDaemonConfig (.proxyConfig settings.dockerDaemonConfig) ++
    [.ask (.writeFile settings.dockerDaemonConfig (Document.runtimeProxy proxy) proxyConfigMode)
      fun reply => refusal (.proxyConfig settings.dockerDaemonConfig) reply]

def packagePlan (packages : List String) : List (Step DependencyError) :=
  packages.map fun package =>
    .ask (.installPackage package) fun reply => refusal (.install package) reply

def dependencyPlan (proxy : Option Provision.ProxyConfig) : List (Step DependencyError) :=
  [.ask .refreshIndex fun reply => refusal .update reply] ++
    (proxy.elim [] (proxyPlan settings) ++ (packagePlan settings.packages ++
      [.ask (.ensureGroup settings.runtimeGroup) fun reply =>
          refusal (.runtimeGroup settings.user settings.runtimeGroup) reply,
        .ask (.addToGroup settings.user settings.runtimeGroup) fun reply =>
          refusal (.runtimeGroup settings.user settings.runtimeGroup) reply]))

def keyPlan (address : Net.Address) : List (Step KeyInstallError) :=
  parentPlan settings.scriptPath (.writeScript settings.scriptPath) ++
    [.ask (.writeFile settings.scriptPath (keyScript settings address).render scriptMode)
        fun reply => refusal (.writeScript settings.scriptPath) reply,
      .ask (.changeOwner settings.scriptPath settings.user settings.group) fun reply =>
        refusal (.ownership settings.scriptPath) reply,
      .ask (.runScript settings.scriptPath) fun reply => refusal .generate reply]

theorem exists_of_mem_parentPlan {path : Path} {failure : Fault → ε} {step : Step ε}
    (h : step ∈ parentPlan path failure) :
    ∃ parent, step = .ask (.createDirectories parent) fun reply => refusal failure reply := by
  unfold parentPlan at h
  cases hparent : path.parent? with
  | none =>
    rw [hparent] at h
    cases h
  | some parent =>
    rw [hparent] at h
    exact ⟨parent, List.mem_singleton.mp h⟩

inductive DependencyStep : Step DependencyError → Prop where
  | refresh : DependencyStep (.ask .refreshIndex fun reply => refusal .update reply)
  | directory (parent : Path) : DependencyStep (.ask (.createDirectories parent) fun reply =>
      refusal (.proxyConfig settings.dockerDaemonConfig) reply)
  | proxies (proxy : Provision.ProxyConfig) : DependencyStep (.ask
      (.writeFile settings.dockerDaemonConfig (Document.runtimeProxy proxy) proxyConfigMode)
        fun reply => refusal (.proxyConfig settings.dockerDaemonConfig) reply)
  | package (package : String) : DependencyStep (.ask (.installPackage package) fun reply =>
      refusal (.install package) reply)
  | group : DependencyStep (.ask (.ensureGroup settings.runtimeGroup) fun reply =>
      refusal (.runtimeGroup settings.user settings.runtimeGroup) reply)
  | member : DependencyStep (.ask (.addToGroup settings.user settings.runtimeGroup) fun reply =>
      refusal (.runtimeGroup settings.user settings.runtimeGroup) reply)

theorem dependencyStep_of_mem {proxy : Option Provision.ProxyConfig} {step : Step DependencyError}
    (h : step ∈ dependencyPlan settings proxy) : DependencyStep settings step := by
  simp only [dependencyPlan, packagePlan, List.mem_append, List.mem_map, List.mem_cons,
    List.not_mem_nil, or_false] at h
  rcases h with rfl | h | ⟨package, -, rfl⟩ | rfl | rfl
  · exact .refresh
  · cases proxy with
    | none => cases h
    | some proxy =>
      rcases List.mem_append.mp h with h | h
      · obtain ⟨parent, rfl⟩ := exists_of_mem_parentPlan h
        exact .directory parent
      · obtain rfl := List.mem_singleton.mp h
        exact .proxies proxy
  · exact .package package
  · exact .group
  · exact .member

inductive KeyStep (address : Net.Address) : Step KeyInstallError → Prop where
  | directory (parent : Path) : KeyStep address (.ask (.createDirectories parent) fun reply =>
      refusal (.writeScript settings.scriptPath) reply)
  | script : KeyStep address (.ask
      (.writeFile settings.scriptPath (keyScript settings address).render scriptMode)
        fun reply => refusal (.writeScript settings.scriptPath) reply)
  | owner : KeyStep address (.ask
      (.changeOwner settings.scriptPath settings.user settings.group) fun reply =>
        refusal (.ownership settings.scriptPath) reply)
  | run : KeyStep address (.ask (.runScript settings.scriptPath) fun reply =>
      refusal .generate reply)

theorem keyStep_of_mem {address : Net.Address} {step : Step KeyInstallError}
    (h : step ∈ keyPlan settings address) : KeyStep settings address step := by
  rcases List.mem_append.mp h with h | h
  · obtain ⟨parent, rfl⟩ := exists_of_mem_parentPlan h
    exact .directory parent
  · simp only [List.mem_cons, List.not_mem_nil, or_false] at h
    rcases h with rfl | rfl | rfl
    · exact .script
    · exact .owner
    · exact .run

def Step.IsAsk : Step ε → Prop
  | .ask .. => True
  | _ => False

def OnlyAsks (plan : List (Step ε)) : Prop :=
  ∀ step ∈ plan, step.IsAsk

namespace OnlyAsks

variable {δ : Type}

theorem map {plan : List (Step δ)} (h : OnlyAsks plan) {f : δ → ε} :
    OnlyAsks (plan.map (Step.map f)) := by
  intro step hstep
  obtain ⟨old, hold, rfl⟩ := List.mem_map.mp hstep
  cases old with
  | ask _ _ => trivial
  | note _ _ | wait _ _ | tell _ _ => exact (h _ hold).elim

theorem not_note {plan : List (Step ε)} (h : OnlyAsks plan) {call : Record.Call}
    {failure : call.Reply → Option ε} : .note call failure ∉ plan :=
  fun hmem => h _ hmem

end OnlyAsks

theorem onlyAsks_dependencyPlan (proxy : Option Provision.ProxyConfig) :
    OnlyAsks (dependencyPlan settings proxy) := by
  intro step hstep
  cases dependencyStep_of_mem settings hstep <;> trivial

theorem onlyAsks_keyPlan (address : Net.Address) : OnlyAsks (keyPlan settings address) := by
  intro step hstep
  cases keyStep_of_mem settings hstep <;> trivial

theorem onlyAsks_daemonCalls (address : Net.Address) : OnlyAsks (daemonCalls settings address) := by
  simp [OnlyAsks, daemonCalls, Step.IsAsk]

theorem follows_writeProxyConfig (proxy : Provision.ProxyConfig) :
    Follows site (writeProxyConfig site settings proxy) (proxyPlan settings proxy) := by
  unfold writeProxyConfig proxyPlan parentPlan
  dsimp only
  cases settings.dockerDaemonConfig.parent? with
  | none => exact Follows.after_ask fun _ => Follows.log _ _ _
  | some parent => exact Follows.after_ask fun _ => Follows.after_ask fun _ => Follows.log _ _ _

theorem follows_installPackages (packages : List String) :
    Follows site (installPackages site packages) (packagePlan packages) := by
  induction packages with
  | nil => exact Follows.value ()
  | cons package packages ih => exact Follows.after_ask fun _ => ih

theorem follows_installDependencies (proxy : Option Provision.ProxyConfig) :
    Follows site (installDependencies site settings proxy) (dependencyPlan settings proxy) := by
  have hend : ∀ failed, Follows site
      (do
        installPackages site settings.packages
        Hook.require failed (← Hook.host site (.ensureGroup settings.runtimeGroup))
        Hook.require failed
          (← Hook.host site (.addToGroup settings.user settings.runtimeGroup))
        Hook.log .info dependencyComponent "Dependencies installed")
      (packagePlan settings.packages ++
        [.ask (.ensureGroup settings.runtimeGroup) fun reply => refusal failed reply,
          .ask (.addToGroup settings.user settings.runtimeGroup) fun reply =>
            refusal failed reply]) := by
    intro failed
    refine (follows_installPackages site settings.packages).bind fun _ => ?_
    refine Follows.after_ask fun _ => ?_
    exact Follows.after_ask fun _ => Follows.log _ _ _
  refine Follows.after_ask fun _ => ?_
  cases proxy with
  | none => exact hend _
  | some proxy => exact (follows_writeProxyConfig site settings proxy).bind fun _ => hend _

theorem follows_installKeys (address : Net.Address) :
    Follows site (installKeys site settings address) (keyPlan settings address) := by
  have hend : Follows site
      (do
        Hook.require (.writeScript settings.scriptPath) (← Hook.host site
          (.writeFile settings.scriptPath (keyScript settings address).render scriptMode))
        Hook.require (.ownership settings.scriptPath) (← Hook.host site
          (.changeOwner settings.scriptPath settings.user settings.group))
        let _ ← Hook.require .generate (← Hook.host site (.runScript settings.scriptPath))
        Hook.log .debug "tmate_operator::keys" "Key script output"
        Hook.log .info "tmate_operator::keys" "Host keys generated" : Hook ω KeyInstallError Unit)
      [.ask (.writeFile settings.scriptPath (keyScript settings address).render scriptMode)
          fun reply => refusal (.writeScript settings.scriptPath) reply,
        .ask (.changeOwner settings.scriptPath settings.user settings.group) fun reply =>
          refusal (.ownership settings.scriptPath) reply,
        .ask (.runScript settings.scriptPath) fun reply => refusal .generate reply] := by
    refine Follows.after_ask fun _ => ?_
    refine Follows.after_ask fun _ => ?_
    refine Follows.after_ask fun _ => ?_
    exact Follows.after_log (Follows.log _ _ _)
  unfold installKeys keyPlan parentPlan
  dsimp only
  cases settings.scriptPath.parent? with
  | none => exact hend
  | some parent => exact Follows.after_ask fun _ => hend

/-! ## The consumers -/

theorem makes_updateAll (data : Record.Bag) (ids : List String) :
    (updateAll site data ids : Hook ω ε Nat).Makes site fun _ es r =>
      Spread data ids es ∧ ∃ n, r = .ok n := by
  induction ids with
  | nil => exact .pure fun _ => ⟨.nil, 0, rfl⟩
  | cons id ids ih =>
    refine (Makes.after_record (.updateRelation id data)
      (Q := fun _ _ es r => Spread data ids es ∧ ∃ n, r = .ok n) ?_).mono ?_
    · intro reply
      cases reply with
      | ok _ =>
        refine (ih.map (g := (· + 1)) fun n => .pure fun _ => ⟨rfl, rfl⟩).mono ?_
        rintro s es r ⟨_, ⟨hspread, n, rfl⟩, rfl⟩
        exact ⟨hspread, n + 1, rfl⟩
      | error _ => exact Makes.after_logAll (ih.mono fun _ _ _ h _ => h)
    · rintro s es r ⟨reply, t, fs, rfl, -, hspread, hn⟩
      exact ⟨.cons reply hspread, hn⟩

theorem makes_publish (profile : Record.Profile) :
    (publish site profile : Hook ω ε Nat).Makes site fun _ es r =>
      Announced profile.bag es ∧ ∃ n, r = .ok n := by
  refine (Makes.after_record .relations (Q := fun reply _ es r => (match reply with
      | .error _ => es = []
      | .ok ids => Spread profile.bag ids es) ∧ ∃ n, r = .ok n) ?_).mono ?_
  · intro reply
    cases reply with
    | error error => exact Makes.after_log (.pure fun _ _ => ⟨rfl, 0, rfl⟩)
    | ok ids =>
      cases ids with
      | nil => exact Makes.after_log (.pure fun _ _ => ⟨.nil, 0, rfl⟩)
      | cons id ids =>
        refine ((makes_updateAll site profile.bag (id :: ids)).map (g := fun n => n)
          fun n => Makes.after_log (.pure fun _ _ => ⟨rfl, rfl⟩)).mono ?_
        rintro s es r ⟨_, ⟨hspread, n, rfl⟩, rfl⟩
        exact ⟨hspread, n, rfl⟩
  · rintro s es r ⟨reply, t, fs, rfl, -, hes, hn⟩
    cases reply with
    | error error =>
      obtain rfl : fs = [] := hes
      exact ⟨.unknown error, hn⟩
    | ok ids => exact ⟨.everyone hes, hn⟩

theorem run_files (s : Session ω) :
    (files site : Hook ω ε FileTree) s = (.ok (site.files s.world), s) := rfl

/-- Publishing comes to an end of its own, so that a hook goes on after it. -/
theorem makes_publish_then (profile : Record.Profile) {β : Type} (b : β) :
    (publish site profile >>= fun _ => pure b : Hook ω ε β).Makes site fun _ es r =>
      Announced profile.bag es ∧ r = .ok b := by
  have hpure : ∀ _ : Nat, (pure b : Hook ω ε β).Makes site fun _ es r => es = [] ∧ r = .ok b :=
    fun _ => .pure fun _ => ⟨rfl, rfl⟩
  refine ((makes_publish site profile).map hpure).mono ?_
  rintro s es r ⟨_, ⟨hes, n, rfl⟩, rfl⟩
  exact ⟨hes, rfl⟩

theorem follows_publishIfReady (address : Net.Address) :
    Follows site (publishIfReady site settings address) [.tell settings address] := by
  intro s
  unfold publishIfReady
  rw [run_bind, run_files]
  dsimp only
  cases hf : fingerprints settings (site.files s.world) with
  | error cause =>
    have ht : Told settings address (site.files s.world) [] := .nothing (by simp [hf])
    exact ⟨[], Ran.quiet s _, Cut.single (.tell ht) (Ran.quiet s s.log)⟩
  | ok readiness =>
    cases readiness with
    | notReady missing =>
      have ht : Told settings address (site.files s.world) [] := .nothing (by simp [hf])
      exact ⟨[], Ran.quiet s _, Cut.single (.tell ht) (Ran.quiet s s.log)⟩
    | ready fingerprints =>
      obtain ⟨es, hr, ha, hok⟩ := makes_publish_then site (ε := HookError)
        (.of address settings.port fingerprints) () s
      have ht : Told settings address (site.files s.world) es := .profile hf ha
      refine ⟨es, hr, ?_⟩
      rw [hok]
      exact Cut.single (.tell ht) hr

/-! ## Reconciling -/

/-- How reconciling an address may go: the unit is queried, and started again only if the answer is
that it does not run. Whether the containers can be cleaned up does not matter. -/
inductive Reconciles (address : Net.Address) (s : Session ω) :
    List Event → Except (Halt DaemonError) Reconciled → Prop where
  | unknown {reply error} : verdict settings.serviceName reply = .error error →
      Reconciles address s [.host (.queryStatus settings.serviceName) reply]
        (.error (.failed error))
  | running {reply} : verdict settings.serviceName reply = .ok true →
      Reconciles address s [.host (.queryStatus settings.serviceName) reply] (.ok .running)
  | restart {reply t es r} : verdict settings.serviceName reply = .ok false →
      Ran site s t [.host (.queryStatus settings.serviceName) reply] →
      Cut site (daemonPlan settings address ++ [.ask .pruneContainers fun _ => none]) t es
        (haltOf r) →
      Reconciles address s (.host (.queryStatus settings.serviceName) reply :: es) r

theorem Reconciles.no_record {site : Site ω} {settings : Settings} {address : Net.Address}
    {s : Session ω} {es : List Event} {r : Except (Halt DaemonError) Reconciled}
    (h : Reconciles site settings address s es r) {call : Record.Call} {reply : call.Reply} :
    .record call reply ∉ es := by
  intro he
  cases h with
  | unknown _ | running _ => cases List.mem_singleton.mp he
  | restart _ _ hc =>
    rcases List.mem_cons.mp he with he | he
    · cases he
    · obtain ⟨failure, hmem⟩ := hc.of_record he (by simp [daemonPlan, daemonCalls])
      simp [daemonPlan, daemonCalls] at hmem

theorem follows_cleanUp :
    Follows site
      (do
        match ← Hook.attempt (removeStoppedContainers site) with
        | .ok _ => return .restarted
        | .error _ =>
          Hook.log .error reconcileComponent "Failed to clean up stopped containers"
          return .restarted : Hook ω DaemonError Reconciled)
      [.ask .pruneContainers fun _ => none] := by
  have hquiet : ∀ answer : Except Host.CommandError Unit,
      (match answer with
        | .ok _ => return .restarted
        | .error _ => do
          Hook.log .error reconcileComponent "Failed to clean up stopped containers"
          return .restarted : Hook ω DaemonError Reconciled).Makes site fun _ es r =>
        es = [] ∧ r = .ok .restarted := by
    intro answer
    cases answer with
    | ok _ => exact .pure fun _ => ⟨rfl, rfl⟩
    | error _ => exact Makes.after_log (.pure fun _ _ => ⟨rfl, rfl⟩)
  have hprune : (removeStoppedContainers site).Makes site fun _ es r =>
      ∃ reply, es = [.host .pruneContainers reply] ∧ r = reply.mapError .failed := by
    refine (Makes.after_host .pruneContainers fun reply => makes_require site id reply).mono ?_
    rintro s es r ⟨reply, t, fs, rfl, -, rfl, rfl⟩
    exact ⟨reply, rfl, rfl⟩
  refine Makes.bind hprune.attempt hquiet ?_ ?_
  · rintro s t es fs a r hes hr ⟨rfl, rfl⟩
    have hprunes : ∃ reply, es = [.host .pruneContainers reply] := by
      rcases hes with ⟨_, ⟨reply, h, -⟩, -⟩ | ⟨_, ⟨reply, h, -⟩, -⟩ | ⟨-, h⟩
      · exact ⟨reply, h⟩
      · exact ⟨reply, h⟩
      · cases h
    obtain ⟨reply, rfl⟩ := hprunes
    rw [List.append_nil]
    exact Cut.single (.ask reply) hr
  · rintro s es halt (⟨_, -, h⟩ | ⟨_, -, h⟩ | ⟨⟨reply, -, h⟩, -⟩)
    · cases h
    · cases h
    · cases reply <;> cases h

theorem follows_restart (address : Net.Address) :
    Follows site
      (do
        Hook.log .warn reconcileComponent "Daemon not running, restarting"
        startDaemon site settings address
        match ← Hook.attempt (removeStoppedContainers site) with
        | .ok _ => return .restarted
        | .error _ =>
          Hook.log .error reconcileComponent "Failed to clean up stopped containers"
          return .restarted : Hook ω DaemonError Reconciled)
      (daemonPlan settings address ++ [.ask .pruneContainers fun _ => none]) :=
  Follows.after_log ((follows_startDaemon site settings address).bind fun _ => follows_cleanUp site)

theorem makes_reconcile (address : Net.Address) :
    (reconcile site settings (some address)).Makes site fun s es r =>
      Reconciles site settings address s es r := by
  refine Makes.bind (Q := fun status s es r => (status.running = true → es = [] ∧
      r = .ok .running) ∧ (status.running = false →
        Cut site (daemonPlan settings address ++ [.ask .pruneContainers fun _ => none]) s es
          (haltOf r)))
    (makes_daemonStatus site settings) ?_ ?_ ?_
  · intro status
    cases hup : status.running with
    | true =>
      rw [if_pos rfl]
      exact .pure fun _ => ⟨fun _ => ⟨rfl, rfl⟩, nofun⟩
    | false =>
      rw [if_neg nofun]
      exact (follows_restart site settings address).mono fun _ _ _ h => ⟨nofun, fun _ => h⟩
  · rintro s t es fs status r ⟨reply, rfl, hs⟩ hr ⟨hup, hdown⟩
    have hverdict : verdict settings.serviceName reply = .ok status.running := by
      unfold verdict
      cases hrep : report settings.serviceName reply with
      | error error =>
        rw [hrep] at hs
        cases hs
      | ok told =>
        rw [hrep] at hs
        obtain rfl := Except.ok.inj hs
        rfl
    cases hrunning : status.running with
    | true =>
      rw [hrunning] at hverdict
      obtain ⟨rfl, rfl⟩ := hup hrunning
      exact .running hverdict
    | false =>
      rw [hrunning] at hverdict
      exact .restart hverdict hr (hdown hrunning)
  · rintro s es halt ⟨reply, rfl, hs⟩
    cases hrep : report settings.serviceName reply with
    | error error =>
      rw [hrep] at hs
      obtain rfl := Except.error.inj hs
      refine .unknown ?_
      rw [verdict, hrep]
      rfl
    | ok told =>
      rw [hrep] at hs
      cases hs

theorem makes_reconcile_none :
    (reconcile site settings none).Makes site fun _ es r => es = [] ∧ r = .ok .unbound :=
  Makes.after_log (.pure fun _ _ => ⟨rfl, rfl⟩)

/-! ## The hooks -/

def statusStep (status : Record.Status) : Step HookError :=
  .note (.setStatus status) fun reply => refusal .record reply

theorem follows_setStatus (status : Record.Status) :
    Follows site (setStatus site status) [statusStep status] :=
  Follows.note

theorem follows_enterMaintenance (message : String) :
    Follows site (enterMaintenance site message) [statusStep (.maintenance message)] :=
  Follows.after_log (follows_setStatus site _)

def provisionPlan (address : Net.Address) (proxy : Option Provision.ProxyConfig) :
    List (Step HookError) :=
  [statusStep (.maintenance "Installing packages.")] ++
    ((dependencyPlan settings proxy).map (Step.map .dependencies) ++
    ([statusStep (.maintenance "Generating keys.")] ++
    ((keyPlan settings address).map (Step.map .keys) ++
    ([statusStep (.maintenance "Starting tmate-ssh-server daemon.")] ++
    (daemonPlan settings address).map (Step.map .daemon)))))

/-- Provisioning asks the host, waits for the daemon and says how far it is. -/
theorem cases_provisionPlan {address : Net.Address} {proxy : Option Provision.ProxyConfig}
    {step : Step HookError} (h : step ∈ provisionPlan settings address proxy) :
    step.IsAsk ∨ (∃ failure, step = .wait settings failure) ∨
      ∃ message, step = statusStep (.maintenance message) := by
  simp only [provisionPlan, daemonPlan, List.map_append, List.mem_append, List.mem_singleton] at h
  rcases h with rfl | h | rfl | h | rfl | h | h
  · exact .inr (.inr ⟨_, rfl⟩)
  · exact .inl ((onlyAsks_dependencyPlan settings proxy).map step h)
  · exact .inr (.inr ⟨_, rfl⟩)
  · exact .inl ((onlyAsks_keyPlan settings address).map step h)
  · exact .inr (.inr ⟨_, rfl⟩)
  · exact .inl ((onlyAsks_daemonCalls settings address).map step h)
  · exact .inr (.inl ⟨_, List.mem_singleton.mp h⟩)

theorem note_of_mem_provisionPlan {address : Net.Address} {proxy : Option Provision.ProxyConfig}
    {call : Record.Call} {failure : call.Reply → Option HookError}
    (h : .note call failure ∈ provisionPlan settings address proxy) :
    ∃ message, Step.note call failure = statusStep (.maintenance message) := by
  rcases cases_provisionPlan settings h with h | ⟨_, h⟩ | h
  · exact h.elim
  · cases h
  · exact h

/-- All that the record is told while provisioning is how far it is. -/
theorem record_of_provisionPlan {site : Site ω} {s : Session ω} {es : List Event}
    {halt : Option (Halt HookError)} {address : Net.Address} {proxy : Option Provision.ProxyConfig}
    (h : Cut site (provisionPlan settings address proxy) s es halt) {call : Record.Call}
    {reply : call.Reply} (he : .record call reply ∈ es) :
    ∃ message, call = .setStatus (.maintenance message) := by
  have htell : ∀ settings' address', Step.tell settings' address' ∉
      provisionPlan settings address proxy := by
    intro settings' address' hmem
    rcases cases_provisionPlan settings hmem with h | ⟨_, h⟩ | ⟨_, h⟩
    · exact h.elim
    · cases h
    · cases h
  obtain ⟨failure, hnote⟩ := h.of_record he htell
  obtain ⟨message, heq⟩ := note_of_mem_provisionPlan settings hnote
  injection heq with hcall
  exact ⟨message, hcall⟩

def openingPlan (address : Net.Address) : List (Step HookError) :=
  [.note (.openPort settings.port) fun reply => refusal .record reply,
    .tell settings address,
    statusStep .active]

theorem follows_install {state : Provision.State} {address : Net.Address}
    (h : state.address = some address) :
    Follows site (install site settings state)
      (provisionPlan settings address state.proxy ++ openingPlan settings address) := by
  have hopen : Follows site
      (do
        Hook.require .record (← Hook.record site (.openPort settings.port))
        publishIfReady site settings address
        setStatus site .active
        Hook.log .info component "Install complete"
        return .completed : Hook ω HookError Outcome)
      (openingPlan settings address) := by
    refine Follows.after_note fun _ => ?_
    refine (follows_publishIfReady site settings address).bind fun _ => ?_
    refine (follows_setStatus site .active).bind fun _ => ?_
    exact Follows.after_log (Follows.value _)
  unfold install provisionPlan
  rw [h]
  simp only [List.append_assoc]
  refine (follows_enterMaintenance site _).bind fun _ => ?_
  refine ((follows_installDependencies site settings state.proxy).mapError _).onFailure
    _ _ |>.bind fun _ => ?_
  refine (follows_enterMaintenance site _).bind fun _ => ?_
  refine ((follows_installKeys site settings address).mapError _).onFailure _ _ |>.bind fun _ => ?_
  refine (follows_enterMaintenance site _).bind fun _ => ?_
  refine ((follows_startDaemon site settings address).mapError _).onFailure _ _ |>.bind fun _ => ?_
  exact hopen

theorem makes_install_unbound {state : Provision.State} (h : state.address = none) :
    (install site settings state).Makes site fun _ es r =>
      es = [] ∧ r = .ok (.deferred Query.addressNotReady) := by
  unfold install
  rw [h]
  exact Makes.after_log (.pure fun _ _ => ⟨rfl, rfl⟩)

def updatingPlan (address : Net.Address) : List (Step HookError) :=
  [.tell settings address, statusStep .active]

inductive Updates (s : Session ω) :
    Option Net.Address → List Event → Option (Halt HookError) → Prop where
  | waiting {es halt} : Cut site [statusStep (.waiting Query.addressNotReady)] s es halt →
      Updates s none es halt
  | unreconciled {address es halt} : Reconciles site settings address s es (.error halt) →
      Updates s (some address) es (some (halt.map .daemon))
  | reconciled {address t es reconciled fs halt} :
      Reconciles site settings address s es (.ok reconciled) → Ran site s t es →
      Cut site (updatingPlan settings address) t fs halt →
      Updates s (some address) (es ++ fs) halt

theorem makes_updateStatus (state : Provision.State) :
    (updateStatus site settings state).Makes site fun s es r =>
      Updates site settings s state.address es (haltOf r) := by
  unfold updateStatus
  cases state.address with
  | none =>
    refine Makes.bind
      (((makes_reconcile_none site settings).mapError HookError.daemon).onFailure _ _)
      (fun _ => (follows_setStatus site _).bind fun _ => Follows.value _) ?_ ?_
    · rintro s t es fs reconciled r ⟨_, ⟨rfl, rfl⟩, -⟩ hr hc
      exact .waiting (hc.of_quiet hr)
    · rintro s es halt ⟨_, ⟨-, rfl⟩, h⟩
      cases h
  | some address =>
    have hend : Follows site
        (do
          publishIfReady site settings address
          setStatus site .active
          return .completed : Hook ω HookError Outcome)
        (updatingPlan settings address) := by
      refine (follows_publishIfReady site settings address).bind fun _ => ?_
      exact (follows_setStatus site .active).bind fun _ => Follows.value _
    refine Makes.bind (Q := fun _ s es r => Cut site (updatingPlan settings address) s es (haltOf r))
      (((makes_reconcile site settings address).mapError HookError.daemon).onFailure _ _) ?_ ?_ ?_
    · intro reconciled
      dsimp only
      by_cases h : reconciled = .restarted
      · rw [if_pos h]
        exact Follows.after_log hend
      · rw [if_neg h]
        exact hend
    · rintro s t es fs reconciled r ⟨part, hp, hpart⟩ hr hc
      cases part with
      | error halt => cases hpart
      | ok part => exact .reconciled hp hr hc
    · rintro s es halt ⟨part, hp, hpart⟩
      cases part with
      | error stop =>
        obtain rfl := Except.error.inj hpart
        exact .unreconciled hp
      | ok part => cases hpart

inductive Joins (files : FileTree) :
    Option Net.Address → List Event → Except (Halt HookError) Outcome → Prop where
  | unbound : Joins files none [] (.ok (.deferred Query.addressNotReady))
  | unreadable {address cause} : fingerprints settings files = .error cause →
      Joins files (some address) [] (.error (.failed (.key cause)))
  | waiting {address missing} : fingerprints settings files = .ok (.notReady missing) →
      Joins files (some address) [] (.ok (.deferred missing.message))
  | told {address ready es} : fingerprints settings files = .ok (.ready ready) →
      Announced (Record.Profile.of address settings.port ready).bag es →
      Joins files (some address) es (.ok .completed)

theorem makes_consumerJoined (state : Provision.State) :
    (consumerJoined site settings state).Makes site fun s es r =>
      Joins settings (site.files s.world) state.address es r := by
  unfold consumerJoined
  cases state.address with
  | none => exact Makes.after_log (.pure fun _ _ => .unbound)
  | some address =>
    intro s
    dsimp only
    rw [run_bind, run_files]
    dsimp only
    cases hf : fingerprints settings (site.files s.world) with
    | error cause => exact ⟨[], Ran.quiet s _, .unreadable hf⟩
    | ok readiness =>
      cases readiness with
      | notReady missing => exact ⟨[], Ran.quiet s _, .waiting hf⟩
      | ready ready =>
        obtain ⟨es, hr, ha, hok⟩ := makes_publish_then site (ε := HookError)
          (.of address settings.port ready) Outcome.completed s
        refine ⟨es, hr, ?_⟩
        rw [hok]
        exact .told hf ha

inductive Trigger where
  | install (state : Provision.State)
  | updateStatus (state : Provision.State)
  | consumerJoined (state : Provision.State)

def Trigger.hook (site : Site ω) (settings : Settings) : Trigger → Hook ω HookError Outcome
  | .install state => Hooks.install site settings state
  | .updateStatus state => Hooks.updateStatus site settings state
  | .consumerJoined state => Hooks.consumerJoined site settings state

/-- A machine where everything that is asked for is done, and that nobody has joined. -/
def quietSite : Site Unit where
  host call w := ⟨call.success, w, []⟩
  record
    | .setStatus _, w => ⟨.ok (), w, []⟩
    | .openPort _, w => ⟨.ok (), w, []⟩
    | .relations, w => ⟨.ok [], w, []⟩
    | .updateRelation .., w => ⟨.ok (), w, []⟩
  files _ := .empty

end RelayKeeper.Hooks
