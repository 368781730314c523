import RelayKeeper.Proofs.BoundedWait
import RelayKeeper.Proofs.UnitFile

/-! # Starting the daemon

A start ends well exactly when the host takes the four calls that launch the unit and the supervisor
says in time that it runs. Whatever else the host answers decides how the start fails. Once the unit
file is written, it stays as it is. -/
namespace RelayKeeper

variable {ω : Type}

/-! ## What a file holds -/

/-- What the event writes to a file, and the permission bits. A write that is refused writes
nothing. -/
def Event.written? (path : Path) : Event → Option (String × ℕ)
  | .host (.writeFile other contents mode) (.ok _) =>
    if other = path then some (contents, mode) else none
  | _ => none

def lastWritten? (path : Path) (es : List Event) : Option (String × ℕ) :=
  es.reverse.findSome? (·.written? path)

/-- A host with a file that holds what it was told to write, and that nothing else changes. -/
structure StoresFile (site : Site ω) (path : Path) (held : ω → Option (String × ℕ)) : Prop where
  written : ∀ contents mode w, (site.host (.writeFile path contents mode) w).reply = .ok () →
    held (site.host (.writeFile path contents mode) w).world = some (contents, mode)
  host : ∀ call w, Hooks.writesFile call = false → held (site.host call w).world = held w
  record : ∀ call w, held (site.record call w).world = held w

def Writeless (es : List Event) : Prop := ∀ call ∈ hostCalls es, Hooks.writesFile call = false

theorem Writeless.written? {es : List Event} (h : Writeless es) (path : Path) :
    ∀ e ∈ es, e.written? path = none := by
  intro e he
  cases e with
  | host call reply =>
    have hcall : Hooks.writesFile call = false := h call (List.mem_filterMap.mpr ⟨_, he, rfl⟩)
    cases call with
    | writeFile => cases hcall
    | _ => rfl
  | record _ _ | slept _ => rfl

/-- What is written stays until there is another write. -/
theorem lastWritten?_append {path : Path} {e : Event} {held : String × ℕ}
    (h : e.written? path = some held) (before : List Event) {after : List Event}
    (hafter : Writeless after) : lastWritten? path (before ++ e :: after) = some held := by
  have hnone : after.reverse.findSome? (·.written? path) = none := by
    rw [List.findSome?_eq_none_iff]
    intro d hd
    exact hafter.written? path d (List.mem_reverse.mp hd)
  rw [lastWritten?, List.reverse_append, List.reverse_cons, List.append_assoc,
    List.findSome?_append, hnone, Option.none_or, List.singleton_append,
    List.findSome?_cons_of_isSome (by rw [h]; rfl), h]

theorem Writeless.take {es : List Event} (h : Writeless es) (n : ℕ) : Writeless (es.take n) := by
  intro call hcall
  exact h call ((List.take_sublist n es).filterMap _ |>.subset hcall)

/-- Without a write a file is left as it was. -/
theorem StoresFile.held_of_writeless {site : Site ω} {path : Path}
    {held : ω → Option (String × ℕ)} (h : StoresFile site path held) {es : List Event} {u v : ω}
    (ht : site.Takes u es v) (hes : Writeless es) : held v = held u := by
  induction ht with
  | nil w => rfl
  | @cons u v w e es hs _ ih =>
    have hrest : Writeless es := fun call hcall =>
      hes call ((List.sublist_cons_self e es).filterMap _ |>.subset hcall)
    rw [ih hrest]
    cases hs with
    | host call _ => exact h.host call u (hes call List.mem_cons_self)
    | record call _ => exact h.record call u
    | slept _ _ => rfl

namespace Hooks

open Relay

variable {site : Site ω} {settings : Settings} {address : Net.Address} {w v : ω} {es : List Event}
  {error : Option DaemonError}

/-! ## Launching the unit -/

def launchCalls (settings : Settings) (address : Net.Address) : List Host.Call :=
  [unitWrite settings address, .reloadSupervisor, .enableUnit settings.serviceName,
    .restartUnit settings.serviceName]

section launch

variable (site : Site ω) (settings : Settings) (address : Net.Address) (w : ω)

def writeReply : Except Fault Unit := (site.host (unitWrite settings address) w).reply

def reloadReply : Except Host.CommandError Unit :=
  (site.host .reloadSupervisor (site.after ((launchCalls settings address).take 1) w)).reply

def enableReply : Except Host.CommandError Unit :=
  (site.host (.enableUnit settings.serviceName)
    (site.after ((launchCalls settings address).take 2) w)).reply

def restartReply : Except Host.CommandError Unit :=
  (site.host (.restartUnit settings.serviceName)
    (site.after ((launchCalls settings address).take 3) w)).reply

structure Launched : Prop where
  written : writeReply site settings address w = .ok ()
  reloaded : reloadReply site settings address w = .ok ()
  enabled : enableReply site settings address w = .ok ()
  restarted : restartReply site settings address w = .ok ()

inductive Refused : DaemonError → Prop where
  | write {cause} : writeReply site settings address w = .error cause →
      Refused (.writeUnit settings.unitPath cause)
  | reload {cause} : writeReply site settings address w = .ok () →
      reloadReply site settings address w = .error cause → Refused (.reload cause)
  | enable {cause} : writeReply site settings address w = .ok () →
      reloadReply site settings address w = .ok () →
      enableReply site settings address w = .error cause →
      Refused (.enable settings.serviceName cause)
  | restart {cause} : writeReply site settings address w = .ok () →
      reloadReply site settings address w = .ok () →
      enableReply site settings address w = .ok () →
      restartReply site settings address w = .error cause →
      Refused (.start settings.serviceName cause)

end launch

theorem Refused.not_launched {failure : DaemonError} (h : Refused site settings address w failure) :
    ¬ Launched site settings address w := by
  intro hlaunched
  cases h with
  | write hreply =>
    rw [hlaunched.written] at hreply
    cases hreply
  | reload _ hreply =>
    rw [hlaunched.reloaded] at hreply
    cases hreply
  | enable _ _ hreply =>
    rw [hlaunched.enabled] at hreply
    cases hreply
  | restart _ _ _ hreply =>
    rw [hlaunched.restarted] at hreply
    cases hreply

theorem Refused.unique {failure other : DaemonError}
    (h : Refused site settings address w failure) (k : Refused site settings address w other) :
    failure = other := by
  cases h with
  | write hreply => cases k <;> simp_all
  | reload _ hreply => cases k <;> simp_all
  | enable _ _ hreply => cases k <;> simp_all
  | restart _ _ _ hreply => cases k <;> simp_all

inductive Started (site : Site ω) (settings : Settings) (address : Net.Address) (interval : ℕ)
    (w : ω) : List Event → Option DaemonError → Prop where
  | refused {es failure} : Refused site settings address w failure →
      (∀ clock, queryTimes clock es = []) →
      Started site settings address interval w es (some failure)
  | watched {es fs error k} : Launched site settings address w →
      hostCalls es = launchCalls settings address ++ hostCalls fs →
      (∀ clock, queryTimes clock es = queryTimes clock fs) → elapsed es = elapsed fs →
      Watched site settings interval (site.after (launchCalls settings address) w)
        settings.startupTimeout.nanos fs error k →
      Started site settings address interval w es error

theorem refusal_eq_some {ε δ : Type} {f : δ → ε} {reply : Except δ Unit} {failure : ε} :
    refusal f reply = some failure ↔ ∃ cause, reply = .error cause ∧ f cause = failure := by
  cases reply <;> simp [refusal]

/-- The first call of a plan is refused, or the rest of the plan follows it. -/
theorem Asked.of_ask {ε : Type} {call : Host.Call} {failure : call.Reply → Option ε}
    {plan : List (Step ε)} {error : Option ε} (h : Asked (.ask call failure :: plan) es error)
    (ht : site.Takes w es v) :
    (∃ stop, failure (site.host call w).reply = some stop ∧
      es = [.host call (site.host call w).reply] ∧ error = some stop) ∨
    ∃ fs, failure (site.host call w).reply = none ∧
      es = .host call (site.host call w).reply :: fs ∧ Asked plan fs error ∧
      site.Takes (site.host call w).world fs v := by
  cases h with
  | failed reply hf =>
    obtain ⟨rfl, -⟩ := ht.of_host
    exact .inl ⟨_, hf, rfl, rfl⟩
  | passed reply hf hrest =>
    obtain ⟨rfl, hfs⟩ := ht.of_host
    exact .inr ⟨_, hf, rfl, hrest, hfs⟩

theorem Asked.of_wait (h : Asked [.wait settings id] es error) :
    Polled settings settings.startupTimeout.nanos es error := by
  cases h with
  | inVain hp => exact hp
  | met hp hrest =>
    cases hrest
    rw [List.append_nil]
    exact hp

def unitRestarted (settings : Settings) : Event :=
  .host (.restartUnit settings.serviceName) (.ok ())

def launchEvents (settings : Settings) (address : Net.Address) : List Event :=
  (launchCalls settings address).map fun call => .host call call.success

/-- The host refuses a call that launches the unit, or takes all four, and the plan goes on. -/
theorem Asked.launches {more : List (Step DaemonError)}
    (h : Asked (daemonCalls settings address ++ more) es error) (ht : site.Takes w es v) :
    (∃ failure, Refused site settings address w failure ∧ error = some failure ∧
        (∀ clock, queryTimes clock es = []) ∧ unitRestarted settings ∉ es) ∨
      ∃ fs, Launched site settings address w ∧ es = launchEvents settings address ++ fs ∧
        Asked more fs error ∧ site.Takes (site.after (launchCalls settings address) w) fs v := by
  -- each call is refused, which ends the start, or the next one is asked in the world that it left
  rcases h.of_ask ht with ⟨_, hstop, rfl, rfl⟩ | ⟨_, hwrite, rfl, h, ht⟩
  · obtain ⟨cause, hreply, rfl⟩ := refusal_eq_some.mp hstop
    exact .inl ⟨_, .write hreply, rfl, fun _ => rfl, by simp [unitRestarted]⟩
  rw [refusal_eq_none] at hwrite
  rcases h.of_ask ht with ⟨_, hstop, rfl, rfl⟩ | ⟨_, hreload, rfl, h, ht⟩
  · obtain ⟨cause, hreply, rfl⟩ := refusal_eq_some.mp hstop
    exact .inl ⟨_, .reload hwrite hreply, rfl, fun _ => rfl, by simp [unitRestarted]⟩
  rw [refusal_eq_none] at hreload
  rcases h.of_ask ht with ⟨_, hstop, rfl, rfl⟩ | ⟨_, henable, rfl, h, ht⟩
  · obtain ⟨cause, hreply, rfl⟩ := refusal_eq_some.mp hstop
    exact .inl ⟨_, .enable hwrite hreload hreply, rfl, fun _ => rfl, by simp [unitRestarted]⟩
  rw [refusal_eq_none] at henable
  rcases h.of_ask ht with ⟨_, hstop, rfl, rfl⟩ | ⟨fs, hrestart, rfl, h, ht⟩
  · obtain ⟨cause, hreply, rfl⟩ := refusal_eq_some.mp hstop
    refine .inl ⟨_, .restart hwrite hreload henable hreply, rfl, fun _ => rfl, ?_⟩
    simp [unitRestarted, hreply]
  rw [refusal_eq_none] at hrestart
  refine .inr ⟨fs, ⟨hwrite, hreload, henable, hrestart⟩, ?_, h, ht⟩
  rw [hwrite, hreload, henable, hrestart]
  rfl

theorem Asked.started {interval : ℕ} (h : Asked (daemonPlan settings address) es error)
    (hinterval : settings.checkInterval.nanos = interval) (hpos : 0 < interval)
    (ht : site.Takes w es v) : Started site settings address interval w es error := by
  rcases h.launches ht with ⟨failure, hrefused, rfl, htimes, -⟩ | ⟨fs, hlaunched, rfl, hwait, hfs⟩
  · exact .refused hrefused htimes
  · obtain ⟨k, hk⟩ := hwait.of_wait.watched hinterval hpos hfs
    have helapsed : elapsed (launchEvents settings address ++ fs) = elapsed fs :=
      (elapsed_append _ fs).trans (Nat.zero_add _)
    exact .watched hlaunched rfl (fun _ => rfl) helapsed hk

/-! ## The unit file -/

theorem writeless_of_countP (h : es.countP (Event.asks writesFile) = 0) : Writeless es := by
  intro call hcall
  obtain ⟨e, he, heq⟩ := List.mem_filterMap.mp hcall
  have hnone := List.countP_eq_zero.mp h e he
  cases e with
  | host other reply =>
    obtain rfl := Option.some.inj heq
    exact Bool.eq_false_iff.mpr hnone
  | record _ _ | slept _ => cases heq

/-- A start begins with the unit file, and writes nothing after it. -/
theorem Asked.writes_once {s : Session ω} {halt : Option (Halt DaemonError)}
    (h : Asked (daemonPlan settings address) es error)
    (hc : Cut site (daemonPlan settings address) s es halt) (ht : site.Takes s.world es v) :
    ∃ fs, es = .host (unitWrite settings address) (writeReply site settings address s.world) :: fs ∧
      Writeless fs ∧
      site.Takes (site.host (unitWrite settings address) s.world).world fs v := by
  have hcount : es.countP (Event.asks writesFile) ≤ 1 := hc.countP_asks fun _ => rfl
  rcases h.of_ask ht with ⟨_, -, rfl, -⟩ | ⟨fs, -, rfl, -, hfs⟩
  · exact ⟨[], rfl, nofun, ht.of_host.2⟩
  · refine ⟨fs, rfl, writeless_of_countP ?_, hfs⟩
    rw [List.countP_cons] at hcount
    exact Nat.le_zero.mp (Nat.le_of_succ_le_succ hcount)

/-! ## How a start ends -/

def queryLimit (settings : Settings) : ℕ :=
  settings.startupTimeout.nanos ⌈/⌉ settings.checkInterval.nanos + 1

/-- Query `k` is made: there is time for it, and all before it found the unit down. -/
def Reached (settings : Settings) (answer : ℕ → Except Host.CommandError Host.CommandOutput)
    (k : ℕ) : Prop :=
  k < queryLimit settings ∧ ∀ j < k, EndedWith (answer j) (some 3)

structure Decides (settings : Settings) (answer : ℕ → Except Host.CommandError Host.CommandOutput)
    (k : ℕ) : Prop where
  reached : Reached settings answer k
  last : EndedWith (answer k) (some 3) → k + 1 = queryLimit settings

/-- A file with the unit of these settings and this address. -/
def HasUnit (settings : Settings) (address : Net.Address) (held : Option (String × ℕ)) : Prop :=
  held = some (Document.ServiceUnit.render {
    name := settings.serviceName
    image := settings.image
    workDir := settings.workDir
    keysDir := settings.keysPath
    port := settings.port
    address := address.text }, 0o644)

/-- What a start from one session to another does, and how it ends. -/
structure StartsExactly (site : Site ω) (settings : Settings) (address : Net.Address)
    (answer : ℕ → Except Host.CommandError Host.CommandOutput) (s t : Session ω) (es : List Event)
    (r : Except (Halt DaemonError) Unit) : Prop where
  running : r = .ok () ↔ Launched site settings address s.world ∧
    ∃ k, Reached settings answer k ∧ EndedWith (answer k) (some 0)
  timedOut : ∀ timeout, r = .error (.failed (.timedOut timeout)) ↔
    Launched site settings address s.world ∧ timeout = settings.startupTimeout ∧
      ∀ k < queryLimit settings, EndedWith (answer k) (some 3)
  unclear : ∀ unit code, r = .error (.failed (.statusCheck unit code)) ↔
    Launched site settings address s.world ∧ ∃ k, Reached settings answer k ∧
      unit = settings.serviceName ∧ EndedWith (answer k) code ∧ code ≠ some 0 ∧ code ≠ some 3
  unanswered : ∀ unit cause, r = .error (.failed (.statusCommand unit cause)) ↔
    Launched site settings address s.world ∧ ∃ k, Reached settings answer k ∧
      unit = settings.serviceName ∧ answer k = .error cause
  /-- The query that decides is the last thing that is done. -/
  queries : Launched site settings address s.world → ∀ k, Decides settings answer k →
    hostCalls es = launchCalls settings address ++
        List.replicate (k + 1) (.queryStatus settings.serviceName) ∧
      queryTimes s.clock.nanos es = (List.range (k + 1)).map (fun j => s.clock.nanos +
        Hook.checkTime settings.startupTimeout settings.checkInterval j) ∧
      t.clock.nanos =
        s.clock.nanos + Hook.checkTime settings.startupTimeout settings.checkInterval k
  refused : ∀ failure, Refused site settings address s.world failure →
    r = .error (.failed failure) ∧ queryTimes s.clock.nanos es = []
  unabandoned : r ≠ .error .abandoned
  /-- Whatever happens after the write, the unit file was not written again. -/
  written : writeReply site settings address s.world = .ok () → ∀ n, 0 < n →
    HasUnit settings address (lastWritten? settings.unitPath (s.trace ++ es.take n))
  stored : ∀ held, StoresFile site settings.unitPath held →
    writeReply site settings address s.world = .ok () →
      HasUnit settings address (held t.world)

section deciding

variable {answer : ℕ → Except Host.CommandError Host.CommandOutput} {k m : ℕ}

theorem Decides.not_lt (h : Decides settings answer k) (hm : Decides settings answer m) :
    ¬ k < m := by
  intro hlt
  have hlast := h.last (hm.reached.2 k hlt)
  have hlimit := hm.reached.1
  omega

theorem Decides.unique (h : Decides settings answer k) (hm : Decides settings answer m) : k = m :=
  Nat.le_antisymm (Nat.not_lt.mp (hm.not_lt h)) (Nat.not_lt.mp (h.not_lt hm))

theorem queryLimit_le_succ (hpos : 0 < settings.checkInterval.nanos) :
    queryLimit settings ≤ k + 1 ↔
      settings.startupTimeout.nanos ≤ k * settings.checkInterval.nanos := by
  rw [queryLimit, Nat.add_le_add_iff_right, ceilDiv_le_iff_le_mul hpos, Nat.mul_comm]

end deciding

section watching

variable {interval k : ℕ}

theorem Watched.decides
    (h : Watched site settings interval w settings.startupTimeout.nanos es error k)
    (hinterval : settings.checkInterval.nanos = interval) (hpos : 0 < interval) :
    Decides settings (statusAnswer site settings w) k := by
  subst hinterval
  have hreached : k < queryLimit settings := by
    cases k with
    | zero => exact Nat.succ_pos _
    | succ j =>
      have hearly := h.early j (Nat.lt_succ_self j)
      rw [← Nat.not_le, queryLimit_le_succ hpos]
      exact Nat.not_le.mpr hearly
  refine ⟨⟨hreached, h.down⟩, fun hdown => ?_⟩
  have hlate := (queryLimit_le_succ hpos).mpr (h.late hdown)
  omega

/-- A start ends as an answer means exactly when the unit is launched and that answer is reached. -/
theorem Started.error_iff {result : Option DaemonError}
    {P : Except Host.CommandError Host.CommandOutput → Prop}
    (h : Started site settings address interval w es error)
    (hinterval : settings.checkInterval.nanos = interval) (hpos : 0 < interval)
    (hP : ∀ reply, answerError settings reply = result ↔ P reply)
    (hdown : ∀ reply, P reply → ¬ EndedWith reply (some 3))
    (hrefused : ∀ failure, Refused site settings address w failure → some failure ≠ result) :
    error = result ↔ Launched site settings address w ∧ ∃ m, Reached settings
      (statusAnswer site settings (site.after (launchCalls settings address) w)) m ∧
        P (statusAnswer site settings (site.after (launchCalls settings address) w) m) := by
  cases h with
  | refused hr _ =>
    constructor
    · intro heq
      exact absurd heq (hrefused _ hr)
    · intro hl
      exact absurd hl.1 hr.not_launched
  | watched hl _ _ _ hk =>
    have hdecides := hk.decides hinterval hpos
    constructor
    · intro heq
      exact ⟨hl, _, hdecides.reached, (hP _).mp (hk.error.symm.trans heq)⟩
    · rintro ⟨-, m, hreached, hm⟩
      obtain rfl := hdecides.unique ⟨hreached, fun hthree => absurd hthree (hdown _ hm)⟩
      exact hk.error.trans ((hP _).mpr hm)

/-- A start is in vain exactly when the unit is launched and every answer is that it is down. -/
theorem Started.timedOut_iff {timeout : Duration}
    (h : Started site settings address interval w es error)
    (hinterval : settings.checkInterval.nanos = interval) (hpos : 0 < interval) :
    error = some (.timedOut timeout) ↔ Launched site settings address w ∧
      timeout = settings.startupTimeout ∧ ∀ m < queryLimit settings,
        EndedWith (statusAnswer site settings (site.after (launchCalls settings address) w) m)
          (some 3) := by
  cases h with
  | refused hr _ =>
    constructor
    · intro heq
      obtain rfl := Option.some.inj heq
      cases hr
    · intro hl
      exact absurd hl.1 hr.not_launched
  | watched hl _ _ _ hk =>
    have hdecides := hk.decides hinterval hpos
    rw [hk.error, answerError_eq_timedOut]
    constructor
    · rintro ⟨rfl, hdown⟩
      refine ⟨hl, rfl, fun m hm => ?_⟩
      have hlast := hdecides.last hdown
      rcases Nat.lt_or_eq_of_le (Nat.le_of_lt_succ (hlast ▸ hm)) with hlt | rfl
      · exact hk.down m hlt
      · exact hdown
    · rintro ⟨-, rfl, hall⟩
      exact ⟨rfl, hall _ hdecides.reached.1⟩

theorem Started.queries {k : ℕ} (h : Started site settings address interval w es error)
    (hinterval : settings.checkInterval.nanos = interval) (hpos : 0 < interval)
    (hl : Launched site settings address w)
    (hk : Decides settings
      (statusAnswer site settings (site.after (launchCalls settings address) w)) k) (clock : ℕ) :
    hostCalls es = launchCalls settings address ++
        List.replicate (k + 1) (.queryStatus settings.serviceName) ∧
      queryTimes clock es = (List.range (k + 1)).map (fun j => clock +
        Hook.checkTime settings.startupTimeout settings.checkInterval j) ∧
      elapsed es = Hook.checkTime settings.startupTimeout settings.checkInterval k := by
  cases h with
  | refused hr _ => exact absurd hl hr.not_launched
  | watched _ hcalls htimes helapsed hw =>
    obtain rfl := (hw.decides hinterval hpos).unique hk
    simp only [Hook.checkTime, hinterval]
    refine ⟨?_, ?_, ?_⟩
    · rw [hcalls, hw.asked]
    · rw [htimes, hw.times]
    · rw [helapsed, hw.lasts]

theorem Started.refused_eq {failure : DaemonError}
    (h : Started site settings address interval w es error)
    (hr : Refused site settings address w failure) :
    error = some failure ∧ ∀ clock, queryTimes clock es = [] := by
  cases h with
  | refused hother htimes => exact ⟨congrArg some (hother.unique hr), htimes⟩
  | watched hl _ _ _ _ => exact absurd hl hr.not_launched

end watching

def startEnd : Option DaemonError → Except (Halt DaemonError) Unit
  | none => .ok ()
  | some failure => .error (.failed failure)

theorem startEnd_eq_ok : startEnd error = .ok () ↔ error = none := by
  cases error <;> simp [startEnd]

theorem startEnd_eq_failed {failure : DaemonError} :
    startEnd error = .error (.failed failure) ↔ error = some failure := by
  cases error <;> simp [startEnd]

theorem startEnd_ne_abandoned : startEnd error ≠ .error .abandoned := by
  cases error <;> simp [startEnd]

theorem eq_startEnd {r : Except (Halt DaemonError) Unit} (h : haltOf r = error.map .failed) :
    r = startEnd error := by
  cases r with
  | ok _ =>
    cases error with
    | none => rfl
    | some failure => cases h
  | error halt =>
    cases error with
    | none => cases h
    | some failure => exact congrArg Except.error (Option.some.inj h)

/-- With an interval and a deadline that the clock can show, a start does exactly what its plan says
and ends exactly as the answers of the host say, whatever they are. -/
theorem startDaemon_exact (site : Site ω) (settings : Settings) (address : Net.Address)
    (s : Session ω) (hpos : 0 < settings.checkInterval.nanos)
    (hclock : (s.clock.add settings.startupTimeout).nanos <
      (Duration.ofSeconds Hook.clockRange).nanos) :
    ∃ es, (startDaemon site settings address s).2.trace = s.trace ++ es ∧
      StartsExactly site settings address
        (statusAnswer site settings (site.after (launchCalls settings address) s.world)) s
        (startDaemon site settings address s).2 es (startDaemon site settings address s).1 := by
  obtain ⟨es, hr, hc⟩ := follows_startDaemon site settings address s
  obtain ⟨error, hhalt, hasked⟩ := hc.asked_daemonPlan hclock
  have hstarted := hasked.started rfl hpos hr.world
  obtain ⟨fs, hfirst, hfs, hworld⟩ := hasked.writes_once hc hr.world
  refine ⟨es, hr.trace, ?_⟩
  rw [eq_startEnd hhalt]
  exact {
    running := by
      rw [startEnd_eq_ok]
      refine hstarted.error_iff rfl hpos (fun _ => answerError_eq_none) ?_ (fun _ _ => nofun)
      intro reply hup hdown
      cases hup.code_eq hdown
    timedOut := fun timeout => by
      rw [startEnd_eq_failed]
      exact hstarted.timedOut_iff rfl hpos
    unclear := fun unit code => by
      rw [startEnd_eq_failed]
      refine hstarted.error_iff rfl hpos (fun _ => answerError_eq_statusCheck) ?_ ?_
      · rintro reply ⟨-, hcode, -, hthree⟩ hdown
        exact hthree (hcode.code_eq hdown)
      · rintro _ hrefused heq
        obtain rfl := Option.some.inj heq
        cases hrefused
    unanswered := fun unit cause => by
      rw [startEnd_eq_failed]
      refine hstarted.error_iff rfl hpos (fun _ => answerError_eq_statusCommand) ?_ ?_
      · rintro reply ⟨-, rfl⟩ ⟨_, hreply, -⟩
        cases hreply
      · rintro _ hrefused heq
        obtain rfl := Option.some.inj heq
        cases hrefused
    queries := fun hl k hk => by
      obtain ⟨hcalls, htimes, helapsed⟩ := hstarted.queries rfl hpos hl hk s.clock.nanos
      refine ⟨hcalls, htimes, ?_⟩
      rw [hr.clock, helapsed]
    refused := fun failure hrefused => by
      obtain ⟨heq, htimes⟩ := hstarted.refused_eq hrefused
      exact ⟨startEnd_eq_failed.mpr heq, htimes _⟩
    unabandoned := startEnd_ne_abandoned
    written := fun hreply n hn => by
      obtain ⟨m, rfl⟩ := Nat.exists_eq_succ_of_ne_zero (Nat.ne_of_gt hn)
      have hwritten : Event.written? settings.unitPath
          (.host (unitWrite settings address) (.ok ())) =
            some ((serviceUnit settings address).render, unitFileMode) := if_pos rfl
      rw [hfirst, hreply, List.take_succ_cons]
      exact lastWritten?_append hwritten s.trace (hfs.take m)
    stored := fun held hstores hreply => by
      rw [hstores.held_of_writeless hworld hfs]
      exact hstores.written _ _ _ hreply }

/-- A host where everything is done, and the unit runs when it is asked about again. The world
counts the calls and keeps the file that was written last. -/
def wakingSite : Site (ℕ × Option (String × ℕ)) where
  host
    | .queryStatus _, (n, held) =>
      ⟨.ok ⟨if n = 4 then some 3 else some 0, "", ""⟩, (n + 1, held), []⟩
    | .writeFile _ contents mode, (n, _) => ⟨.ok (), (n + 1, some (contents, mode)), []⟩
    | call, (n, held) => ⟨call.success, (n + 1, held), []⟩
  record call w := ⟨(quietSite.record call ()).reply, w, []⟩
  files _ := .empty

theorem storesFile_waking (path : Path) : StoresFile wakingSite path Prod.snd where
  written _ _ _ _ := rfl
  host call w h := by
    cases call with
    | writeFile => cases h
    | _ => rfl
  record _ _ := rfl

/-- The unit is found down at first, and running after one interval. -/
theorem startDaemon_exact_waking :
    0 < ({} : Settings).checkInterval.nanos ∧
      (Duration.zero.add ({} : Settings).startupTimeout).nanos <
        (Duration.ofSeconds Hook.clockRange).nanos ∧
      (startDaemon wakingSite {} (.hostname ['r']) { world := (0, none) }).1 = .ok () ∧
      HasUnit {} (.hostname ['r'])
        (startDaemon wakingSite {} (.hostname ['r']) { world := (0, none) }).2.world.2 ∧
      ∃ es, (startDaemon wakingSite {} (.hostname ['r']) { world := (0, none) }).2.trace =
          [] ++ es ∧
        queryTimes 0 es = [0, ({} : Settings).checkInterval.nanos] := by
  have hpos : 0 < ({} : Settings).checkInterval.nanos := by decide
  have hclock : (Duration.zero.add ({} : Settings).startupTimeout).nanos <
      (Duration.ofSeconds Hook.clockRange).nanos := by decide
  obtain ⟨es, htrace, hexact⟩ :=
    startDaemon_exact wakingSite {} (.hostname ['r']) { world := (0, none) } hpos hclock
  have hlaunched : Launched wakingSite {} (.hostname ['r']) (0, none) := ⟨rfl, rfl, rfl, rfl⟩
  have hreached : Reached {} (statusAnswer wakingSite {}
      (wakingSite.after (launchCalls {} (.hostname ['r'])) (0, none))) 1 := by
    refine ⟨by decide, fun j hj => ?_⟩
    obtain rfl := Nat.lt_one_iff.mp hj
    exact ⟨_, rfl, rfl⟩
  have hup : EndedWith (statusAnswer wakingSite {}
      (wakingSite.after (launchCalls {} (.hostname ['r'])) (0, none)) 1) (some 0) := ⟨_, rfl, rfl⟩
  have hdecides : Decides {} (statusAnswer wakingSite {}
      (wakingSite.after (launchCalls {} (.hostname ['r'])) (0, none))) 1 :=
    ⟨hreached, fun hdown => by cases hup.code_eq hdown⟩
  obtain ⟨-, htimes, -⟩ := hexact.queries hlaunched 1 hdecides
  have hheld := hexact.stored _ (storesFile_waking _) rfl
  exact ⟨hpos, hclock, hexact.running.mpr ⟨hlaunched, 1, hreached, hup⟩, hheld, es, htrace,
    htimes.trans (by decide)⟩

end Hooks

end RelayKeeper
