import Mathlib.Data.Nat.Notation
import Mathlib.Tactic.SplitIfs
import RelayKeeper.Proofs.ReconcilePasses

/-! # Asking about the unit

Waiting for the unit is a row of status queries, each with its own answer. The first answer which is
not that the unit is down ends the wait, and so does the answer at the deadline; the answer that ends
it also says how. -/
namespace RelayKeeper

variable {ω : Type}

/-! ## What is seen of a run -/

def Site.after (site : Site ω) : List Host.Call → ω → ω
  | [], w => w
  | call :: calls, w => site.after calls (site.host call w).world

namespace Site.Takes

variable {site : Site ω} {u v : ω} {es : List Event}

theorem of_host {call : Host.Call} {reply : call.Reply}
    (h : site.Takes u (.host call reply :: es) v) :
    reply = (site.host call u).reply ∧ site.Takes (site.host call u).world es v := by
  cases h with
  | cons hs ht =>
    cases hs with
    | host => exact ⟨rfl, ht⟩

theorem of_slept {duration : Duration} (h : site.Takes u (.slept duration :: es) v) :
    site.Takes u es v := by
  cases h with
  | cons hs ht =>
    cases hs with
    | slept => exact ht

end Site.Takes

/-- The moments of the status queries, by a clock that shows `clock` at first. -/
def queryTimes (clock : ℕ) : List Event → List ℕ
  | [] => []
  | .host (.queryStatus _) _ :: es => clock :: queryTimes clock es
  | e :: es => queryTimes (clock + e.elapsed) es

theorem queryTimes_query (clock : ℕ) (unit : String)
    (reply : Except Host.CommandError Host.CommandOutput) (es : List Event) :
    queryTimes clock (.host (.queryStatus unit) reply :: es) = clock :: queryTimes clock es := rfl

theorem queryTimes_slept (clock : ℕ) (duration : Duration) (es : List Event) :
    queryTimes clock (.slept duration :: es) = queryTimes (clock + duration.nanos) es := rfl

namespace Hooks

open Relay

variable {site : Site ω} {settings : Settings} {w v : ω} {es : List Event}
  {error : Option DaemonError} {reply : Except Host.CommandError Host.CommandOutput}

/-! ## Answers -/

def EndedWith (reply : Except Host.CommandError Host.CommandOutput) (code : Option Int) : Prop :=
  ∃ output, reply = .ok output ∧ output.code = code

@[simp]
theorem not_endedWith_error (cause : Host.CommandError) (code : Option Int) :
    ¬ EndedWith (.error cause) code := by
  rintro ⟨_, hreply, -⟩
  cases hreply

@[simp]
theorem endedWith_ok {output : Host.CommandOutput} {code : Option Int} :
    EndedWith (.ok output) code ↔ output.code = code := by
  simp [EndedWith]

theorem EndedWith.code_eq {code other : Option Int} (h : EndedWith reply code)
    (k : EndedWith reply other) : code = other := by
  obtain ⟨output, rfl, rfl⟩ := h
  exact endedWith_ok.mp k

theorem verdict_ok (unit : String) (output : Host.CommandOutput) :
    verdict unit (.ok output) =
      if output.code = some 0 then .ok true
      else if output.code = some 3 then .ok false
      else .error (.statusCheck unit output.code) := by
  rw [verdict, report_ok, inactiveCode]
  split
  · rfl
  · split <;> rfl

theorem verdict_eq_false {unit : String} :
    verdict unit reply = .ok false ↔ EndedWith reply (some 3) := by
  cases reply with
  | error cause => simp [verdict, report, Except.map]
  | ok output =>
    rw [verdict_ok, endedWith_ok]
    split_ifs <;> simp_all

def answerError (settings : Settings) (reply : Except Host.CommandError Host.CommandOutput) :
    Option DaemonError :=
  match verdict settings.serviceName reply with
  | .ok true => none
  | .ok false => some (.timedOut settings.startupTimeout)
  | .error error => some error

@[simp]
theorem answerError_error (settings : Settings) (cause : Host.CommandError) :
    answerError settings (.error cause) = some (.statusCommand settings.serviceName cause) := rfl

theorem answerError_ok (settings : Settings) (output : Host.CommandOutput) :
    answerError settings (.ok output) =
      if output.code = some 0 then none
      else if output.code = some 3 then some (.timedOut settings.startupTimeout)
      else some (.statusCheck settings.serviceName output.code) := by
  rw [answerError, verdict_ok]
  split_ifs <;> rfl

theorem answerError_eq_none : answerError settings reply = none ↔ EndedWith reply (some 0) := by
  cases reply with
  | error cause => simp
  | ok output =>
    rw [answerError_ok, endedWith_ok]
    split_ifs <;> simp_all

theorem answerError_eq_timedOut {timeout : Duration} :
    answerError settings reply = some (.timedOut timeout) ↔
      timeout = settings.startupTimeout ∧ EndedWith reply (some 3) := by
  cases reply with
  | error cause => simp
  | ok output =>
    rw [answerError_ok, endedWith_ok]
    split_ifs <;> simp_all [eq_comm]

theorem answerError_eq_statusCheck {unit : String} {code : Option Int} :
    answerError settings reply = some (.statusCheck unit code) ↔
      unit = settings.serviceName ∧ EndedWith reply code ∧ code ≠ some 0 ∧ code ≠ some 3 := by
  cases reply with
  | error cause => simp
  | ok output =>
    rw [answerError_ok, endedWith_ok]
    split_ifs with hup hdown
    · simp +contextual [hup]
    · simp +contextual [hdown]
    · constructor
      · intro h
        cases h
        exact ⟨rfl, rfl, hup, hdown⟩
      · rintro ⟨rfl, rfl, -, -⟩
        rfl

theorem answerError_eq_statusCommand {unit : String} {cause : Host.CommandError} :
    answerError settings reply = some (.statusCommand unit cause) ↔
      unit = settings.serviceName ∧ reply = .error cause := by
  cases reply with
  | error cause => simp [eq_comm]
  | ok output =>
    rw [answerError_ok]
    split_ifs <;> simp

/-! ## Watching the unit -/

/-- The answer to status query `k`, in a world where none was made yet. -/
def statusAnswer (site : Site ω) (settings : Settings) (w : ω) (k : ℕ) :
    Except Host.CommandError Host.CommandOutput :=
  (site.host (.queryStatus settings.serviceName)
    (site.after (List.replicate k (.queryStatus settings.serviceName)) w)).reply

/-- A wait with some time left, and an interval between queries, made the queries up to query `k`,
which ended it. -/
structure Watched (site : Site ω) (settings : Settings) (interval : ℕ) (w : ω) (left : ℕ)
    (es : List Event) (error : Option DaemonError) (k : ℕ) : Prop where
  down : ∀ j < k, EndedWith (statusAnswer site settings w j) (some 3)
  early : ∀ j < k, j * interval < left
  /-- An answer that the unit is down ends the wait only if no time is left. -/
  late : EndedWith (statusAnswer site settings w k) (some 3) → left ≤ k * interval
  asked : hostCalls es = List.replicate (k + 1) (.queryStatus settings.serviceName)
  times : ∀ clock, queryTimes clock es =
    (List.range (k + 1)).map fun j => clock + min (j * interval) left
  lasts : elapsed es = min (k * interval) left
  error : error = answerError settings (statusAnswer site settings w k)

namespace Watched

variable {interval left k : ℕ}

/-- A wait that one query ends. -/
theorem once (hlate : EndedWith (statusAnswer site settings w 0) (some 3) → left = 0) :
    Watched site settings interval w left
      [.host (.queryStatus settings.serviceName) (statusAnswer site settings w 0)]
      (answerError settings (statusAnswer site settings w 0)) 0 where
  down j hj := absurd hj (Nat.not_lt_zero j)
  early j hj := absurd hj (Nat.not_lt_zero j)
  late h := by
    rw [hlate h]
    exact Nat.zero_le _
  asked := rfl
  times clock := by simp [queryTimes]
  lasts := by simp [elapsed, Event.elapsed]
  error := rfl

theorem min_add_min (k interval left : ℕ) :
    min interval left + min (k * interval) (left - min interval left) =
      min ((k + 1) * interval) left := by
  rw [Nat.succ_mul]
  omega

/-- After an answer that the unit is down and a pause, the wait goes on with what is left. -/
theorem again (hleft : 0 < left) (hdown : EndedWith (statusAnswer site settings w 0) (some 3))
    (h : Watched site settings interval (site.host (.queryStatus settings.serviceName) w).world
      (left - min interval left) es error k) :
    Watched site settings interval w left
      (.host (.queryStatus settings.serviceName) (statusAnswer site settings w 0) ::
        .slept ⟨min interval left⟩ :: es) error (k + 1) where
  down j hj := by
    cases j with
    | zero => exact hdown
    | succ j => exact h.down j (Nat.lt_of_succ_lt_succ hj)
  early j hj := by
    cases j with
    | zero =>
      rw [Nat.zero_mul]
      exact hleft
    | succ j =>
      have hearly := h.early j (Nat.lt_of_succ_lt_succ hj)
      rw [Nat.succ_mul]
      omega
  late hk := by
    have hlate := h.late hk
    rw [Nat.succ_mul]
    omega
  asked := congrArg (_ :: ·) h.asked
  times clock := by
    have hrange : List.range (k + 1 + 1) = 0 :: (List.range (k + 1)).map Nat.succ :=
      List.range_succ_eq_map
    rw [queryTimes_query, queryTimes_slept, h.times, hrange, List.map_cons, List.map_map]
    refine List.cons_eq_cons.mpr ⟨by simp, List.map_congr_left fun j _ => ?_⟩
    rw [Function.comp_apply, Nat.add_assoc, min_add_min]
  lasts := by
    rw [← min_add_min, ← h.lasts]
    exact Nat.zero_add _
  error := h.error

end Watched

theorem takes_query (h : site.Takes w (.host (.queryStatus settings.serviceName) reply :: es) v) :
    reply = statusAnswer site settings w 0 ∧
      site.Takes (site.host (.queryStatus settings.serviceName) w).world es v :=
  h.of_host

/-- The interval is a variable of its own, because that of the settings unfolds to a large number of
nanoseconds. -/
theorem Polled.watched {left interval : ℕ} (h : Polled settings left es error)
    (hinterval : settings.checkInterval.nanos = interval) (hpos : 0 < interval)
    (ht : site.Takes w es v) : ∃ k, Watched site settings interval w left es error k := by
  -- Induction on the wait. A query is answered in the world that the one before it left, so that
  -- the answers that follow it are those of a wait which begins there.
  induction h generalizing w with
  | @failed left reply error hver =>
    obtain ⟨rfl, -⟩ := takes_query ht
    have herror : answerError settings (statusAnswer site settings w 0) = some error := by
      rw [answerError, hver]
    rw [← herror]
    refine ⟨0, .once fun hdown => ?_⟩
    rw [verdict_eq_false.mpr hdown] at hver
    cases hver
  | @met left reply hver =>
    obtain ⟨rfl, -⟩ := takes_query ht
    have herror : answerError settings (statusAnswer site settings w 0) = none := by
      rw [answerError, hver]
    rw [← herror]
    refine ⟨0, .once fun hdown => ?_⟩
    rw [verdict_eq_false.mpr hdown] at hver
    cases hver
  | @inVain left reply hver hleft =>
    obtain ⟨rfl, -⟩ := takes_query ht
    have herror : answerError settings (statusAnswer site settings w 0) =
        some (.timedOut settings.startupTimeout) := by
      rw [answerError, hver]
    rw [← herror]
    refine ⟨0, .once fun _ => hleft.resolve_right ?_⟩
    rw [hinterval]
    exact Nat.ne_of_gt hpos
  | @again left reply es error hver hleft _ ih =>
    obtain ⟨rfl, hpaused⟩ := takes_query ht
    rw [hinterval] at ih ⊢
    obtain ⟨k, hk⟩ := ih hpaused.of_slept
    exact ⟨k + 1, hk.again hleft (verdict_eq_false.mp hver)⟩

end Hooks

end RelayKeeper
