import Mathlib.Algebra.Order.Floor.Div
import RelayKeeper.Proofs.RelayPlans

/-! # What a wait does

A wait checks at every interval and once more at its deadline, which is the timeout after its start.
The first check that holds or fails ends it at once. A wait whose deadline no clock can show is
abandoned before the first check. -/
namespace RelayKeeper

namespace Hook

open Hooks

variable {ε : Type} (answers : ℕ → Except ε Bool) (start timeout interval : Duration)

/-- A check with the answers of an endless list. The world is the moments of the checks so far. -/
def answering : Hook (List Duration) ε Bool := fun s =>
  let asked := { s with world := s.world ++ [s.clock] }
  match answers s.world.length with
  | .ok held => (.ok held, asked)
  | .error error => (.error (.failed error), asked)

def checkTime (k : ℕ) : ℕ := min (k * interval.nanos) timeout.nanos

/-- A wait that has made `checks` checks, with a pause before each but the first and `pauses` pauses
in all. -/
def waiting (checks pauses : ℕ) : Session (List Duration) where
  world := (List.range checks).map fun k => ⟨start.nanos + checkTime timeout interval k⟩
  clock := ⟨start.nanos + checkTime timeout interval pauses⟩
  trace := (List.range pauses).map fun k =>
    .slept ⟨checkTime timeout interval (k + 1) - checkTime timeout interval k⟩

def waitEnd : Except ε Bool → Except (Halt ε) Wait
  | .ok true => .ok .met
  | .ok false => .ok (.timedOut timeout)
  | .error error => .error (.failed error)

theorem run_answering (k : ℕ) :
    answering answers (waiting start timeout interval k k) =
      ((answers k).mapError .failed, waiting start timeout interval (k + 1) k) := by
  have hlen : (waiting start timeout interval k k).world.length = k := by simp [waiting]
  have hasked : (waiting start timeout interval k k).world ++
      [(waiting start timeout interval k k).clock] =
        (waiting start timeout interval (k + 1) k).world := by
    simp [waiting, List.range_succ]
  rw [answering, hlen, hasked]
  cases answers k <;> rfl

theorem run_lastCheck (k : ℕ) :
    lastCheck (answering answers) timeout (waiting start timeout interval k k) =
      (waitEnd timeout (answers k), waiting start timeout interval (k + 1) k) := by
  rw [lastCheck, run_bind, run_answering]
  rcases answers k with error | held
  · rfl
  · cases held <;> rfl

/-- A pause leads to the next check, or to the deadline. -/
theorem paused_waiting {k : ℕ} (h : k * interval.nanos < timeout.nanos) :
    paused (interval.min ((start.add timeout).sub (waiting start timeout interval (k + 1) k).clock))
        (waiting start timeout interval (k + 1) k) =
      waiting start timeout interval (k + 1) (k + 1) := by
  have hnow : checkTime timeout interval k = k * interval.nanos := Nat.min_eq_left (Nat.le_of_lt h)
  have hpause : interval.min
      ((start.add timeout).sub (waiting start timeout interval (k + 1) k).clock) =
        ⟨checkTime timeout interval (k + 1) - checkTime timeout interval k⟩ := by
    simp only [Duration.min, Duration.sub, Duration.add, waiting, hnow, Duration.mk.injEq]
    rw [checkTime, Nat.succ_mul]
    omega
  have hlater : checkTime timeout interval k ≤ checkTime timeout interval (k + 1) := by
    rw [hnow, checkTime, Nat.succ_mul]
    omega
  rw [hpause, paused]
  simp only [waiting, Duration.add, Session.mk.injEq, Duration.mk.injEq, true_and, and_true]
  constructor
  · omega
  · simp [List.range_succ]

/-- The checks from `k` on. The measure is the number of intervals that are left. -/
theorem run_pollUntil_answering {last : ℕ} (hbefore : ∀ k < last, k * interval.nanos < timeout.nanos)
    (hreach : timeout.nanos ≤ last * interval.nanos) (n k : ℕ) (hk : k + n = last) :
    ∃ j ≤ last, k ≤ j ∧ (∀ i, k ≤ i → i < j → answers i = .ok false) ∧
      (answers j = .ok false → j = last) ∧
      pollUntil (answering answers) timeout interval (start.add timeout) n
          (waiting start timeout interval k k) =
        (waitEnd timeout (answers j), waiting start timeout interval (j + 1) j) := by
  induction n generalizing k with
  | zero =>
    obtain rfl : k = last := hk
    refine ⟨k, le_rfl, le_rfl, ?_, fun _ => rfl, run_lastCheck answers start timeout interval k⟩
    intro i hlow hhigh
    omega
  | succ n ih =>
    -- this check is before the deadline, so that another one follows if it neither holds nor fails
    have hearly := hbefore k (by omega)
    have hlt : (waiting start timeout interval k k).clock.nanos < (start.add timeout).nanos := by
      have hnow : checkTime timeout interval k = k * interval.nanos :=
        Nat.min_eq_left (Nat.le_of_lt hearly)
      simp only [waiting, Duration.add, hnow]
      omega
    rw [run_pollUntil n hlt, run_answering]
    rcases hanswer : answers k with error | held
    · refine ⟨k, by omega, le_rfl, fun i hlow hhigh => by omega, ?_, by rw [hanswer]; rfl⟩
      intro h
      rw [hanswer] at h
      cases h
    cases held with
    | true =>
      refine ⟨k, by omega, le_rfl, fun i hlow hhigh => by omega, ?_, by rw [hanswer]; rfl⟩
      intro h
      rw [hanswer] at h
      cases h
    | false =>
      obtain ⟨j, hj, hkj, hfalse, hlast, hrun⟩ := ih (k + 1) (by omega)
      refine ⟨j, hj, by omega, ?_, hlast, ?_⟩
      · intro i hlow hhigh
        rcases Nat.eq_or_lt_of_le hlow with rfl | hlow
        · exact hanswer
        · exact hfalse i hlow hhigh
      · rw [← hrun, ← paused_waiting start timeout interval hearly]
        rfl

theorem mul_lt_of_lt_ceilDiv (hpos : 0 < interval.nanos) {k : ℕ}
    (h : k < timeout.nanos ⌈/⌉ interval.nanos) : k * interval.nanos < timeout.nanos := by
  rw [Nat.ceilDiv_eq_add_pred_div] at h
  have hle := (Nat.le_div_iff_mul_le hpos).mp (Nat.succ_le_of_lt h)
  rw [Nat.succ_mul] at hle
  omega

theorem rounds_eq (hpos : 0 < interval.nanos) :
    rounds timeout interval = timeout.nanos ⌈/⌉ interval.nanos := by
  rw [rounds, if_neg (by omega), Nat.ceilDiv_eq_add_pred_div]

theorem le_ceilDiv_mul (hpos : 0 < interval.nanos) :
    timeout.nanos ≤ timeout.nanos ⌈/⌉ interval.nanos * interval.nanos := by
  rw [← rounds_eq timeout interval hpos]
  exact le_rounds_mul (by omega)

/-- The last check is made at the deadline. -/
theorem checkTime_last (hpos : 0 < interval.nanos) :
    checkTime timeout interval (timeout.nanos ⌈/⌉ interval.nanos) = timeout.nanos :=
  Nat.min_eq_right (le_ceilDiv_mul timeout interval hpos)

theorem waiting_zero : waiting start timeout interval 0 0 = { world := [], clock := start } := by
  simp [waiting, checkTime]

/-- A wait ends with the first check that holds or fails, or with the last one. -/
theorem run_poll_answering (hpos : 0 < interval.nanos)
    (hclock : (start.add timeout).nanos < (Duration.ofSeconds clockRange).nanos) :
    ∃ k ≤ timeout.nanos ⌈/⌉ interval.nanos, (∀ j < k, answers j = .ok false) ∧
      (answers k = .ok false → k = timeout.nanos ⌈/⌉ interval.nanos) ∧
      poll (answering answers) timeout interval { world := [], clock := start } =
        (waitEnd timeout (answers k), waiting start timeout interval (k + 1) k) := by
  obtain ⟨k, hk, -, hfalse, hlast, hrun⟩ :=
    run_pollUntil_answering answers start timeout interval
      (fun k hk => mul_lt_of_lt_ceilDiv timeout interval hpos hk)
      (le_ceilDiv_mul timeout interval hpos) (timeout.nanos ⌈/⌉ interval.nanos) 0 (Nat.zero_add _)
  refine ⟨k, hk, fun j hj => hfalse j (Nat.zero_le j) hj, hlast, ?_⟩
  rw [run_poll (Nat.not_le.mpr hclock), rounds_eq timeout interval hpos, ← hrun, waiting_zero]

/-- The first answer that is no `false` decides a wait, and so does the last one. Checks are made at
every interval and at the deadline, with nothing but pauses between them. A wait in vain ends with
the timeout that it was given. A deadline that no clock can show is the one case in which there is no
check at all. -/
theorem poll_exact {ε : Type} (answers : ℕ → Except ε Bool) (start timeout interval : Duration)
    (hpos : 0 < interval.nanos) :
    ((start.add timeout).nanos < (Duration.ofSeconds clockRange).nanos →
      (∃ k < timeout.nanos ⌈/⌉ interval.nanos + 1,
        (∀ j < k, answers j = .ok false) ∧
          (answers k = .ok false → k + 1 = timeout.nanos ⌈/⌉ interval.nanos + 1) ∧
          poll (answering answers) timeout interval { world := [], clock := start } =
            (waitEnd timeout (answers k), waiting start timeout interval (k + 1) k)) ∧
      ((∀ k < timeout.nanos ⌈/⌉ interval.nanos + 1, answers k = .ok false) →
        ∃ t, poll (answering answers) timeout interval { world := [], clock := start } =
            (.ok (.timedOut timeout), t) ∧
          t.world.length = timeout.nanos ⌈/⌉ interval.nanos + 1 ∧
          t.world.getLast? = some (start.add timeout) ∧ t.clock = start.add timeout)) ∧
    ((Duration.ofSeconds clockRange).nanos ≤ (start.add timeout).nanos →
      poll (answering answers) timeout interval { world := [], clock := start } =
        (.error .abandoned, { world := [], clock := start })) := by
  refine ⟨fun hclock => ?_, fun hclock => run_poll_abandon hclock⟩
  obtain ⟨k, hk, hfalse, hlast, hrun⟩ :=
    run_poll_answering answers start timeout interval hpos hclock
  constructor
  · exact ⟨k, by omega, hfalse, fun h => congrArg (· + 1) (hlast h), hrun⟩
  · intro hall
    obtain rfl := hlast (hall k (by omega))
    have hdeadline := checkTime_last timeout interval hpos
    rw [hall _ (by omega)] at hrun
    refine ⟨_, hrun, ?_, ?_, ?_⟩
    · simp [waiting]
    · simp [waiting, List.range_succ, hdeadline, Duration.add]
    · simp [waiting, hdeadline, Duration.add]

/-- Three whole intervals and half of one. -/
theorem poll_exact_uneven :
    0 < (Duration.mk 10).nanos ∧
      ((Duration.mk 7).add ⟨35⟩).nanos < (Duration.ofSeconds clockRange).nanos ∧
      (∀ k < 5, (fun _ => .ok false : ℕ → Except String Bool) k = .ok false) ∧
      ∃ t, poll (answering (fun _ => .ok false : ℕ → Except String Bool)) ⟨35⟩ ⟨10⟩
          { world := [], clock := ⟨7⟩ } = (.ok (.timedOut ⟨35⟩), t) ∧
        t.world.length = 5 ∧ t.world.getLast? = some ⟨42⟩ ∧ t.clock = ⟨42⟩ := by
  have hpos : 0 < (Duration.mk 10).nanos := by decide
  have hclock : ((Duration.mk 7).add ⟨35⟩).nanos < (Duration.ofSeconds clockRange).nanos := by
    decide
  obtain ⟨hwait, -⟩ := poll_exact (fun _ => .ok false : ℕ → Except String Bool) ⟨7⟩ ⟨35⟩ ⟨10⟩ hpos
  exact ⟨hpos, hclock, fun _ _ => rfl, (hwait hclock).2 fun _ _ => rfl⟩

/-- The longest timeout there is. A check that holds at once is never made. -/
theorem poll_longest_abandoned :
    0 < (Duration.ofSeconds 1).nanos ∧
      (fun _ => .ok true : ℕ → Except String Bool) 0 = .ok true ∧
      poll (answering (fun _ => .ok true : ℕ → Except String Bool))
          (.ofSeconds (Nat.pow 2 64 - 1)) (.ofSeconds 1) { world := [] } =
        (.error .abandoned, { world := [] }) := by
  refine ⟨by decide, rfl, run_poll_abandon ?_⟩
  decide

end Hook

end RelayKeeper
