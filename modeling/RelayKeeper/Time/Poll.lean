import RelayKeeper.Host.Session

/-!
# Waiting for a condition

`poll` checks a condition at once and then at every interval until the timeout, and once more when
the timeout is reached. It stops at the first check that holds or fails.
-/

namespace RelayKeeper

/-- How a wait ends that is not cut short by a failing check. -/
inductive Wait where
  | met
  | timedOut (timeout : Duration)
  deriving DecidableEq, Repr

namespace Hook

variable {ω ε : Type}

/-- The first moment that no clock can show, in seconds. -/
def clockRange : Nat := Nat.pow 2 63

def lastCheck (check : Hook ω ε Bool) (timeout : Duration) : Hook ω ε Wait := do
  if ← check then pure .met else pure (.timedOut timeout)

/-- Checks while the deadline lies ahead. The first number bounds the checks before the last. -/
def pollUntil (check : Hook ω ε Bool) (timeout interval deadline : Duration) :
    Nat → Hook ω ε Wait
  | 0 => lastCheck check timeout
  | rounds + 1 => do
    if (← now).nanos < deadline.nanos then
      if ← check then return .met
      sleep (interval.min (deadline.sub (← now)))
      pollUntil check timeout interval deadline rounds
    else lastCheck check timeout

/-- The number of checks that a wait without an interval is granted: the clock stands still then,
and only the checks can end it. -/
def restlessChecks : Nat := 1000000

def rounds (timeout interval : Duration) : Nat :=
  if interval.nanos = 0 then restlessChecks
  else (timeout.nanos + interval.nanos - 1) / interval.nanos

def poll (check : Hook ω ε Bool) (timeout interval : Duration) : Hook ω ε Wait := do
  let deadline := (← now).add timeout
  if (Duration.ofSeconds clockRange).nanos ≤ deadline.nanos then abandon
  else pollUntil check timeout interval deadline (rounds timeout interval)

end Hook

end RelayKeeper
