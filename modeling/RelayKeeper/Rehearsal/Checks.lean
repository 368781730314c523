import RelayKeeper.Time.Poll

/-!
# Scripted checks

A condition whose answers are given beforehand. Each check takes the next answer, and the last one
repeats. The world remembers when it was asked.
-/

namespace RelayKeeper.Rehearsal

/-- Takes the first of a list, but never the last one away. -/
def takeNext : List α → Option α × List α
  | [] => (none, [])
  | [last] => (some last, [last])
  | next :: rest => (some next, rest)

structure Checks where
  answers : List (Except String Bool)
  /-- The moments of the checks so far. -/
  times : List Duration := []

/-- Takes the next answer; without answers nothing ever holds. -/
def Checks.next : Hook Checks String Bool := fun s =>
  let (answer, answers) := takeNext s.world.answers
  let s := { s with world := ⟨answers, s.world.times ++ [s.clock]⟩ }
  match answer with
  | some (.ok held) => (.ok held, s)
  | some (.error error) => (.error (.failed error), s)
  | none => (.ok false, s)

def waitFor (answers : List (Except String Bool)) (timeout interval : Duration) :
    Except (Halt String) Wait × Session Checks :=
  Hook.poll Checks.next timeout interval { world := ⟨answers, []⟩ }

def timedOutMessage (timeout : Duration) : String :=
  s!"condition not met within {timeout.text}"

def checkFailedMessage (error : String) : String :=
  s!"condition check failed: {error}"

end RelayKeeper.Rehearsal
