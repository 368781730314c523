import RelayKeeper.Files.Tree
import RelayKeeper.Host.Call
import RelayKeeper.Log.Entry
import RelayKeeper.Record.Call
import RelayKeeper.Time.Duration

/-!
# Sessions

A hook runs in a session: a site that answers its calls, a clock that moves only while the hook
sleeps, and a trace of what was asked and answered. A `Site` is given as functions from a world to a
reply and the next world, so it may answer in any way.

A hook ends with a value or a failure of its own; it is abandoned if a moment that it needs lies
beyond what the clock can show.
-/

namespace RelayKeeper

structure Turn (ρ ω : Type) where
  reply : ρ
  world : ω
  remarks : List Log.Entry := []

/-- Everything that a hook depends on besides its settings. -/
structure Site (ω : Type) where
  host : (call : Host.Call) → ω → Turn call.Reply ω
  record : (call : Record.Call) → ω → Turn call.Reply ω
  /-- The files that can be read. -/
  files : ω → FileTree

inductive Event where
  | host (call : Host.Call) (reply : call.Reply)
  | record (call : Record.Call) (reply : call.Reply)
  | slept (duration : Duration)

structure Session (ω : Type) where
  world : ω
  clock : Duration := .zero
  /-- What was done so far, in order. -/
  trace : List Event := []
  log : List Log.Entry := []

inductive Halt (ε : Type) where
  | failed (error : ε)
  | abandoned
  deriving DecidableEq, Repr

def Halt.map (f : ε → δ) : Halt ε → Halt δ
  | .failed error => .failed (f error)
  | .abandoned => .abandoned

abbrev Hook (ω ε : Type) := ExceptT (Halt ε) (StateM (Session ω))

namespace Hook

variable {ω ε δ α : Type}

def host (site : Site ω) (call : Host.Call) : Hook ω ε call.Reply := fun s =>
  let turn := site.host call s.world
  (.ok turn.reply, { s with
    world := turn.world
    trace := s.trace ++ [.host call turn.reply]
    log := s.log ++ turn.remarks })

def record (site : Site ω) (call : Record.Call) : Hook ω ε call.Reply := fun s =>
  let turn := site.record call s.world
  (.ok turn.reply, { s with
    world := turn.world
    trace := s.trace ++ [.record call turn.reply]
    log := s.log ++ turn.remarks })

/-- Asks the world something that leaves no trace. -/
def ask (f : ω → Turn α ω) : Hook ω ε α := fun s =>
  let turn := f s.world
  (.ok turn.reply, { s with world := turn.world, log := s.log ++ turn.remarks })

def inspect (f : ω → α) : Hook ω ε α := fun s =>
  (.ok (f s.world), s)

def files (site : Site ω) : Hook ω ε FileTree :=
  inspect site.files

def now : Hook ω ε Duration := fun s =>
  (.ok s.clock, s)

def sleep (duration : Duration) : Hook ω ε Unit := fun s =>
  (.ok (), { s with clock := s.clock.add duration, trace := s.trace ++ [.slept duration] })

def log (level : Log.Level) (component message : String) : Hook ω ε Unit := fun s =>
  (.ok (), { s with log := s.log ++ [⟨level, component, message, none⟩] })

def logAll (entries : List Log.Entry) : Hook ω ε Unit := fun s =>
  (.ok (), { s with log := s.log ++ entries })

def fail (error : ε) : Hook ω ε α := fun s =>
  (.error (.failed error), s)

def abandon : Hook ω ε α := fun s =>
  (.error .abandoned, s)

def require (f : δ → ε) : Except δ α → Hook ω ε α
  | .ok value => pure value
  | .error error => fail (f error)

def mapError (f : δ → ε) (part : Hook ω δ α) : Hook ω ε α := fun s =>
  match part s with
  | (.ok value, s) => (.ok value, s)
  | (.error halt, s) => (.error (halt.map f), s)

def onFailure (component message : String) (part : Hook ω ε α) : Hook ω ε α := fun s =>
  match part s with
  | (.error (.failed error), s) =>
    (.error (.failed error), { s with log := s.log ++ [⟨.error, component, message, none⟩] })
  | outcome => outcome

def attempt (part : Hook ω δ α) : Hook ω ε (Except δ α) := fun s =>
  match part s with
  | (.ok value, s) => (.ok (.ok value), s)
  | (.error (.failed error), s) => (.ok (.error error), s)
  | (.error .abandoned, s) => (.error .abandoned, s)

end Hook

end RelayKeeper
