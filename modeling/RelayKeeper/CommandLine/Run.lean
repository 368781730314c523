import RelayKeeper.CommandLine.Dotenv
import RelayKeeper.CommandLine.Options
import RelayKeeper.Config.SettingsFile
import RelayKeeper.Hooks.ConsumerJoined
import RelayKeeper.Hooks.Install
import RelayKeeper.Hooks.UpdateStatus
import RelayKeeper.Log.Setup
import RelayKeeper.Record.Ground

/-!
# Runs of the program

A run loads the settings, looks at the inputs, and then carries out its command on a ground. It ends
with a value, with work put off, or with a failure, each of which has its exit code and is told on
standard error.
-/

namespace RelayKeeper.CommandLine

open Record (Ground)

inductive Failure where
  | settings (cause : SettingsFile.SettingsError)
  | inputs (cause : Provision.StateError)
  | hook (cause : Hooks.HookError)
  | record (cause : Record.StoreError)
  | key (cause : Key.KeyError)
  | query (message : String)
  deriving DecidableEq, Repr

def Failure.chain : Failure → List String
  | .settings cause => cause.message :: cause.causes
  | .inputs cause => "Invalid provisioning inputs" :: cause.message :: cause.causes
  | .hook cause => cause.message :: cause.causes
  | .record cause => cause.message :: cause.causes
  | .key cause => cause.message :: cause.causes
  | .query message => [message]

structure Completion where
  outcome : Hooks.Outcome := .completed
  /-- What goes to standard output. -/
  output : String := ""
  deriving DecidableEq, Repr

variable {ω : Type} (g : Ground ω)

def fingerprintLines (f : Key.Fingerprints) : String :=
  s!"rsa: {f.rsa}\ned25519: {f.ed25519}\n"

def joinConsumer (store : Record.Store) : Option String → Hook ω Failure Unit
  | none => pure ()
  | some id => do Hook.require .record (← Hook.ask (g.onFiles (store.join id)))

def performHook (hook : Hook ω Hooks.HookError Hooks.Outcome) : Hook ω Failure Completion :=
  Hook.mapError .hook do return { outcome := ← hook }

def performQuery (settings : Settings) (state : Provision.State) (files : FileTree) :
    Hook ω Failure Completion := do
  let answer := Query.serverConfig settings files state
  Hook.logAll answer.log
  match answer.result with
  | .ok config => return { output := config }
  | .error message => Hook.fail (.query message)

def performFingerprints (settings : Settings) (files : FileTree) : Hook ω Failure Completion := do
  match Relay.fingerprints settings files with
  | .ok (.ready fingerprints) => return { output := fingerprintLines fingerprints }
  | .ok (.notReady missing) => return { outcome := .deferred missing.message }
  | .error cause => Hook.fail (.key cause)

def performCommand (request : Request) (settings : Settings) (state : Provision.State) :
    Hook ω Failure Completion := do
  let store : Record.Store := ⟨settings.stateDir⟩
  let site := g.site store
  match request.command with
  | .install => performHook (Hooks.install site settings state)
  | .updateStatus => performHook (Hooks.updateStatus site settings state)
  | .consumerJoined =>
    joinConsumer g store request.relation
    performHook (Hooks.consumerJoined site settings state)
  | .getServerConfig => performQuery settings state (← Hook.files site)
  | .fingerprints => performFingerprints settings (← Hook.files site)

def settingsComponent : String := "tmate_operator::settings"

def loadSettings (environment : Lookup) (request : Request) : Hook ω Failure Settings := do
  let path := (request.settingsFile.map Path.mk).getD environment.settingsPath
  let files ← Hook.inspect g.files
  if !files.contains path then
    Hook.log .debug settingsComponent "No settings file, using defaults"
  Hook.require .settings (SettingsFile.loadOrDefault files path)

variable (hasHost : String → Except Net.UrlError Bool)

/-- Carries out a request. The settings come first, then the inputs, then the command. Which proxies
are URLs with a host is for `hasHost` to say. -/
def perform (environment : Lookup) (request : Request) : Hook ω Failure Completion := do
  let settings ← loadSettings g environment request
  let state ← Hook.require .inputs
    (Provision.State.ofInputsBy hasHost request.bindAddress request.proxies)
  performCommand g request settings state

inductive Ending where
  | refused (refusal : Refusal)
  | ended (result : Except (Halt Failure) Completion)

namespace Ending

def deferredCode : Nat := 75

def code : Ending → Nat
  | .refused .help => 0
  | .refused .misuse => 2
  | .ended (.ok ⟨.completed, _⟩) => 0
  | .ended (.ok ⟨.deferred _, _⟩) => deferredCode
  | .ended (.error (.failed _)) => 1
  | .ended (.error .abandoned) => 101

def output : Ending → String
  | .ended (.ok completion) => completion.output
  | _ => ""

def complaint? : Ending → Option String
  | .ended (.ok ⟨.deferred reason, _⟩) => some s!"deferred: {reason}"
  | .ended (.error (.failed failure)) => some ("error: " ++ ": ".intercalate failure.chain)
  | _ => none

def remarks : Ending → List Log.Entry
  | .ended (.error (.failed _)) => [⟨.error, "tmate_operator", "Hook failed", none⟩]
  | _ => []

end Ending

structure Report (ω : Type) where
  ending : Ending
  world : ω
  /-- Entries of the log that go to standard output. -/
  printed : List Log.Entry := []
  /-- What is told on standard error. -/
  complaints : List String := []

/-- The name of the program, under which it also keeps its log file. -/
def programName : String := "tmate-operator"

/-- Runs the program. A refused command line does nothing at all; otherwise the log is set up first
and gets what was logged on the way. -/
def run (environment : Lookup) (words : List String) (world : ω) : Report ω :=
  let environment := Dotenv.extend (g.files world) environment
  match Request.parse environment words with
  | .error refusal => { ending := .refused refusal, world := world }
  | .ok request =>
    let setup : Log.Setup := if request.logToFile then .file programName else .standard
    let (log, files) := setup.start environment (g.files world)
    let (result, session) := perform g hasHost environment request { world := g.withFiles world files }
    let ending := Ending.ended result
    let (printed, files) := log.write (session.log ++ ending.remarks) (g.files session.world)
    { ending := ending
      world := g.withFiles session.world files
      printed := printed
      complaints := log.warnings ++ ending.complaint?.toList }

end RelayKeeper.CommandLine
