import RelayKeeper.Config.Settings
import RelayKeeper.Toml.Document

/-!
# The settings file

A TOML file whose root table overrides the defaults field by field. Keys that name no field do not
matter; a value of the wrong type, or a number out of range, spoils the file.
-/

namespace RelayKeeper.SettingsFile

inductive SettingsError where
  | unreadable (path : Path) (cause : Fault)
  | unparsable (path : Path)
  deriving DecidableEq, Repr

namespace SettingsError

def message : SettingsError → String
  | .unreadable path _ => s!"Failed to read settings from {path.text}"
  | .unparsable path => s!"Failed to parse settings from {path.text}"

/-- The causes; what is wrong with a file that does not parse is not told. -/
def causes : SettingsError → List String
  | .unreadable _ cause => [cause.message]
  | .unparsable _ => []

end SettingsError

open Toml (Value)

def text? : Value → Option String
  | .string text => some text
  | _ => none

def path? (value : Value) : Option Path :=
  (text? value).map Path.mk

def below? (bound : Nat) : Value → Option Nat
  | .integer n => if 0 ≤ n && n < bound then some n.toNat else none
  | _ => none

def port? (value : Value) : Option UInt16 :=
  (below? UInt16.size value).map UInt16.ofNat

def seconds? (value : Value) : Option UInt64 :=
  (below? UInt64.size value).map UInt64.ofNat

def texts? : Value → Option (List String)
  | .array items => items.mapM text?
  | _ => none

def override (settings : Settings) (key : String) (value : Value) : Option Settings :=
  match key with
  | "service_name" => (text? value).map fun x => { settings with serviceName := x }
  | "port" => (port? value).map fun x => { settings with port := x }
  | "work_dir" => (path? value).map fun x => { settings with workDir := x }
  | "keys_dir" => (path? value).map fun x => { settings with keysDir := some x }
  | "create_keys_script" => (path? value).map fun x => { settings with createKeysScript := some x }
  | "unit_path" => (path? value).map fun x => { settings with unitPath := x }
  | "docker_daemon_config" => (path? value).map fun x => { settings with dockerDaemonConfig := x }
  | "user" => (text? value).map fun x => { settings with user := x }
  | "group" => (text? value).map fun x => { settings with group := x }
  | "runtime_group" => (text? value).map fun x => { settings with runtimeGroup := x }
  | "packages" => (texts? value).map fun x => { settings with packages := x }
  | "image" => (text? value).map fun x => { settings with image := x }
  | "startup_timeout_secs" =>
    (seconds? value).map fun x => { settings with startupTimeoutSecs := x }
  | "check_interval_secs" =>
    (seconds? value).map fun x => { settings with checkIntervalSecs := x }
  | "state_dir" => (path? value).map fun x => { settings with stateDir := x }
  | _ => some settings

def ofEntries? (entries : List (String × Value)) : Option Settings :=
  entries.foldlM (fun settings (key, value) => override settings key value) {}

def parse? (text : String) : Option Settings :=
  (Toml.parse? text).bind ofEntries?

def load (files : FileTree) (path : Path) : Except SettingsError Settings := do
  let text ← (files.readText path).mapError (.unreadable path)
  match parse? text with
  | some settings => .ok settings
  | none => .error (.unparsable path)

/-- Loads the settings if the file exists, and takes the defaults if it does not. -/
def loadOrDefault (files : FileTree) (path : Path) : Except SettingsError Settings :=
  if files.contains path then load files path else .ok {}

end RelayKeeper.SettingsFile
