import RelayKeeper.Files.Path

/-!
# Directories of a user

Where programs keep state and configuration. A variable of the environment can name the place, if it
is an absolute path; else it lies in the home directory.
-/

namespace RelayKeeper

/-- Variables of the environment. -/
abbrev Lookup := String → Option String

namespace Lookup

/-- The home directory, if it is known and not empty. -/
def home? (env : Lookup) : Option Path :=
  ((env "HOME").filter (!·.isEmpty)).map fun text => ⟨text⟩

/-- A directory that a variable names, or one in the home directory. -/
def directory? (env : Lookup) (name : String) (inHome : String) : Option Path :=
  match (env name).filter fun text => (Path.mk text).isAbsolute with
  | some text => some ⟨text⟩
  | none => env.home?.map (·.join inHome)

def stateDirectory? (env : Lookup) : Option Path :=
  env.directory? "XDG_STATE_HOME" ".local/state"

def dataDirectory? (env : Lookup) : Option Path :=
  env.directory? "XDG_DATA_HOME" ".local/share"

def configDirectory? (env : Lookup) : Option Path :=
  env.directory? "XDG_CONFIG_HOME" ".config"

def logDirectory (env : Lookup) (app : String) : Path :=
  ((env.stateDirectory?.or env.dataDirectory?).getD ⟨"/var/log"⟩).join app

/-- Where the settings are if no place is given. -/
def settingsPath (env : Lookup) : Path :=
  ((env.configDirectory?.getD ⟨"/etc"⟩).join "tmate-operator").join "config.toml"

end Lookup

end RelayKeeper
