import RelayKeeper.Config.Settings
import RelayKeeper.Document.RuntimeProxy
import RelayKeeper.Host.Session

/-!
# Installing what the relay depends on

The package index is refreshed, the container runtime's proxies are written before any package that
may use them, the packages are installed in the order of the settings, and the relay's user joins the
group that may use the runtime.
-/

namespace RelayKeeper.Relay

inductive DependencyError where
  | update (cause : Host.PackageError)
  | install (package : String) (cause : Host.PackageError)
  | proxyConfig (path : Path) (cause : Fault)
  | runtimeGroup (user group : String) (cause : Host.CommandError)
  deriving DecidableEq, Repr

namespace DependencyError

def message : DependencyError → String
  | .update cause => s!"failed to update package index: {cause.message}"
  | .install package cause => s!"failed to install {package}: {cause.message}"
  | .proxyConfig path cause =>
    s!"failed to write container runtime proxy config {path.text}: {cause.message}"
  | .runtimeGroup user group cause =>
    s!"failed to grant {user} access to group {group}: {cause.message}"

def causes : DependencyError → List String
  | .update cause => cause.message :: cause.causes
  | .install _ cause => cause.message :: cause.causes
  | .proxyConfig _ cause => [cause.message]
  | .runtimeGroup _ _ cause => cause.message :: cause.causes

end DependencyError

def proxyConfigMode : Nat := 0o644

def dependencyComponent : String := "tmate_operator::installer"

variable {ω : Type} (site : Site ω)

def writeProxyConfig (settings : Settings) (proxy : Provision.ProxyConfig) :
    Hook ω DependencyError Unit := do
  let path := settings.dockerDaemonConfig
  if let some parent := path.parent? then
    Hook.require (.proxyConfig path) (← Hook.host site (.createDirectories parent))
  Hook.require (.proxyConfig path)
    (← Hook.host site (.writeFile path (Document.runtimeProxy proxy) proxyConfigMode))
  Hook.log .info dependencyComponent "Wrote container runtime proxy config"

def installPackages : List String → Hook ω DependencyError Unit
  | [] => pure ()
  | package :: packages => do
    Hook.require (.install package) (← Hook.host site (.installPackage package))
    installPackages packages

def installDependencies (settings : Settings) (proxy : Option Provision.ProxyConfig) :
    Hook ω DependencyError Unit := do
  Hook.require .update (← Hook.host site .refreshIndex)
  if let some proxy := proxy then
    writeProxyConfig site settings proxy
  installPackages site settings.packages
  let failed := DependencyError.runtimeGroup settings.user settings.runtimeGroup
  Hook.require failed (← Hook.host site (.ensureGroup settings.runtimeGroup))
  Hook.require failed (← Hook.host site (.addToGroup settings.user settings.runtimeGroup))
  Hook.log .info dependencyComponent "Dependencies installed"

end RelayKeeper.Relay
