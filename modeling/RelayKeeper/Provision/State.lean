import RelayKeeper.Net.Address
import RelayKeeper.Net.Url

/-!
# Provisioning state

What is known about the relay's surroundings when a hook starts: the address that it is bound to, if
any yet, and the proxies of the container runtime. Texts are trimmed, and a blank text counts as
none; a proxy has to be a URL with a host and is kept as it was written. Which texts are such URLs is
for a parser to say, and the state can be made with any.
-/

namespace RelayKeeper.Provision

inductive ProxyKind where
  | http
  | https
  deriving DecidableEq, Repr

def ProxyKind.name : ProxyKind → String
  | .http => "http proxy"
  | .https => "https proxy"

inductive StateError where
  | invalidAddress (cause : Net.InvalidAddress)
  | malformedProxy (kind : ProxyKind) (value : String) (cause : Net.UrlError)
  | proxyWithoutHost (kind : ProxyKind) (value : String)
  deriving DecidableEq, Repr

namespace StateError

def message : StateError → String
  | .invalidAddress cause => cause.message
  | .malformedProxy kind value cause => s!"invalid {kind.name} URL '{value}': {cause.message}"
  | .proxyWithoutHost kind value => s!"invalid {kind.name} URL '{value}': missing host"

def causes : StateError → List String
  | .malformedProxy _ _ cause => [cause.message]
  | _ => []

end StateError

structure ProxyInputs where
  http : Option String := none
  https : Option String := none
  noProxy : Option String := none
  deriving DecidableEq, Repr

def httpProxyVariable : String := "JUJU_CHARM_HTTP_PROXY"

def httpsProxyVariable : String := "JUJU_CHARM_HTTPS_PROXY"

def noProxyVariable : String := "JUJU_CHARM_NO_PROXY"

def ProxyInputs.ofLookup (lookup : String → Option String) : ProxyInputs :=
  ⟨lookup httpProxyVariable, lookup httpsProxyVariable, lookup noProxyVariable⟩

def nonBlank (text : Option String) : Option String :=
  (text.map Text.trim).filter (!·.isEmpty)

structure ProxyConfig where
  http : Option String
  https : Option String
  noProxy : Option String
  deriving DecidableEq, Repr

section

variable (hasHost : String → Except Net.UrlError Bool)

/-- The check of a proxy where `hasHost` says which texts are URLs with a host. -/
def checkProxyBy (kind : ProxyKind) : Option String → Except StateError (Option String)
  | none => .ok none
  | some value =>
    match hasHost value with
    | .error cause => .error (.malformedProxy kind value cause)
    | .ok false => .error (.proxyWithoutHost kind value)
    | .ok true => .ok (some value)

/-- The proxies, if there is one for HTTP or HTTPS; exceptions alone make no configuration. -/
def ProxyConfig.ofInputsBy (inputs : ProxyInputs) : Except StateError (Option ProxyConfig) := do
  let http ← checkProxyBy hasHost .http (nonBlank inputs.http)
  let https ← checkProxyBy hasHost .https (nonBlank inputs.https)
  if http.isNone && https.isNone then .ok none
  else .ok (some ⟨http, https, nonBlank inputs.noProxy⟩)

structure State where
  address : Option Net.Address := none
  proxy : Option ProxyConfig := none
  deriving DecidableEq, Repr

/-- The state of an address text and proxy texts; the address is looked at first. -/
def State.ofInputsBy (address : Option String) (proxy : ProxyInputs) : Except StateError State := do
  let address ←
    match nonBlank address with
    | none => pure none
    | some text => (Net.Address.parse text).mapError .invalidAddress |>.map some
  let proxy ← ProxyConfig.ofInputsBy hasHost proxy
  .ok ⟨address, proxy⟩

end

/-- The state where URLs are read by `Net.Url.hasHost`. -/
def State.ofInputs : Option String → ProxyInputs → Except StateError State :=
  State.ofInputsBy Net.Url.hasHost

end RelayKeeper.Provision
