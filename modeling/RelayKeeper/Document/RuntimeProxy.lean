import RelayKeeper.Json.Printer
import RelayKeeper.Provision.State

/-!
# The proxy configuration of the container runtime

A JSON object with one member, which holds the proxies that are set.
-/

namespace RelayKeeper.Document

open Provision (ProxyConfig)

def optionalMember (name : String) (text : Option String) : List (String × Json) :=
  (text.map fun t => (name, Json.text t)).toList

def proxyMembers (proxy : ProxyConfig) : List (String × Json) :=
  optionalMember "http-proxy" proxy.http ++ optionalMember "https-proxy" proxy.https ++
    optionalMember "no-proxy" proxy.noProxy

def runtimeProxyJson (proxy : ProxyConfig) : Json :=
  .record [("proxies", .record (proxyMembers proxy))]

def runtimeProxy (proxy : ProxyConfig) : String :=
  String.ofList (runtimeProxyJson proxy).pretty

end RelayKeeper.Document
