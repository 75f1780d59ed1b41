/-
Proxy rules (`nanocl_stubs::proxy`): what a resource of the kind `ncproxy.io/rule` says, as the proxy, the vpnkit bridge and
the daemon read it.

The addresses and the versions of HTTP are left open: `ι` is the type of the first, `φ` that of the second.
-/
namespace Nanocl.Proxy

/-- network bindings: all networks, only 127.0.0.1, only public or internal addresses, or one address -/
inductive NetworkKind (ι : Type) where
  | all
  | localOnly
  | publicOnly
  | internal
  | other (ip : ι)
  deriving DecidableEq

structure ProxySslConfig where
  certificate : String
  certificateKey : String
  certificateClient : Option String
  verifyClient : Option Bool
  dhparam : Option String
  deriving DecidableEq

inductive ProxySsl where
  | config (config : ProxySslConfig)
  | secret (name : String)
  deriving DecidableEq

/-- a cargo or a VM -/
structure UpstreamTarget where
  key : String
  port : UInt16
  path : Option String
  disableLogging : Option Bool
  ssl : Option ProxySsl
  deriving DecidableEq

inductive UrlRedirect where
  | movedPermanently
  | permanent
  | temporary
  deriving DecidableEq

structure HttpTarget where
  url : String
  redirect : Option UrlRedirect
  deriving DecidableEq

structure UriTarget where
  uri : String
  deriving DecidableEq

structure UnixTarget where
  unixPath : String
  deriving DecidableEq

inductive LocationTarget where
  | upstream (target : UpstreamTarget)
  | http (target : HttpTarget)
  | unix (target : UnixTarget)
  deriving DecidableEq

inductive StreamTarget where
  | upstream (target : UpstreamTarget)
  | uri (target : UriTarget)
  | unix (target : UnixTarget)
  deriving DecidableEq

inductive ProxyStreamProtocol where
  | tcp
  | udp
  deriving DecidableEq

structure ProxyRuleStream (ι : Type) where
  network : NetworkKind ι
  protocol : ProxyStreamProtocol
  port : UInt16
  ssl : Option ProxySsl
  target : StreamTarget
  deriving DecidableEq

structure LimitReqZone where
  size : UInt64
  rate : UInt64
  deriving DecidableEq

structure LimitReq where
  burst : UInt64
  delay : Option UInt64
  deriving DecidableEq

structure ProxyHttpLocation (φ : Type) where
  path : String
  target : LocationTarget
  limitReq : Option LimitReq
  allowedIps : Option (List String)
  headers : Option (List String)
  version : Option φ
  deriving DecidableEq

structure ProxyRuleHttp (ι φ : Type) where
  domain : Option String
  port : Option UInt16
  network : NetworkKind ι
  limitReqZone : Option LimitReqZone
  locations : List (ProxyHttpLocation φ)
  ssl : Option ProxySsl
  includes : Option (List String)
  deriving DecidableEq

inductive ProxyRule (ι φ : Type) where
  | http (rule : ProxyRuleHttp ι φ)
  | stream (rule : ProxyRuleStream ι)
  deriving DecidableEq

structure ResourceProxyRule (ι φ : Type) where
  rules : List (ProxyRule ι φ)
  deriving DecidableEq

end Nanocl.Proxy
