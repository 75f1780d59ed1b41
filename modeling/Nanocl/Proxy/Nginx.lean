/-
The proxy controller (`ncproxy`): it turns the rules of a resource into configuration files of nginx.

A rule makes an HTTP part and a stream part. An entry whose target or certificate is not to be had is left out. While the parts
are put together, the upstreams of the targets and the files of the secrets are written, each under a name of its own that
every rule with the target shares. A part is then written under the name of the rule if there is something in it, and nginx
tests what is enabled; if it refuses, the files of the rule are deleted.

A file is what the templates are given: what they make of it is a text that is not empty, and depends on nothing else.
Nothing that is put together depends on the files, so it is a list of writes and a result.

- `generate`: the writes and the parts of a rule.
- `addRule`, `delRule`: the two calls on the store of files.
-/
import Mathlib.Logic.Function.Basic
import Nanocl.Lib.Serde
import Nanocl.Proxy.RuleFormat

namespace Nanocl.Proxy.Nginx

open Lib

inductive NginxRuleKind where
  | site
  | stream
  deriving DecidableEq

/-! ## Files -/

structure LocationTemplate (φ : Type) where
  path : String
  upstreamKey : String
  upstreamPath : String
  redirect : Option String
  limitReq : Option LimitReq
  allowedIps : Option (List String)
  version : Option φ
  headers : Option (List String)
  ssl : Option ProxySslConfig

/-- what the template of an HTTP server is given -/
structure HttpTemplate (φ : Type) where
  key : String
  limitReqZone : Option LimitReqZone
  listen : String
  listenHttps : String
  domain : Option String
  locations : List (LocationTemplate φ)
  ssl : Option ProxySslConfig
  hideUpstream : Bool

/-- what the template of a stream server is given -/
structure StreamTemplate where
  listen : String
  key : String
  upstreamKey : String
  ssl : Option ProxySslConfig

/-- a configuration file -/
inductive Conf (φ : Type) where
  | http (servers : List (HttpTemplate φ))
  | stream (servers : List StreamTemplate)
  | upstream (key : String) (port : UInt16) (addresses : List String)
  | unixUpstream (key path : String)

/-- the directory of the store: the available files, which of them are linked as enabled, and the files of the secrets -/
structure Store (φ : Type) where
  available : NginxRuleKind → String → Option (Conf φ)
  enabled : NginxRuleKind → String → Bool
  secrets : String → Option String

namespace Store

variable {φ : Type}

/-- the enabled file of a name -/
def file (s : Store φ) (kind : NginxRuleKind) (name : String) : Option (Conf φ) :=
  if s.enabled kind name then s.available kind name else none

/-- `write_conf_file`: where the link is there already, the error is dropped -/
def writeConfFile (s : Store φ) (name : String) (data : Conf φ) (kind : NginxRuleKind) : Store φ where
  available := Function.update s.available kind (Function.update (s.available kind) name (some data))
  enabled := Function.update s.enabled kind (Function.update (s.enabled kind) name true)
  secrets := s.secrets

/-- `delete_conf_file`: what is not there is no error -/
def deleteConfFile (s : Store φ) (name : String) (kind : NginxRuleKind) : Store φ where
  available := Function.update s.available kind (Function.update (s.available kind) name none)
  enabled := Function.update s.enabled kind (Function.update (s.enabled kind) name false)
  secrets := s.secrets

def writeSecret (s : Store φ) (path content : String) : Store φ :=
  { s with secrets := Function.update s.secrets path (some content) }

theorem file_writeConfFile (s : Store φ) (name : String) (data : Conf φ) (kind kind' : NginxRuleKind) (name' : String) :
    (s.writeConfFile name data kind).file kind' name' =
      if kind' = kind ∧ name' = name then some data else s.file kind' name' := by
  unfold file writeConfFile
  by_cases hk : kind' = kind
  · subst hk
    by_cases hn : name' = name <;> simp [hn]
  · simp [hk]

theorem file_deleteConfFile (s : Store φ) (name : String) (kind kind' : NginxRuleKind) (name' : String) :
    (s.deleteConfFile name kind).file kind' name' =
      if kind' = kind ∧ name' = name then none else s.file kind' name' := by
  unfold file deleteConfFile
  by_cases hk : kind' = kind
  · subst hk
    by_cases hn : name' = name <;> simp [hn]
  · simp [hk]

@[simp] theorem file_writeSecret (s : Store φ) (path content : String) (kind : NginxRuleKind) (name : String) :
    (s.writeSecret path content).file kind name = s.file kind name := rfl

@[simp] theorem secrets_writeConfFile (s : Store φ) (name : String) (data : Conf φ) (kind : NginxRuleKind) :
    (s.writeConfFile name data kind).secrets = s.secrets := rfl

@[simp] theorem secrets_deleteConfFile (s : Store φ) (name : String) (kind : NginxRuleKind) :
    (s.deleteConfFile name kind).secrets = s.secrets := rfl

end Store

/-- a write of a file while a rule is put together -/
inductive Write (φ : Type) where
  | conf (kind : NginxRuleKind) (name : String) (data : Conf φ)
  | secret (path content : String)

def Store.write {φ : Type} (s : Store φ) : Write φ → Store φ
  | .conf kind name data => s.writeConfFile name data kind
  | .secret path content => s.writeSecret path content

/-! ## Answers of the daemon -/

/-- a container: its address on each network it is on -/
structure Process where
  name : String
  networks : List (String × Option String)

structure Cargo where
  cargoKey : String
  instances : List Process

structure Vm where
  vmKey : String
  instances : List Process

structure Secret where
  name : String
  data : Lib.Json

/-- what the daemon answers: the addresses of the host and of the bridge, and what it inspects -/
structure NanocldClient where
  hostAddr : Except String String
  bridgeAddr : Except String String
  inspectCargo : String → String → Except String Cargo
  inspectVm : String → String → Except String Vm
  inspectSecret : String → Except String Secret

/-! ## Parts -/

section Generate

variable {ι φ : Type} (client : NanocldClient) (ipText : ι → String) (dir : String)

/-- `parse_upstream_target` -/
def parseUpstreamTarget (key : String) : Except String (String × String × String) :=
  match (key.toList.splitOn '.').map String.ofList with
  | name :: namespaceName :: kind :: _ => .ok (name, namespaceName, kind)
  | _ => .error "TargetKey: Invalid expected <name>.<namespace>.<kind>"

/-- `get_addresses` -/
def getAddresses (processes : List Process) (network : String) : Except String (List String) :=
  let addresses := processes.filterMap fun process =>
    if "tmp-".toList.isPrefixOf process.name.toList then none
    else ((process.networks.lookup network).bind id).filter (· ≠ "")
  if addresses = [] then
    .error ("Process: No address found for " ++ network ++ " are processes running ?")
  else .ok addresses

/-- `get_network_addr` -/
def getNetworkAddr (network : NetworkKind ι) (port : UInt16) : Except String String :=
  match network with
  | .all => .ok (toString port.toNat)
  | .publicOnly => client.hostAddr.map fun ip => ip ++ ":" ++ toString port.toNat
  | .localOnly => .ok ("127.0.0.1:" ++ toString port.toNat)
  | .internal => client.bridgeAddr.map fun ip => ip ++ ":" ++ toString port.toNat
  | .other ip => .ok (ipText ip ++ ":" ++ toString port.toNat)

/-- `gen_ssl_config`: a secret is written to files, and the configuration names them -/
def genSslConfig : ProxySsl → List (Write φ) × Except String ProxySslConfig
  | .config config => ([], .ok config)
  | .secret name =>
    match client.inspectSecret name with
    | .error e => ([], .error e)
    | .ok secret =>
      match proxySslConfig.decode secret.data with
      | none => ([], .error "Unable to deserialize ProxySslConfig")
      | some ssl =>
        let path := dir ++ "/secrets/" ++ secret.name
        ([.secret (path ++ ".cert") ssl.certificate, .secret (path ++ ".key") ssl.certificateKey] ++
            (ssl.certificateClient.map fun ca => .secret (path ++ ".ca") ca).toList ++
            (ssl.dhparam.map fun pem => .secret (path ++ ".pem") pem).toList,
          .ok { ssl with
            certificate := path ++ ".cert"
            certificateKey := path ++ ".key"
            certificateClient := ssl.certificateClient.map fun _ => path ++ ".ca"
            dhparam := ssl.dhparam.map fun _ => path ++ ".pem" })

/-- the certificate of an entry, if it has one that is to be had -/
def sslOf : Option ProxySsl → List (Write φ) × Option ProxySslConfig
  | none => ([], none)
  | some ssl => ((genSslConfig client dir ssl).1, (genSslConfig (φ := φ) client dir ssl).2.toOption)

/-- the upstream of a cargo or a VM: its name and its addresses -/
def upstreamOf (target : UpstreamTarget) : Except String (String × List String) := do
  let (name, namespaceName, kind) ← parseUpstreamTarget target.key
  match kind with
  | "c" =>
    let cargo ← client.inspectCargo name namespaceName
    let addresses ← getAddresses cargo.instances "nanoclbr0"
    .ok (cargo.cargoKey ++ "-" ++ toString target.port.toNat ++ "-cargo", addresses)
  | "v" =>
    let vm ← client.inspectVm name namespaceName
    let addresses ← getAddresses vm.instances "nanoclbr0"
    .ok (vm.vmKey ++ "-" ++ toString target.port.toNat ++ "-vm", addresses)
  | kind => .error ("UpstreamTarget: Unknown Kind " ++ kind)

/-- `gen_upstream` -/
def genUpstream (target : UpstreamTarget) (kind : NginxRuleKind) : List (Write φ) × Except String String :=
  match upstreamOf client target with
  | .error e => ([], .error e)
  | .ok (key, addresses) => ([.conf kind key (.upstream key target.port addresses)], .ok key)

def unixKey (unix : UnixTarget) : String := "unix-" ++ unix.unixPath.map fun c => if c = '/' then '-' else c

/-- `gen_unix_target_key` -/
def genUnixTargetKey (unix : UnixTarget) (kind : NginxRuleKind) : List (Write φ) × String :=
  ([.conf kind (unixKey unix) (.unixUpstream (unixKey unix) unix.unixPath)], unixKey unix)

/-- `gen_stream_upstream_key` -/
def genStreamUpstreamKey : StreamTarget → List (Write φ) × Except String String
  | .upstream target => genUpstream client target .stream
  | .unix unix => ((genUnixTargetKey unix .stream).1, .ok (genUnixTargetKey (φ := φ) unix .stream).2)
  | .uri _ => ([], .error "StreamTarget: uri not supported")

/-- a stream entry: its server, unless the target or the certificate is not to be had -/
def streamEntry (name : String) (rule : ProxyRuleStream ι) : List (Write φ) × Except String (Option StreamTemplate) :=
  match getNetworkAddr client ipText rule.network rule.port with
  | .error e => ([], .error e)
  | .ok listen =>
    match genStreamUpstreamKey client rule.target with
    | (writes, .error _) => (writes, .ok none)
    | (writes, .ok upstreamKey) =>
      let ssl := sslOf client dir rule.ssl
      (writes ++ ssl.1, .ok (if rule.ssl.isSome ∧ ssl.2 = none then none else some ⟨listen, name, upstreamKey, ssl.2⟩))

/-- `Display` of `UrlRedirect` -/
def UrlRedirect.display : UrlRedirect → String
  | .movedPermanently => "301"
  | .permanent => "308"
  | .temporary => "307"

/-- a location of an HTTP entry, unless its target is not to be had -/
def locationEntry (location : ProxyHttpLocation φ) : List (Write φ) × Option (LocationTemplate φ) :=
  match location.target with
  | .upstream target =>
    match genUpstream client target .site with
    | (writes, .error _) => (writes, none)
    | (writes, .ok upstreamKey) =>
      let ssl := sslOf client dir target.ssl
      (writes ++ ssl.1, some {
        path := location.path
        limitReq := location.limitReq
        upstreamKey := if ssl.2.isSome then "https://" ++ upstreamKey else "http://" ++ upstreamKey
        redirect := none
        upstreamPath := target.path.getD "/"
        version := location.version
        allowedIps := location.allowedIps
        headers := location.headers
        ssl := ssl.2 })
  | .unix unix =>
    let (writes, upstreamKey) := genUnixTargetKey unix .site
    (writes, some {
      path := location.path
      upstreamKey := "http://" ++ upstreamKey
      redirect := none
      limitReq := location.limitReq
      upstreamPath := "/"
      version := location.version
      allowedIps := location.allowedIps
      headers := location.headers
      ssl := none })
  | .http http =>
    ([], some {
      path := location.path
      upstreamKey := http.url
      limitReq := location.limitReq
      version := location.version
      upstreamPath := "/"
      allowedIps := location.allowedIps
      headers := location.headers
      redirect := http.redirect.map UrlRedirect.display
      ssl := none })

/-- the locations that are not left out -/
def locationEntries : List (ProxyHttpLocation φ) → List (Write φ) × List (LocationTemplate φ)
  | [] => ([], [])
  | location :: locations =>
    let (writes, entry) := locationEntry client dir location
    let (rest, entries) := locationEntries locations
    (writes ++ rest, entry.toList ++ entries)

/-- an HTTP entry: its server -/
def httpEntry (name : String) (rule : ProxyRuleHttp ι φ) : List (Write φ) × Except String (HttpTemplate φ) :=
  match getNetworkAddr client ipText rule.network (rule.port.getD 80) with
  | .error e => ([], .error e)
  | .ok listen =>
    match getNetworkAddr client ipText rule.network (rule.port.getD 443) with
    | .error e => ([], .error e)
    | .ok listenHttps =>
      let ssl := sslOf client dir rule.ssl
      let (writes, locations) := locationEntries client dir rule.locations
      (ssl.1 ++ writes, .ok {
        key := name
        limitReqZone := rule.limitReqZone
        listen
        listenHttps
        domain := rule.domain
        locations
        ssl := ssl.2
        hideUpstream := rule.ssl.isSome ∧ ssl.2 = none })

/-- the two parts of a rule -/
structure Parts (φ : Type) where
  stream : List StreamTemplate
  http : List (HttpTemplate φ)

/-- **The loop of `add_rule`**: an entry without a network address ends it. -/
def generate (name : String) : List (ProxyRule ι φ) → List (Write φ) × Except String (Parts φ)
  | [] => ([], .ok ⟨[], []⟩)
  | .stream rule :: rules =>
    match streamEntry client ipText dir name rule with
    | (writes, .error e) => (writes, .error e)
    | (writes, .ok entry) =>
      let (rest, parts) := generate name rules
      (writes ++ rest, parts.map fun parts => { parts with stream := entry.toList ++ parts.stream })
  | .http rule :: rules =>
    match httpEntry client ipText dir name rule with
    | (writes, .error e) => (writes, .error e)
    | (writes, .ok server) =>
      let (rest, parts) := generate name rules
      (writes ++ rest, parts.map fun parts => { parts with http := server :: parts.http })

/-! ## The two calls -/

/-- `del_rule` -/
def delRule (name : String) (s : Store φ) : Store φ := (s.deleteConfFile name .site).deleteConfFile name .stream

/-- a part is written if there is something in it -/
def writeParts (name : String) (parts : Parts φ) (s : Store φ) : Store φ :=
  let s := if parts.stream ≠ [] then s.writeConfFile name (.stream parts.stream) .stream else s
  if parts.http ≠ [] then s.writeConfFile name (.http parts.http) .site else s

/-- `add_rule`, where `test` is what nginx says of the files -/
def addRule (test : Store φ → Except String Unit) (name : String) (rule : ResourceProxyRule ι φ) (s : Store φ) :
    Except String Unit × Store φ :=
  let (writes, parts) := generate client ipText dir name rule.rules
  let s := writes.foldl Store.write s
  match parts with
  | .error e => (.error e, s)
  | .ok parts =>
    let s := writeParts name parts s
    match test s with
    | .ok () => (.ok (), s)
    | .error e => (.error e, delRule name s)

end Generate

end Nanocl.Proxy.Nginx
