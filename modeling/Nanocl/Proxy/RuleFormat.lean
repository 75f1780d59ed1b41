/-
The format of proxy rules, which the daemon stores and `ncproxy`, `ncvpnkit` and the daemon itself read.

Each structure is the record of its fields under their names in Pascal case: a field that is optional is left out if there is
nothing in it, but the port of an HTTP rule and the delay of a limit are then written as `null`. No structure takes a field
that it does not have. Four choices are untagged and read with the first variant that accepts, so they rest on the fields
that the earlier variants need and the later ones lack.

- `resourceProxyRule`: the format of a whole rule.
- `rule_round_trip`: a rule is read as it was written, also if the store moves the fields of its objects, and no value of a
  later variant is read as one of an earlier.
-/
import Nanocl.Lib.Serde
import Nanocl.Proxy.Rule

namespace Nanocl.Proxy

open Lib Lib.Json Lib.Codec Lib.Field Lib.Record

/-- the text of an address -/
structure IpText (ι : Type) where
  toText : ι → String
  ofText : String → Option ι
  ofText_toText : ∀ ip, ofText (toText ip) = some ip

theorem IpText.some_id (text : String) : some (id text) = some text := rfl

variable {ι φ : Type} (ip : IpText ι) (float : Codec φ)

/-! ## Enumerations -/

/-- the variants of the networks; an address is held by the last one -/
def networkKind : Codec (NetworkKind ι) where
  encode
    | .all => .str "All"
    | .localOnly => .str "Local"
    | .publicOnly => .str "Public"
    | .internal => .str "Internal"
    | .other a => .obj [("Other", .str (ip.toText a))]
  decode j := (variantOf j).bind fun
    | ("All", o) => if isUnit o then some .all else none
    | ("Local", o) => if isUnit o then some .localOnly else none
    | ("Public", o) => if isUnit o then some .publicOnly else none
    | ("Internal", o) => if isUnit o then some .internal else none
    | ("Other", some (.str s)) => (ip.ofText s).map NetworkKind.other
    | _ => none
  decode_encode := by
    rintro (_ | _ | _ | _ | a) j h
    · cases h
      rfl
    · cases h
      rfl
    · cases h
      rfl
    · cases h
      rfl
    · obtain ⟨_, rfl, ⟨⟩⟩ := h.single
      show (ip.ofText (ip.toText a)).map NetworkKind.other = _
      rw [ip.ofText_toText]
      rfl
  encode_ne_null n h := by cases n <;> cases h

def urlRedirect : Codec UrlRedirect :=
  variants
    (fun
      | .movedPermanently => "MovedPermanently"
      | .permanent => "Permanent"
      | .temporary => "Temporary")
    (fun
      | "MovedPermanently" => some .movedPermanently
      | "Permanent" => some .permanent
      | "Temporary" => some .temporary
      | _ => none)
    (fun r => by cases r <;> rfl)

def proxyStreamProtocol : Codec ProxyStreamProtocol :=
  variants
    (fun
      | .tcp => "Tcp"
      | .udp => "Udp")
    (fun
      | "Tcp" => some .tcp
      | "Udp" => some .udp
      | _ => none)
    (fun p => by cases p <;> rfl)

/-! ## Targets -/

def proxySslConfigFields : Record ProxySslConfig :=
  (cons (required "Certificate" text) <| cons (required "CertificateKey" text) <|
    cons (skipped "CertificateClient" text) <| cons (skipped "VerifyClient" bool) <|
    cons (skipped "Dhparam" text) nil).map
    (fun (a, b, c, d, e, ()) => ⟨a, b, c, d, e⟩)
    (fun s => (s.certificate, s.certificateKey, s.certificateClient, s.verifyClient, s.dhparam, ())) fun _ => rfl

def proxySslConfig : Codec ProxySslConfig := proxySslConfigFields.codec (by simp [proxySslConfigFields])

/-- a name is not a configuration -/
theorem proxySslConfig_text (s : String) (j : Json) (h : Same (text.encode s) j) : proxySslConfig.decode j = none := by
  cases h
  rfl

def proxySsl : Codec ProxySsl :=
  (proxySslConfig.orElse text proxySslConfig_text).map
    (fun
      | .inl c => .config c
      | .inr s => .secret s)
    (fun
      | .config c => .inl c
      | .secret s => .inr s)
    (fun s => by cases s <;> rfl)

def upstreamTargetFields : Record UpstreamTarget :=
  (cons (required "Key" text) <| cons (required "Port" u16) <| cons (skipped "Path" text) <|
    cons (skipped "DisableLogging" bool) <| cons (skipped "Ssl" proxySsl) nil).map
    (fun (a, b, c, d, e, ()) => ⟨a, b, c, d, e⟩)
    (fun s => (s.key, s.port, s.path, s.disableLogging, s.ssl, ())) fun _ => rfl

def upstreamTarget : Codec UpstreamTarget := upstreamTargetFields.codec (by simp [upstreamTargetFields])

def httpTargetFields : Record HttpTarget :=
  (cons (required "Url" text) <| cons (skipped "Redirect" urlRedirect) nil).map
    (fun (a, b, ()) => ⟨a, b⟩) (fun s => (s.url, s.redirect, ())) fun _ => rfl

def httpTarget : Codec HttpTarget := httpTargetFields.codec (by simp [httpTargetFields])

def uriTargetFields : Record UriTarget :=
  (cons (required "Uri" text) nil).map (fun (a, ()) => ⟨a⟩) (fun s => (s.uri, ())) fun _ => rfl

def uriTarget : Codec UriTarget := uriTargetFields.codec (by simp [uriTargetFields])

def unixTargetFields : Record UnixTarget :=
  (cons (required "UnixPath" text) nil).map (fun (a, ()) => ⟨a⟩) (fun s => (s.unixPath, ())) fun _ => rfl

def unixTarget : Codec UnixTarget := unixTargetFields.codec (by simp [unixTargetFields])

/-- a structure without the first field of another one is not read as it -/
theorem upstreamTarget_needs : upstreamTargetFields.Needs "Key" := (needs_required _ _ _ _).map _ _ _

theorem httpTarget_needs : httpTargetFields.Needs "Url" := (needs_required _ _ _ _).map _ _ _

theorem uriTarget_needs : uriTargetFields.Needs "Uri" := (needs_required _ _ _ _).map _ _ _

theorem upstreamTarget_http (t : HttpTarget) (j : Json) (h : Same (httpTarget.encode t) j) :
    upstreamTarget.decode j = none :=
  refuses_of_needs upstreamTarget_needs (by decide) _ _ t j h

theorem upstreamTarget_uri (t : UriTarget) (j : Json) (h : Same (uriTarget.encode t) j) :
    upstreamTarget.decode j = none :=
  refuses_of_needs upstreamTarget_needs (by decide) _ _ t j h

theorem upstreamTarget_unix (t : UnixTarget) (j : Json) (h : Same (unixTarget.encode t) j) :
    upstreamTarget.decode j = none :=
  refuses_of_needs upstreamTarget_needs (by decide) _ _ t j h

theorem httpTarget_unix (t : UnixTarget) (j : Json) (h : Same (unixTarget.encode t) j) : httpTarget.decode j = none :=
  refuses_of_needs httpTarget_needs (by decide) _ _ t j h

theorem uriTarget_unix (t : UnixTarget) (j : Json) (h : Same (unixTarget.encode t) j) : uriTarget.decode j = none :=
  refuses_of_needs uriTarget_needs (by decide) _ _ t j h

def locationTarget : Codec LocationTarget :=
  (upstreamTarget.orElse (httpTarget.orElse unixTarget httpTarget_unix) fun
      | .inl t => upstreamTarget_http t
      | .inr t => upstreamTarget_unix t).map
    (fun
      | .inl t => .upstream t
      | .inr (.inl t) => .http t
      | .inr (.inr t) => .unix t)
    (fun
      | .upstream t => .inl t
      | .http t => .inr (.inl t)
      | .unix t => .inr (.inr t))
    (fun t => by cases t <;> rfl)

def streamTarget : Codec StreamTarget :=
  (upstreamTarget.orElse (uriTarget.orElse unixTarget uriTarget_unix) fun
      | .inl t => upstreamTarget_uri t
      | .inr t => upstreamTarget_unix t).map
    (fun
      | .inl t => .upstream t
      | .inr (.inl t) => .uri t
      | .inr (.inr t) => .unix t)
    (fun
      | .upstream t => .inl t
      | .uri t => .inr (.inl t)
      | .unix t => .inr (.inr t))
    (fun t => by cases t <;> rfl)

/-! ## Rules -/

def proxyRuleStreamFields : Record (ProxyRuleStream ι) :=
  (cons (required "Network" (networkKind ip)) <| cons (required "Protocol" proxyStreamProtocol) <|
    cons (required "Port" u16) <| cons (skipped "Ssl" proxySsl) <| cons (required "Target" streamTarget) nil).map
    (fun (a, b, c, d, e, ()) => ⟨a, b, c, d, e⟩)
    (fun s => (s.network, s.protocol, s.port, s.ssl, s.target, ())) fun _ => rfl

def proxyRuleStream : Codec (ProxyRuleStream ι) := (proxyRuleStreamFields ip).codec (by simp [proxyRuleStreamFields])

def limitReqZone : Codec LimitReqZone :=
  ((cons (required "Size" u64) <| cons (required "Rate" u64) nil).map
    (fun (a, b, ()) => ⟨a, b⟩) (fun s => (s.size, s.rate, ())) fun _ => rfl).codec

def limitReq : Codec LimitReq :=
  ((cons (required "Burst" u64) <| cons (nullable "Delay" u64) nil).map
    (fun (a, b, ()) => ⟨a, b⟩) (fun s => (s.burst, s.delay, ())) fun _ => rfl).codec

def proxyHttpLocation : Codec (ProxyHttpLocation φ) :=
  ((cons (required "Path" text) <| cons (required "Target" locationTarget) <| cons (skipped "LimitReq" limitReq) <|
    cons (skipped "AllowedIps" text.list) <| cons (skipped "Headers" text.list) <|
    cons (skipped "Version" float) nil).map
    (fun (a, b, c, d, e, f, ()) => ⟨a, b, c, d, e, f⟩)
    (fun s => (s.path, s.target, s.limitReq, s.allowedIps, s.headers, s.version, ())) fun _ => rfl).codec

def proxyRuleHttpFields : Record (ProxyRuleHttp ι φ) :=
  (cons (skipped "Domain" text) <| cons (nullable "Port" u16) <| cons (required "Network" (networkKind ip)) <|
    cons (skipped "LimitReqZone" limitReqZone) <| cons (required "Locations" (proxyHttpLocation float).list) <|
    cons (skipped "Ssl" proxySsl) <| cons (skipped "Includes" text.list) nil).map
    (fun (a, b, c, d, e, f, g, ()) => ⟨a, b, c, d, e, f, g⟩)
    (fun s => (s.domain, s.port, s.network, s.limitReqZone, s.locations, s.ssl, s.includes, ())) fun _ => rfl

def proxyRuleHttp : Codec (ProxyRuleHttp ι φ) := (proxyRuleHttpFields ip float).codec (by simp [proxyRuleHttpFields])

theorem proxyRuleHttp_needs : (proxyRuleHttpFields ip float).Needs "Locations" :=
  (((((needs_required _ _ _ _).cons _ _).cons _ _).cons _ _).cons _ _).map _ _ _

theorem proxyRuleHttp_stream (r : ProxyRuleStream ι) (j : Json) (h : Same ((proxyRuleStream ip).encode r) j) :
    (proxyRuleHttp ip float).decode j = none :=
  refuses_of_needs (proxyRuleHttp_needs ip float) (by simp [proxyRuleStreamFields]) _ _ r j h

def proxyRule : Codec (ProxyRule ι φ) :=
  ((proxyRuleHttp ip float).orElse (proxyRuleStream ip) (proxyRuleHttp_stream ip float)).map
    (fun
      | .inl r => .http r
      | .inr r => .stream r)
    (fun
      | .http r => .inl r
      | .stream r => .inr r)
    (fun r => by cases r <;> rfl)

def resourceProxyRule : Codec (ResourceProxyRule ι φ) :=
  ((cons (required "Rules" (proxyRule ip float).list) nil).map
    (fun (a, ()) => ⟨a⟩) (fun s => (s.rules, ())) fun _ => rfl).codec

/-- **A rule is read as it was written**, also from a store that moves the fields of its objects; and what is written for a
variant of an untagged choice is not read as an earlier one. -/
theorem rule_round_trip :
    (∀ rule : ResourceProxyRule ι φ,
      (resourceProxyRule ip float).decode ((resourceProxyRule ip float).encode rule) = some rule ∧
      ∀ j, Same ((resourceProxyRule ip float).encode rule) j → (resourceProxyRule ip float).decode j = some rule) ∧
    (∀ (r : ProxyRuleStream ι) (j : Json), Same ((proxyRuleStream ip).encode r) j → (proxyRuleHttp ip float).decode j = none) ∧
    (∀ (s : String) (j : Json), Same (text.encode s) j → proxySslConfig.decode j = none) ∧
    (∀ (t : HttpTarget) (j : Json), Same (httpTarget.encode t) j → upstreamTarget.decode j = none) ∧
    (∀ (t : UriTarget) (j : Json), Same (uriTarget.encode t) j → upstreamTarget.decode j = none) ∧
    ∀ (t : UnixTarget) (j : Json), Same (unixTarget.encode t) j →
      upstreamTarget.decode j = none ∧ httpTarget.decode j = none ∧ uriTarget.decode j = none := by
  refine ⟨fun rule => ⟨?_, ?_⟩, proxyRuleHttp_stream ip float, proxySslConfig_text, upstreamTarget_http,
    upstreamTarget_uri, fun t j h => ⟨upstreamTarget_unix t j h, httpTarget_unix t j h, uriTarget_unix t j h⟩⟩
  · exact (resourceProxyRule ip float).decode_encode_self rule
  · exact (resourceProxyRule ip float).decode_encode rule

end Nanocl.Proxy
