/-
The rules that an update of a secret refreshes (`list_by_secret` of `ncproxy`), and those that use the secret: `add_rule`
reads it for the certificate of an HTTP entry, for that of a stream entry whose target it resolves, and for that of the
target of a location, if it resolves it.

The lookup asks for the entries that have the secret as their own certificate. It does not see the targets of locations,
and a read has 100 rows at most.

- `Loads`: what `add_rule` puts together depends on what the daemon answers for the secret.

- `loads_iff`: it does if an entry of the rule reads the secret.

- `list_by_secret_iff`: the lookup returns the rules that load the secret exactly if each of them has it as the
  certificate of an entry and is one of the newest 100 that do, and none of those names it in unresolved streams only.

Counterexample: `upstream_secret_missed`.
-/
import Nanocl.Proxy.Resources

namespace Nanocl.Proxy

open Nanocl.Lib Nginx

variable {ι φ : Type} (ipText : ι → String) (dir key : String)

/-! ## What a rule reads -/

/-- the daemon with another answer for one secret -/
def Nginx.NanocldClient.answering (client : NanocldClient) (name : String) (answer : Except String Secret) :
    NanocldClient :=
  { client with inspectSecret := Function.update client.inspectSecret name answer }

/-- `add_rule` would load the secret: what it writes and puts together depends on it -/
def Loads (rule : ResourceProxyRule ι φ) (name : String) : Prop :=
  ∃ client answer, generate (NanocldClient.answering client name answer) ipText dir key rule.rules ≠
    generate client ipText dir key rule.rules

/-- a key of a cargo or a VM -/
def UpstreamTarget.resolvable (target : UpstreamTarget) : Prop :=
  ∃ name nsp, parseUpstreamTarget target.key = .ok (name, nsp, "c") ∨
    parseUpstreamTarget target.key = .ok (name, nsp, "v")

def StreamTarget.resolvable : StreamTarget → Prop
  | .upstream target => target.resolvable
  | .unix _ => True
  | .uri _ => False

/-- an entry reads the secret -/
def ProxyRule.loads (name : String) : ProxyRule ι φ → Prop
  | .http rule => rule.ssl = some (.secret name) ∨
      ∃ location ∈ rule.locations, ∃ t, location.target = .upstream t ∧ t.resolvable ∧ t.ssl = some (.secret name)
  | .stream rule => rule.ssl = some (.secret name) ∧ rule.target.resolvable

variable {ipText dir key} {client : NanocldClient} {name : String} {answer : Except String Secret}

theorem resolvable_of_upstreamOf {target : UpstreamTarget} {p : String × List String}
    (h : upstreamOf client target = .ok p) : target.resolvable := by
  unfold upstreamOf at h
  cases hparse : parseUpstreamTarget target.key with
  | error e =>
    rw [hparse] at h
    cases h
  | ok decoded =>
    obtain ⟨name, nsp, kind⟩ := decoded
    rw [hparse] at h
    simp only [bind, Except.bind] at h
    split at h
    · exact ⟨name, nsp, .inl hparse⟩
    · exact ⟨name, nsp, .inr hparse⟩
    · cases h

/-! ### Entries that do not read the secret -/

theorem sslOf_answering {ssl : Option ProxySsl} (h : ssl ≠ some (.secret name)) :
    sslOf (φ := φ) (client.answering name answer) dir ssl = sslOf client dir ssl := by
  cases ssl with
  | none => rfl
  | some ssl =>
    cases ssl with
    | config config => rfl
    | secret other =>
      have hne : other ≠ name := fun heq => h (by rw [heq])
      have hinspect : (client.answering name answer).inspectSecret other = client.inspectSecret other :=
        Function.update_of_ne hne _ _
      simp only [sslOf, genSslConfig, hinspect]

theorem resolvable_of_stream {target : StreamTarget} {upstreamKey : String}
    (h : (genStreamUpstreamKey (φ := φ) client target).2 = .ok upstreamKey) : target.resolvable := by
  cases target with
  | upstream target =>
    cases hup : upstreamOf client target with
    | error e => simp [genStreamUpstreamKey, genUpstream, hup] at h
    | ok p => exact resolvable_of_upstreamOf hup
  | unix unix => trivial
  | uri uri => cases h

theorem streamEntry_answering {rule : ProxyRuleStream ι} (h : ¬ (ProxyRule.stream rule : ProxyRule ι φ).loads name) :
    streamEntry (φ := φ) (client.answering name answer) ipText dir key rule = streamEntry client ipText dir key rule := by
  have haddr : getNetworkAddr (client.answering name answer) ipText rule.network rule.port =
      getNetworkAddr client ipText rule.network rule.port := rfl
  have hkey : genStreamUpstreamKey (φ := φ) (client.answering name answer) rule.target =
      genStreamUpstreamKey client rule.target := by
    cases rule.target <;> rfl
  rw [streamEntry, streamEntry, haddr, hkey]
  cases getNetworkAddr client ipText rule.network rule.port with
  | error e => rfl
  | ok listen =>
    rcases hup : genStreamUpstreamKey (φ := φ) client rule.target with ⟨writes, e | upstreamKey⟩
    · rfl
    · have hssl : rule.ssl ≠ some (.secret name) := fun heq =>
        h ⟨heq, resolvable_of_stream (congrArg Prod.snd hup)⟩
      simp only [sslOf_answering hssl]

theorem locationEntry_answering {location : ProxyHttpLocation φ}
    (h : ∀ t, location.target = .upstream t → t.resolvable → t.ssl ≠ some (.secret name)) :
    locationEntry (client.answering name answer) dir location = locationEntry client dir location := by
  unfold locationEntry
  cases htarget : location.target with
  | upstream target =>
    have hgen : genUpstream (φ := φ) (client.answering name answer) target .site = genUpstream client target .site := rfl
    dsimp only
    rw [hgen]
    cases hup : upstreamOf client target with
    | error e => simp only [genUpstream, hup]
    | ok p =>
      have hssl := h target htarget (resolvable_of_upstreamOf hup)
      simp only [genUpstream, hup, sslOf_answering hssl]
  | unix unix => rfl
  | http http => rfl

theorem locationEntries_answering {locations : List (ProxyHttpLocation φ)}
    (h : ∀ location ∈ locations, ∀ t, location.target = .upstream t → t.resolvable → t.ssl ≠ some (.secret name)) :
    locationEntries (client.answering name answer) dir locations = locationEntries client dir locations := by
  induction locations with
  | nil => rfl
  | cons location locations ih =>
    rw [locationEntries, locationEntries, locationEntry_answering (h location List.mem_cons_self),
      ih fun location hl => h location (List.mem_cons_of_mem _ hl)]

theorem httpEntry_answering {rule : ProxyRuleHttp ι φ} (h : ¬ (ProxyRule.http rule).loads name) :
    httpEntry (client.answering name answer) ipText dir key rule = httpEntry client ipText dir key rule := by
  rw [ProxyRule.loads, not_or] at h
  have hlocations : locationEntries (client.answering name answer) dir rule.locations =
      locationEntries client dir rule.locations :=
    locationEntries_answering fun location hl t ht hres hssl => h.2 ⟨location, hl, t, ht, hres, hssl⟩
  have haddr (port : UInt16) : getNetworkAddr (client.answering name answer) ipText rule.network port =
      getNetworkAddr client ipText rule.network port := rfl
  simp only [httpEntry, haddr, sslOf_answering h.1, hlocations]

theorem generate_answering {rules : List (ProxyRule ι φ)} (h : ∀ e ∈ rules, ¬ e.loads name) :
    generate (client.answering name answer) ipText dir key rules = generate client ipText dir key rules := by
  induction rules with
  | nil => rfl
  | cons e rules ih =>
    have hrest := ih fun e he => h e (List.mem_cons_of_mem _ he)
    have he := h e List.mem_cons_self
    cases e with
    | stream rule => rw [generate, generate, streamEntry_answering he, hrest]
    | http rule => rw [generate, generate, httpEntry_answering he, hrest]

/-! ### Entries that read it -/

/-- a daemon that resolves every target and has no secret -/
def openClient : NanocldClient where
  hostAddr := .ok "10.0.0.1"
  bridgeAddr := .ok "10.1.0.1"
  inspectCargo _ _ := .ok ⟨"", [⟨"", [("nanoclbr0", some "10.1.0.2")]⟩]⟩
  inspectVm _ _ := .ok ⟨"", [⟨"", [("nanoclbr0", some "10.1.0.2")]⟩]⟩
  inspectSecret _ := .error "not found"

/-- a certificate -/
def someSecret : Secret := ⟨"cert", proxySslConfig.encode ⟨"cert", "key", none, none, none⟩⟩

/-- no file of a secret is written -/
def NoSecret (writes : List (Write φ)) : Prop := ∀ path content, .secret path content ∉ writes

theorem noSecret_append {l l' : List (Write φ)} : NoSecret (l ++ l') ↔ NoSecret l ∧ NoSecret l' := by
  simp [NoSecret, forall_and]

theorem noSecret_sslOf (ssl : Option ProxySsl) : NoSecret (sslOf (φ := φ) openClient dir ssl).1 := by
  rcases ssl with _ | _ | _ <;> simp [NoSecret, sslOf, genSslConfig, openClient]

theorem noSecret_genUpstream (target : UpstreamTarget) (kind : NginxRuleKind) :
    NoSecret (genUpstream (φ := φ) openClient target kind).1 := by
  unfold genUpstream
  split <;> simp [NoSecret]

variable (ipText dir key) in
theorem noSecret_streamEntry (rule : ProxyRuleStream ι) :
    NoSecret (streamEntry (φ := φ) openClient ipText dir key rule).1 := by
  have hkey : NoSecret (genStreamUpstreamKey (φ := φ) openClient rule.target).1 := by
    cases rule.target with
    | upstream target => exact noSecret_genUpstream target .stream
    | unix unix => simp [NoSecret, genStreamUpstreamKey, genUnixTargetKey]
    | uri uri => simp [NoSecret, genStreamUpstreamKey]
  unfold streamEntry
  split
  · simp [NoSecret]
  · split
    · next heq =>
      rw [heq] at hkey
      exact hkey
    · next heq =>
      rw [heq] at hkey
      exact noSecret_append.2 ⟨hkey, noSecret_sslOf rule.ssl⟩

theorem noSecret_locationEntry (location : ProxyHttpLocation φ) :
    NoSecret (locationEntry openClient dir location).1 := by
  unfold locationEntry
  split
  · next target _ =>
    have hup := noSecret_genUpstream (φ := φ) target .site
    split
    · next heq =>
      rw [heq] at hup
      exact hup
    · next heq =>
      rw [heq] at hup
      exact noSecret_append.2 ⟨hup, noSecret_sslOf target.ssl⟩
  · simp [NoSecret, genUnixTargetKey]
  · simp [NoSecret]

theorem noSecret_locationEntries (locations : List (ProxyHttpLocation φ)) :
    NoSecret (locationEntries openClient dir locations).1 := by
  induction locations with
  | nil => simp [NoSecret, locationEntries]
  | cons location locations ih => exact noSecret_append.2 ⟨noSecret_locationEntry location, ih⟩

variable (ipText dir key) in
theorem noSecret_httpEntry (rule : ProxyRuleHttp ι φ) : NoSecret (httpEntry openClient ipText dir key rule).1 := by
  unfold httpEntry
  split
  · simp [NoSecret]
  · split
    · simp [NoSecret]
    · exact noSecret_append.2 ⟨noSecret_sslOf rule.ssl, noSecret_locationEntries rule.locations⟩

variable (ipText dir key) in
theorem noSecret_generate (rules : List (ProxyRule ι φ)) : NoSecret (generate openClient ipText dir key rules).1 := by
  induction rules with
  | nil => simp [NoSecret, generate]
  | cons e rules ih =>
    cases e with
    | stream rule =>
      have he := noSecret_streamEntry (φ := φ) ipText dir key rule
      rw [generate]
      split
      · next heq =>
        rw [heq] at he
        exact he
      · next heq =>
        rw [heq] at he
        exact noSecret_append.2 ⟨he, ih⟩
    | http rule =>
      have he := noSecret_httpEntry ipText dir key rule
      rw [generate]
      split
      · next heq =>
        rw [heq] at he
        exact he
      · next heq =>
        rw [heq] at he
        exact noSecret_append.2 ⟨he, ih⟩

/-! With the secret, each entry that reads it writes its files. -/

/-- the daemon that resolves every target and has the secret -/
def secretClient (name : String) : NanocldClient := openClient.answering name (.ok someSecret)

theorem secret_mem_sslOf (name : String) :
    ¬ NoSecret (sslOf (φ := φ) (secretClient name) dir (some (.secret name))).1 := by
  have hinspect : (secretClient name).inspectSecret name = .ok someSecret := Function.update_self _ _ _
  have hdecode : proxySslConfig.decode someSecret.data = some ⟨"cert", "key", none, none, none⟩ :=
    proxySslConfig.decode_encode_self _
  intro h
  refine h (dir ++ "/secrets/" ++ someSecret.name ++ ".cert") "cert" ?_
  simp [sslOf, genSslConfig, hinspect, hdecode]

variable (ipText) in
theorem getNetworkAddr_secretClient (name : String) (network : NetworkKind ι) (port : UInt16) :
    ∃ addr, getNetworkAddr (secretClient name) ipText network port = .ok addr := by
  cases network <;> exact ⟨_, rfl⟩

theorem upstreamOf_secretClient (name : String) {target : UpstreamTarget} (h : target.resolvable) :
    ∃ p, upstreamOf (secretClient name) target = .ok p := by
  obtain ⟨n, nsp, h | h⟩ := h
  · exact ⟨_, by rw [upstreamOf, h]; rfl⟩
  · exact ⟨_, by rw [upstreamOf, h]; rfl⟩

theorem genStreamUpstreamKey_secretClient (name : String) {target : StreamTarget} (h : target.resolvable) :
    ∃ writes upstreamKey, genStreamUpstreamKey (φ := φ) (secretClient name) target = (writes, .ok upstreamKey) := by
  cases target with
  | upstream target =>
    obtain ⟨p, hp⟩ := upstreamOf_secretClient name h
    exact ⟨_, _, by rw [genStreamUpstreamKey, genUpstream, hp]⟩
  | unix unix => exact ⟨_, _, rfl⟩
  | uri uri => exact h.elim

variable (ipText dir key) in
theorem streamEntry_secretClient (name : String) (rule : ProxyRuleStream ι) :
    ∃ writes entry, streamEntry (φ := φ) (secretClient name) ipText dir key rule = (writes, .ok entry) ∧
      ((ProxyRule.stream rule : ProxyRule ι φ).loads name → ¬ NoSecret writes) := by
  obtain ⟨addr, haddr⟩ := getNetworkAddr_secretClient ipText name rule.network rule.port
  rw [streamEntry, haddr]
  rcases hkey : genStreamUpstreamKey (φ := φ) (secretClient name) rule.target with ⟨writes, e | upstreamKey⟩
  · refine ⟨_, _, rfl, fun hloads => ?_⟩
    obtain ⟨writes', upstreamKey, hok⟩ := genStreamUpstreamKey_secretClient (φ := φ) name hloads.2
    rw [hok] at hkey
    cases hkey
  · refine ⟨_, _, rfl, fun hloads hno => ?_⟩
    rw [hloads.1] at hno
    exact secret_mem_sslOf name (noSecret_append.1 hno).2

theorem secret_mem_locationEntry {location : ProxyHttpLocation φ} {t : UpstreamTarget}
    (htarget : location.target = .upstream t) (hres : t.resolvable) (hssl : t.ssl = some (.secret name)) :
    ¬ NoSecret (locationEntry (secretClient name) dir location).1 := by
  obtain ⟨p, hp⟩ := upstreamOf_secretClient name hres
  unfold locationEntry
  rw [htarget]
  dsimp only
  rw [genUpstream, hp, hssl]
  exact fun hno => secret_mem_sslOf name (noSecret_append.1 hno).2

theorem secret_mem_locationEntries {locations : List (ProxyHttpLocation φ)} {location : ProxyHttpLocation φ}
    (hl : location ∈ locations) (h : ¬ NoSecret (locationEntry (secretClient name) dir location).1) :
    ¬ NoSecret (locationEntries (secretClient name) dir locations).1 := by
  induction locations with
  | nil => cases hl
  | cons location' locations ih =>
    intro hno
    obtain ⟨hfirst, hrest⟩ := noSecret_append.1 hno
    rcases List.mem_cons.1 hl with rfl | hl
    · exact h hfirst
    · exact ih hl hrest

variable (ipText dir key) in
theorem httpEntry_secretClient (name : String) (rule : ProxyRuleHttp ι φ) :
    ∃ writes server, httpEntry (secretClient name) ipText dir key rule = (writes, .ok server) ∧
      ((ProxyRule.http rule).loads name → ¬ NoSecret writes) := by
  obtain ⟨listen, hlisten⟩ := getNetworkAddr_secretClient ipText name rule.network (rule.port.getD 80)
  obtain ⟨listenHttps, hhttps⟩ := getNetworkAddr_secretClient ipText name rule.network (rule.port.getD 443)
  rw [httpEntry, hlisten, hhttps]
  refine ⟨_, _, rfl, fun hloads hno => ?_⟩
  obtain ⟨hssl, hlocations⟩ := noSecret_append.1 hno
  rcases hloads with heq | ⟨location, hl, t, ht, hres, heq⟩
  · rw [heq] at hssl
    exact secret_mem_sslOf name hssl
  · exact secret_mem_locationEntries hl (secret_mem_locationEntry ht hres heq) hlocations

theorem secret_mem_generate {rules : List (ProxyRule ι φ)} {e : ProxyRule ι φ} (he : e ∈ rules) (h : e.loads name) :
    ¬ NoSecret (generate (secretClient name) ipText dir key rules).1 := by
  induction rules with
  | nil => cases he
  | cons e' rules ih =>
    cases e' with
    | stream rule =>
      obtain ⟨writes, entry, heq, hloads⟩ := streamEntry_secretClient (φ := φ) ipText dir key name rule
      rw [generate, heq]
      intro hno
      obtain ⟨hentry, hrest⟩ := noSecret_append.1 hno
      rcases List.mem_cons.1 he with rfl | he
      · exact hloads h hentry
      · exact ih he hrest
    | http rule =>
      obtain ⟨writes, server, heq, hloads⟩ := httpEntry_secretClient ipText dir key name rule
      rw [generate, heq]
      intro hno
      obtain ⟨hentry, hrest⟩ := noSecret_append.1 hno
      rcases List.mem_cons.1 he with rfl | he
      · exact hloads h hentry
      · exact ih he hrest

/-- **What a rule loads**: the secrets that one of its entries reads. -/
theorem loads_iff {rule : ResourceProxyRule ι φ} : Loads ipText dir key rule name ↔ ∃ e ∈ rule.rules, e.loads name := by
  constructor
  · rintro ⟨client, answer, hne⟩
    by_contra hno
    push Not at hno
    exact hne (generate_answering hno)
  · rintro ⟨e, he, hloads⟩
    refine ⟨openClient, .ok someSecret, fun heq => ?_⟩
    have hno := noSecret_generate ipText dir key rule.rules
    rw [← heq] at hno
    exact secret_mem_generate he hloads hno

/-! ## The lookup -/

section Lookup

variable {ip : IpText ι} {float : Codec φ}

/-- what is stored for a resource of the kind is the rule that the controller answered -/
def RulesStored (ip : IpText ι) (float : Codec φ) (resources : List ResourceDb) : Prop :=
  ∀ r ∈ resources, r.kind = ruleKind → ∃ rule, Lib.Json.Same ((resourceProxyRule ip float).encode rule) r.data

/-- an entry of the rule has the secret as its own certificate -/
def OwnSecret (rule : ResourceProxyRule ι φ) (name : String) : Prop := ∃ e ∈ rule.rules, e.ssl = some (.secret name)

instance (rule : ResourceProxyRule ι φ) (name : String) : Decidable (OwnSecret rule name) :=
  inferInstanceAs (Decidable (∃ e ∈ rule.rules, _))

/-- the rules of which an entry has the secret -/
def owners (ip : IpText ι) (float : Codec φ) (name : String) (resources : List ResourceDb) : List ResourceDb :=
  resources.filter fun r => decide (r.kind = ruleKind) &&
    ((resourceProxyRule ip float).decode r.data).any fun rule => decide (OwnSecret rule name)

/-- the lookup returns the rule exactly if it uses the secret -/
structure Refreshed (ip : IpText ι) (float : Codec φ) (resources : List ResourceDb) (r : ResourceDb)
    (rule : ResourceProxyRule ι φ) (name : String) : Prop where
  /-- the secret is not that of the targets of locations alone -/
  own : (∃ e ∈ rule.rules, e.loads name) → OwnSecret rule name
  /-- and no 100 newer rules have it -/
  newest : (∃ e ∈ rule.rules, e.loads name) → OwnSecret rule name → r ∈ newestRules (owners ip float name resources)
  /-- it is not that of stream entries alone whose targets are never resolved -/
  resolved : r ∈ newestRules (owners ip float name resources) → ∃ e ∈ rule.rules, e.loads name

theorem owners_eq {resources : List ResourceDb} (hstored : RulesStored ip float resources) (name : String) :
    owners ip float name resources = resources.filter (matchesPattern (secretPattern name)) := by
  refine List.filter_congr fun r hr => ?_
  unfold matchesPattern
  by_cases hkind : r.kind = ruleKind
  · obtain ⟨rule, hrule⟩ := hstored r hr hkind
    rw [(resourceProxyRule ip float).decode_encode rule r.data hrule, Option.any_some, Bool.eq_iff_iff, Bool.and_eq_true,
      Bool.and_eq_true, decide_eq_true_iff, namesSecret_iff ip float hrule]
    exact and_congr_right fun _ => decide_eq_true_iff
  · simp [hkind]

variable (ipText dir) in
/-- **The rules of a secret are found** exactly if a rule that loads it has it as the certificate of an entry, with no 100
newer rules that have it too, and no rule is found that names it in unresolved stream entries only. -/
theorem list_by_secret_iff (E : Externals) {resources : List ResourceDb} (hstored : RulesStored ip float resources)
    {r : ResourceDb} (hkind : r.kind = ruleKind) {rule : ResourceProxyRule ι φ}
    (hrule : Lib.Json.Same ((resourceProxyRule ip float).encode rule) r.data) (name : String) :
    ((∃ listed, listBySecret E name resources = .ok listed ∧ r ∈ listed) ↔ Loads ipText dir r.key rule name) ↔
      Refreshed ip float resources r rule name := by
  have hlisted : (∃ listed, listBySecret E name resources = .ok listed ∧ r ∈ listed) ↔
      r ∈ newestRules (owners ip float name resources) := by
    rw [owners_eq hstored]
    constructor
    · rintro ⟨listed, hlist, hmem⟩
      obtain ⟨-, rfl⟩ := (listBySecret_eq_ok E name resources listed).1 hlist
      exact hmem
    · intro hmem
      exact ⟨_, (listBySecret_eq_ok E name resources _).2 ⟨List.ne_nil_of_mem hmem, rfl⟩, hmem⟩
  have hown : r ∈ newestRules (owners ip float name resources) → OwnSecret rule name := fun hmem => by
    have howner := (List.mem_filter.1 (mem_of_mem_newestRules hmem)).2
    rw [(resourceProxyRule ip float).decode_encode rule r.data hrule] at howner
    simpa [hkind] using howner
  rw [hlisted, loads_iff]
  constructor
  · intro h
    exact ⟨fun hloads => hown (h.2 hloads), fun hloads _ => h.2 hloads, h.1⟩
  · rintro ⟨h₁, h₂, h₃⟩
    exact ⟨h₃, fun hloads => h₂ hloads (h₁ hloads)⟩

end Lookup

/-! ## One rule -/

/-- addresses as they are written -/
def writtenIp : IpText String := ⟨id, some, IpText.some_id⟩

/-- a rule for the cargo `web.global`, with a certificate for the server and one for its upstream -/
def certRule (ssl upstreamSsl : Option ProxySsl) : ResourceProxyRule String UInt64 where
  rules := [.http {
    domain := some "web.example"
    port := none
    network := .all
    limitReqZone := none
    locations := [{
      path := "/"
      target := .upstream ⟨"web.global.c", 8080, none, none, upstreamSsl⟩
      limitReq := none
      allowedIps := none
      headers := none
      version := none }]
    ssl := ssl
    includes := none }]

def ruleRow (rule : ResourceProxyRule String UInt64) : ResourceDb :=
  ⟨"web-rule", 0, ruleKind, (resourceProxyRule writtenIp Codec.u64).encode rule, none⟩

theorem ruleRow_stored (rule : ResourceProxyRule String UInt64) :
    RulesStored writtenIp Codec.u64 [ruleRow rule] := by
  intro r hr _
  obtain rfl := List.mem_singleton.1 hr
  exact ⟨rule, Lib.Json.Same.refl _⟩

/-- a rule whose server has the certificate -/
theorem list_by_secret_web :
    (∃ listed, listBySecret plainExternals "cert" [ruleRow (certRule (some (.secret "cert")) none)] = .ok listed ∧
        ruleRow (certRule (some (.secret "cert")) none) ∈ listed) ↔
      Loads id "/etc/nginx" "web-rule" (certRule (some (.secret "cert")) none) "cert" := by
  have hown : OwnSecret (certRule (some (.secret "cert")) none) "cert" := ⟨_, List.mem_singleton_self _, rfl⟩
  have hloads : ∃ e ∈ (certRule (some (.secret "cert")) none).rules, e.loads "cert" :=
    ⟨_, List.mem_singleton_self _, .inl rfl⟩
  have howners : owners writtenIp Codec.u64 "cert" [ruleRow (certRule (some (.secret "cert")) none)] =
      [ruleRow (certRule (some (.secret "cert")) none)] := by
    refine List.filter_eq_self.2 fun r hr => ?_
    obtain rfl := List.mem_singleton.1 hr
    simp only [ruleRow, Codec.decode_encode_self, Option.any_some, hown, decide_true, Bool.and_self]
  have hnewest : ruleRow (certRule (some (.secret "cert")) none) ∈
      newestRules (owners writtenIp Codec.u64 "cert" [ruleRow (certRule (some (.secret "cert")) none)]) := by
    rw [howners]
    exact List.mem_singleton_self _
  exact (list_by_secret_iff id "/etc/nginx" plainExternals (ruleRow_stored _) rfl
    (Lib.Json.Same.refl _) "cert").2 ⟨fun _ => hown, fun _ _ => hnewest, fun _ => hloads⟩

/-- the certificate of an upstream is loaded, but its rule is not found -/
theorem upstream_secret_missed :
    Loads id "/etc/nginx" "web-rule" (certRule none (some (.secret "cert"))) "cert" ∧
      ¬ ∃ listed, listBySecret plainExternals "cert" [ruleRow (certRule none (some (.secret "cert")))] = .ok listed ∧
        ruleRow (certRule none (some (.secret "cert"))) ∈ listed := by
  constructor
  · refine loads_iff.2 ⟨_, List.mem_singleton_self _, .inr ⟨_, List.mem_singleton_self _, _, rfl, ?_, rfl⟩⟩
    exact ⟨"web", "global", .inl rfl⟩
  · rintro ⟨listed, hlist, hmem⟩
    obtain ⟨-, rfl⟩ := (listBySecret_eq_ok _ _ _ _).1 hlist
    have hpattern := (namesSecret_iff writtenIp Codec.u64 (Lib.Json.Same.refl _) "cert").1 (contains_of_found hmem)
    obtain ⟨e, he, hssl⟩ := hpattern
    obtain rfl := List.mem_singleton.1 he
    cases hssl

end Nanocl.Proxy
