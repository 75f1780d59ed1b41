/-
The rules that the proxy controller asks the daemon for (`utils/resource.rs` of `ncproxy`): those that name a secret, and
those with a target that is a cargo.

Both ask for the resources of its kind whose data contains a pattern. What is stored is the rule as the controller wrote
it when the resource was made, with the fields of its objects in any order; a read without a limit has 100 rows at most.

- `readRules_eq`: the rows that are read are the newest 100 of those with the pattern.

- `namesSecret_iff`: the pattern of a secret is in the data if an entry of the rule has the secret as its own.

- `targets_iff`: the patterns of a cargo are in the data if a target of the rule has its key.
-/
import Nanocl.Proxy.Nginx
import Nanocl.Store.Filter

namespace Nanocl.Proxy

open Nanocl.Lib

/-! ## Resources in the store -/

/-- a row of `resources` with its current spec -/
structure ResourceDb where
  key : String
  /-- microseconds since the epoch -/
  createdAt : ℤ
  kind : String
  data : Json
  metadata : Option Json

namespace ResourceDb

/-- `get_columns` -/
def columns : Columns :=
  [("key", .text, "resources.key"), ("created_at", .timestamptz, "resources.created_at"),
   ("kind", .text, "resources.kind"), ("spec_key", .text, "resources.spec_key"), ("data", .json, "specs.data"),
   ("metadata", .json, "specs.metadata")]

/-- the columns that the controller filters and orders by -/
def toRow (r : ResourceDb) : Row
  | "resources.key" => .text r.key
  | "resources.created_at" => .time r.createdAt
  | "resources.kind" => .text r.kind
  | "specs.data" => .json r.data
  | _ => .null

/-- `created_at.desc()` -/
def newer (a b : ResourceDb) : Bool := b.createdAt ≤ a.createdAt

end ResourceDb

def ruleKind : String := "ncproxy.io/rule"

/-- `list_resource` of the rules whose data contains a pattern -/
def readRules (E : Externals) (pattern : Json) (resources : List ResourceDb) : Except String (List ResourceDb) := do
  let filter := (GenericFilter.new.where "kind" (.eq ruleKind)).where "data" (.contains pattern)
  let query ← genReadQuery E ResourceDb.columns ResourceDb.toRow ResourceDb.newer filter
  return query.run resources

def secretPattern (name : String) : Json := .obj [("Rules", .arr [.obj [("Ssl", .str name)]])]

/-- `list_by_secret` -/
def listBySecret (E : Externals) (name : String) (resources : List ResourceDb) : Except String (List ResourceDb) := do
  let resources ← readRules E (secretPattern name) resources
  if resources = [] then throw ("Resource: No resources found matching secret " ++ name)
  else return resources

/-- the pattern of the HTTP rules and that of the stream rules with a target -/
def locationPattern (key : String) : Json :=
  .obj [("Rules", .arr [.obj [("Locations", .arr [.obj [("Target", .obj [("Key", .str key)])]])]])]

def targetPattern (key : String) : Json := .obj [("Rules", .arr [.obj [("Target", .obj [("Key", .str key)])]])]

/-- `list_by_cargo` -/
def listByCargo (E : Externals) (name : String) (namespaceName : Option String) (resources : List ResourceDb) :
    Except String (List ResourceDb) := do
  let targetKey := name ++ "." ++ namespaceName.getD "global" ++ ".c"
  let httpResources ← readRules E (locationPattern targetKey) resources
  let streamResources ← readRules E (targetPattern targetKey) resources
  if httpResources ++ streamResources = [] then throw ("Resource: No resources found matching cargo " ++ targetKey)
  else return httpResources ++ streamResources

/-! ## What is read -/

/-- the newest rows, and no more than 100 -/
def newestRules (resources : List ResourceDb) : List ResourceDb :=
  (resources.insertionSort fun a b => ResourceDb.newer a b = true).take 100

/-- the row is a rule, and its data contains the pattern -/
def matchesPattern (pattern : Json) (r : ResourceDb) : Bool :=
  decide (r.kind = ruleKind) && r.data.contains pattern

/-- the rules with a pattern that a read returns -/
def found (pattern : Json) (resources : List ResourceDb) : List ResourceDb :=
  newestRules (resources.filter (matchesPattern pattern))

theorem readRules_eq (E : Externals) (pattern : Json) (resources : List ResourceDb) :
    readRules E pattern resources = .ok (found pattern resources) := by
  have hkind : ResourceDb.columns.get "kind" = some (.text, "resources.kind") := by decide
  have hdata : ResourceDb.columns.get "data" = some (.json, "specs.data") := by decide
  have hquery : genReadQuery E ResourceDb.columns ResourceDb.toRow ResourceDb.newer
      ((GenericFilter.new.where "kind" (.eq ruleKind)).where "data" (.contains pattern)) =
      .ok { clause := some (matchesPattern pattern), le := ResourceDb.newer, limit := some 100, offset := 0 } := by
    simp [genReadQuery, readOrder, genSqlQuery, GenericFilter.where, GenericFilter.new, Conditions.insert, genSqlWhere,
      genSqlWhere4string, genSqlWhere4json, filterBy, stringClause, jsonClause, Where.filter, onText, onJson,
      ResourceDb.toRow, hkind, hdata]
    rfl
  simp only [readRules, hquery]
  rfl

theorem listBySecret_eq_ok (E : Externals) (name : String) (resources listed : List ResourceDb) :
    listBySecret E name resources = .ok listed ↔
      found (secretPattern name) resources ≠ [] ∧ listed = found (secretPattern name) resources := by
  rw [listBySecret, readRules_eq, Except.ok_bind]
  split_ifs with h
  · simp [h]
  · simp [h, eq_comm]

theorem listByCargo_eq_ok (E : Externals) (name : String) (nsp : Option String) (resources listed : List ResourceDb) :
    listByCargo E name nsp resources = .ok listed ↔
      let key := name ++ "." ++ nsp.getD "global" ++ ".c"
      let all := found (locationPattern key) resources ++ found (targetPattern key) resources
      all ≠ [] ∧ listed = all := by
  rw [listByCargo, readRules_eq, readRules_eq, Except.ok_bind, Except.ok_bind]
  split_ifs with h
  · simp [h]
  · simp [h, eq_comm]

theorem mem_of_mem_newestRules {l : List ResourceDb} {r : ResourceDb} (h : r ∈ newestRules l) : r ∈ l :=
  (List.perm_insertionSort _ l).mem_iff.1 (List.mem_of_mem_take h)

/-- what is found has the pattern -/
theorem contains_of_found {pattern : Json} {resources : List ResourceDb} {r : ResourceDb}
    (h : r ∈ found pattern resources) : r.data.contains pattern = true := by
  have hmatch := (List.mem_filter.1 (mem_of_mem_newestRules h)).2
  rw [matchesPattern, Bool.and_eq_true] at hmatch
  exact hmatch.2

/-! ## Rules -/

open Lib Lib.Json Lib.Record Lib.Field

variable {ι φ : Type} (ip : IpText ι) (float : Codec φ)

/-- the certificate of an entry itself -/
def ProxyRule.ssl : ProxyRule ι φ → Option ProxySsl
  | .http rule => rule.ssl
  | .stream rule => rule.ssl

/-- the cargoes and VMs that an entry proxies to -/
def ProxyRule.targets : ProxyRule ι φ → List UpstreamTarget
  | .http rule => rule.locations.filterMap fun location =>
    match location.target with
    | .upstream target => some target
    | _ => none
  | .stream rule =>
    match rule.target with
    | .upstream target => [target]
    | _ => []

theorem nodup_write {α : Type} (r : Record α) (hnames : r.names.Nodup) (a : α) : ((r.write a).map Prod.fst).Nodup :=
  hnames.sublist (r.write_names a)

theorem lookup_ssl_http (rule : ProxyRuleHttp ι φ) :
    ((proxyRuleHttpFields ip float).write rule).lookup "Ssl" = rule.ssl.map proxySsl.encode := by
  simp [proxyRuleHttpFields, Record.lookup_map, Record.lookup_cons, Field.skipped]

theorem lookup_ssl_stream (rule : ProxyRuleStream ι) :
    ((proxyRuleStreamFields ip).write rule).lookup "Ssl" = rule.ssl.map proxySsl.encode := by
  simp [proxyRuleStreamFields, Record.lookup_map, Record.lookup_cons, Field.skipped]

theorem encode_proxySsl_eq_str {ssl : ProxySsl} {name : String} :
    proxySsl.encode ssl = .str name ↔ ssl = .secret name := by
  cases ssl with
  | config config => exact iff_of_false (fun h => by cases h) (fun h => by cases h)
  | secret s => exact ⟨fun h => by cases h; rfl, fun h => by cases h; rfl⟩

theorem contains_ssl {e : ProxyRule ι φ} {j : Json} (h : Same ((proxyRule ip float).encode e) j) (name : String) :
    j.deepContains (.obj [("Ssl", .str name)]) = true ↔ e.ssl = some (.secret name) := by
  have hP (o : Option ProxySsl) : (∃ i, o.map proxySsl.encode = some i ∧ i = .str name) ↔ o = some (.secret name) := by
    simp [encode_proxySsl_eq_str]
  cases e with
  | http rule =>
    have hnodup := nodup_write (proxyRuleHttpFields ip float) (by simp [proxyRuleHttpFields]) rule
    refine (contains_obj (P := fun i => i = .str name) h hnodup fun i i' _ hi => contains_str hi name).trans ?_
    rw [lookup_ssl_http]
    exact hP rule.ssl
  | stream rule =>
    have hnodup := nodup_write (proxyRuleStreamFields ip) (by simp [proxyRuleStreamFields]) rule
    refine (contains_obj (P := fun i => i = .str name) h hnodup fun i i' _ hi => contains_str hi name).trans ?_
    rw [lookup_ssl_stream]
    exact hP rule.ssl

/-- a pattern in one of the entries of a rule -/
theorem contains_rules {rule : ResourceProxyRule ι φ} {j : Json}
    (h : Same ((resourceProxyRule ip float).encode rule) j)
    {p : Json} {Q : ProxyRule ι φ → Prop}
    (hQ : ∀ e ∈ rule.rules, ∀ k, Same ((proxyRule ip float).encode e) k → (k.deepContains p = true ↔ Q e)) :
    j.contains (.obj [("Rules", .arr [p])]) = true ↔ ∃ e ∈ rule.rules, Q e := by
  have hobj : Same (.obj [("Rules", .arr (rule.rules.map (proxyRule ip float).encode))]) j := h
  obtain ⟨k, rfl, hk⟩ := hobj.single
  have htop : (Json.obj [("Rules", k)]).contains (.obj [("Rules", .arr [p])]) =
      k.deepContains (.arr [p]) := (deepContains_obj [("Rules", k)] "Rules" _).trans (by simp)
  rw [htop]
  exact contains_list hk hQ

/-- **The pattern of a secret** is in the data of a rule if an entry has the secret as its own certificate. -/
theorem namesSecret_iff {rule : ResourceProxyRule ι φ} {j : Json}
    (h : Same ((resourceProxyRule ip float).encode rule) j) (name : String) :
    j.contains (secretPattern name) = true ↔ ∃ e ∈ rule.rules, e.ssl = some (.secret name) :=
  contains_rules ip float h fun _ _ _ hk => contains_ssl ip float hk name

/-- a target with the key -/
theorem contains_key_upstream {target : UpstreamTarget} {j : Json} (h : Same (upstreamTarget.encode target) j)
    (key : String) : j.deepContains (.obj [("Key", .str key)]) = true ↔ target.key = key := by
  have hnodup := nodup_write upstreamTargetFields (by simp [upstreamTargetFields]) target
  have hlookup : (upstreamTargetFields.write target).lookup "Key" = some (.str target.key) := by
    simp [upstreamTargetFields, Record.lookup_map, Record.lookup_cons, Field.required, Codec.text]
  refine (contains_obj (P := fun i => i = .str key) h hnodup fun i i' _ hi => contains_str hi key).trans ?_
  simp [hlookup]

/-- a structure without the field -/
theorem contains_missing {α : Type} {r : Record α} (hnames : r.names.Nodup) {name : String} (hname : name ∉ r.names)
    {a : α} {j : Json} (h : Same ((r.codec hnames).encode a) j) (p : Json) :
    j.deepContains (.obj [(name, p)]) = true ↔ False := by
  have hnone : (r.write a).lookup name = none :=
    Record.lookup_eq_none fun hmem => hname ((r.write_names a).subset hmem)
  refine (contains_obj (P := fun _ => False) h (nodup_write r hnames a) fun i i' hi => ?_).trans (by simp)
  rw [hnone] at hi
  cases hi

theorem contains_key_location {target : LocationTarget} {j : Json} (h : Same (locationTarget.encode target) j)
    (key : String) :
    j.deepContains (.obj [("Key", .str key)]) = true ↔ ∃ t, target = .upstream t ∧ t.key = key := by
  cases target with
  | upstream t => simpa using contains_key_upstream h key
  | http t => simpa using contains_missing (r := httpTargetFields) (by simp [httpTargetFields]) (by decide) h (.str key)
  | unix t => simpa using contains_missing (r := unixTargetFields) (by simp [unixTargetFields]) (by decide) h (.str key)

theorem contains_key_stream {target : StreamTarget} {j : Json} (h : Same (streamTarget.encode target) j)
    (key : String) :
    j.deepContains (.obj [("Key", .str key)]) = true ↔ ∃ t, target = .upstream t ∧ t.key = key := by
  cases target with
  | upstream t => simpa using contains_key_upstream h key
  | uri t => simpa using contains_missing (r := uriTargetFields) (by simp [uriTargetFields]) (by decide) h (.str key)
  | unix t => simpa using contains_missing (r := unixTargetFields) (by simp [unixTargetFields]) (by decide) h (.str key)

theorem contains_target_location {location : ProxyHttpLocation φ} {j : Json}
    (h : Same ((proxyHttpLocation float).encode location) j) (key : String) :
    j.deepContains (.obj [("Target", .obj [("Key", .str key)])]) = true ↔
      ∃ t, location.target = .upstream t ∧ t.key = key := by
  obtain ⟨fields, hfields, hnodup, hlookup⟩ : ∃ fields, (proxyHttpLocation float).encode location = .obj fields ∧
      (fields.map Prod.fst).Nodup ∧ fields.lookup "Target" = some (locationTarget.encode location.target) :=
    ⟨_, rfl, nodup_write _ (by simp) _, by simp [Record.lookup_map, Record.lookup_cons, Field.required]⟩
  rw [hfields] at h
  refine (contains_obj (P := fun _ => ∃ t, location.target = .upstream t ∧ t.key = key) h hnodup
    fun i i' hi hsame => ?_).trans (by simp [hlookup])
  rw [hlookup] at hi
  obtain rfl := Option.some.inj hi
  exact contains_key_location hsame key

/-- a target with the key in the locations of an entry -/
theorem contains_locations {e : ProxyRule ι φ} {j : Json} (h : Same ((proxyRule ip float).encode e) j)
    (key : String) :
    j.deepContains (.obj [("Locations", .arr [.obj [("Target", .obj [("Key", .str key)])]])]) = true ↔
      ∃ rule, e = .http rule ∧ ∃ location ∈ rule.locations, ∃ t, location.target = .upstream t ∧ t.key = key := by
  cases e with
  | http rule =>
    have hnodup := nodup_write (proxyRuleHttpFields ip float) (by simp [proxyRuleHttpFields]) rule
    have hlookup : ((proxyRuleHttpFields ip float).write rule).lookup "Locations" =
        some ((proxyHttpLocation float).list.encode rule.locations) := by
      simp [proxyRuleHttpFields, Record.lookup_map, Record.lookup_cons, Field.required]
    refine (contains_obj (P := fun _ => ∃ location ∈ rule.locations, ∃ t, location.target = .upstream t ∧ t.key = key) h
      hnodup fun i i' hi hsame => ?_).trans (by simp [hlookup])
    rw [hlookup] at hi
    obtain rfl := Option.some.inj hi
    exact contains_list hsame fun location _ k hk => contains_target_location float hk key
  | stream rule =>
    simpa using contains_missing (r := proxyRuleStreamFields ip) (by simp [proxyRuleStreamFields])
      (by simp [proxyRuleStreamFields]) h _

/-- a target with the key in an entry itself -/
theorem contains_target {e : ProxyRule ι φ} {j : Json} (h : Same ((proxyRule ip float).encode e) j) (key : String) :
    j.deepContains (.obj [("Target", .obj [("Key", .str key)])]) = true ↔
      ∃ rule, e = .stream rule ∧ ∃ t, rule.target = .upstream t ∧ t.key = key := by
  cases e with
  | http rule =>
    simpa using contains_missing (r := proxyRuleHttpFields ip float) (by simp [proxyRuleHttpFields])
      (by simp [proxyRuleHttpFields]) h _
  | stream rule =>
    have hnodup := nodup_write (proxyRuleStreamFields ip) (by simp [proxyRuleStreamFields]) rule
    have hlookup : ((proxyRuleStreamFields ip).write rule).lookup "Target" = some (streamTarget.encode rule.target) := by
      simp [proxyRuleStreamFields, Record.lookup_map, Record.lookup_cons, Field.required]
    refine (contains_obj (P := fun _ => ∃ t, rule.target = .upstream t ∧ t.key = key) h hnodup
      fun i i' hi hsame => ?_).trans (by simp [hlookup])
    rw [hlookup] at hi
    obtain rfl := Option.some.inj hi
    exact contains_key_stream hsame key

theorem mem_targets {e : ProxyRule ι φ} {t : UpstreamTarget} :
    t ∈ e.targets ↔ (∃ rule, e = .http rule ∧ ∃ location ∈ rule.locations, location.target = .upstream t) ∨
      ∃ rule, e = .stream rule ∧ rule.target = .upstream t := by
  cases e with
  | http rule =>
    have hlocation (location : ProxyHttpLocation φ) :
        (match location.target with | .upstream target => some target | _ => none) = some t ↔
          location.target = .upstream t := by
      cases location.target <;> simp
    simp [ProxyRule.targets, hlocation]
  | stream rule =>
    cases h : rule.target <;> simp [ProxyRule.targets, h, eq_comm]

/-- **The patterns of a cargo** are in the data of a rule if one of its targets has the key. -/
theorem targets_iff {rule : ResourceProxyRule ι φ} {j : Json}
    (h : Same ((resourceProxyRule ip float).encode rule) j) (key : String) :
    j.contains (locationPattern key) = true ∨ j.contains (targetPattern key) = true ↔
      ∃ e ∈ rule.rules, ∃ t ∈ e.targets, t.key = key := by
  have hhttp := contains_rules ip float h fun e _ k hk => contains_locations ip float hk key
  have hstream := contains_rules ip float h fun e _ k hk => contains_target ip float hk key
  refine (or_congr hhttp hstream).trans ?_
  constructor
  · rintro (⟨e, he, rule, rfl, location, hl, t, ht, hkey⟩ | ⟨e, he, rule, rfl, t, ht, hkey⟩)
    · exact ⟨_, he, t, mem_targets.2 (.inl ⟨rule, rfl, location, hl, ht⟩), hkey⟩
    · exact ⟨_, he, t, mem_targets.2 (.inr ⟨rule, rfl, ht⟩), hkey⟩
  · rintro ⟨e, he, t, ht, hkey⟩
    rcases mem_targets.1 ht with ⟨rule, rfl, location, hl, hup⟩ | ⟨rule, rfl, hup⟩
    · exact .inl ⟨_, he, rule, rfl, location, hl, t, hup, hkey⟩
    · exact .inr ⟨_, he, rule, rfl, t, hup, hkey⟩

end Nanocl.Proxy
