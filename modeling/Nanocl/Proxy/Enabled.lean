/-
What is enabled for a rule after it was added (`add_rule`).

A part that is not empty is written over what was there. A part that is empty is not written at all, so what was enabled under
the name of the rule stays, be it of an earlier version of the rule or an upstream of the same name.

- `parts_stream_eq_nil_iff`, `parts_http_eq_nil_iff`: when a part is empty.
- `file_writes_stream`, `file_writes_site`: what the upstreams of a rule leave under its own name.
- `enabled_iff`: in a run, every rule that is added has exactly its parts enabled exactly if a rule whose part is empty has
  nothing of that kind enabled before, and no upstream of its name.
- `stopped_target_stays`: a stream rule whose target stops stays as it was.
-/
import Nanocl.Lib.Transition
import Nanocl.Proxy.Nginx

namespace Nanocl.Proxy.Nginx

open Lib

variable {ι φ : Type} (ipText : ι → String) (dir : String)

/-! ## Runs -/

/-- a call, with what the daemon and nginx answer to it -/
inductive Op (ι φ : Type) where
  | add (client : NanocldClient) (test : Store φ → Except String Unit) (name : String) (rule : ResourceProxyRule ι φ)
  | del (name : String)

def step (s : Store φ) : Op ι φ → Store φ
  | .add client test name rule => (addRule client ipText dir test name rule s).2
  | .del name => delRule name s

/-! ## Property -/

/-- the enabled files of a name are its parts -/
structure ExactFiles (name : String) (parts : Parts φ) (s : Store φ) : Prop where
  site : s.file .site name = if parts.http = [] then none else some (.http parts.http)
  stream : s.file .stream name = if parts.stream = [] then none else some (.stream parts.stream)

/-- a rule that is added has its parts enabled -/
def Exact (s : Store φ) : Op ι φ → Prop
  | .add client test name rule => ∀ parts, (generate client ipText dir name rule.rules).2 = .ok parts →
      (addRule client ipText dir test name rule s).1 = .ok () →
        ExactFiles name parts (addRule client ipText dir test name rule s).2
  | .del _ => True

/-! ## Condition -/

/-- the target and the certificate of a stream entry are to be had -/
def Served (client : NanocldClient) (rule : ProxyRuleStream ι) : Prop :=
  (∃ key, (genStreamUpstreamKey (φ := φ) client rule.target).2 = .ok key) ∧
    ∀ ssl, rule.ssl = some ssl → ∃ config, (genSslConfig (φ := φ) client dir ssl).2 = .ok config

/-- what a call needs: if the rule has no HTTP entry, no site of its name is enabled; if none of its stream entries is served,
no stream of its name is enabled and none of their upstreams has it -/
def Fits (s : Store φ) : Op ι φ → Prop
  | .add client test name rule => (addRule client ipText dir test name rule s).1 = .ok () →
      ((∀ r, .http r ∉ rule.rules) → s.file .site name = none) ∧
      ((∀ r, .stream r ∈ rule.rules → ¬ Served (φ := φ) dir client r) → s.file .stream name = none ∧
        ∀ r, .stream r ∈ rule.rules → (genStreamUpstreamKey (φ := φ) client r.target).2 ≠ .ok name)
  | .del _ => True

/-! ## Writes -/

section Writes

variable {s : Store φ} {writes : List (Write φ)} {kind : NginxRuleKind} {name : String}

/-- what is not written stays -/
theorem file_writes_of_notMem (h : ∀ data, .conf kind name data ∉ writes) :
    (writes.foldl Store.write s).file kind name = s.file kind name := by
  induction writes generalizing s with
  | nil => rfl
  | cons w writes ih =>
    rw [List.foldl_cons, ih fun data hdata => h data (List.mem_cons_of_mem _ hdata)]
    cases w with
    | secret path content => rfl
    | conf kind' name' data =>
      rw [Store.write, Store.file_writeConfFile, if_neg]
      rintro ⟨rfl, rfl⟩
      exact h data List.mem_cons_self

/-- what is there or is written is there afterwards -/
theorem file_writes_isSome (h : (s.file kind name).isSome ∨ ∃ data, .conf kind name data ∈ writes) :
    ((writes.foldl Store.write s).file kind name).isSome := by
  induction writes generalizing s with
  | nil => simpa using h
  | cons w writes ih =>
    rw [List.foldl_cons]
    refine ih ?_
    cases w with
    | secret path content => simpa [Store.write] using h
    | conf kind' name' data =>
      rw [Store.write, Store.file_writeConfFile]
      by_cases heq : kind = kind' ∧ name = name'
      · simp [heq]
      · rw [if_neg heq]
        rcases h with h | ⟨data', h⟩
        · exact .inl h
        · refine .inr ⟨data', (List.mem_cons.1 h).resolve_left fun hw => heq ?_⟩
          cases hw
          exact ⟨rfl, rfl⟩

theorem file_writes_eq_none : (writes.foldl Store.write s).file kind name = none ↔
    s.file kind name = none ∧ ∀ data, .conf kind name data ∉ writes := by
  constructor
  · intro h
    have hno : ¬ ((s.file kind name).isSome ∨ ∃ data, .conf kind name data ∈ writes) := fun hsome => by
      have := file_writes_isSome hsome
      simp [h] at this
    rw [not_or, not_exists] at hno
    exact ⟨by simpa using hno.1, hno.2⟩
  · rintro ⟨hfile, hno⟩
    rw [file_writes_of_notMem hno, hfile]

end Writes

/-! ## Parts -/

section Parts

variable {ipText dir} {client : NanocldClient} {name : String}

/-- the files of a secret are no configuration -/
theorem conf_notMem_genSslConfig {ssl : ProxySsl} {kind : NginxRuleKind} {key : String} {data : Conf φ} :
    .conf kind key data ∉ (genSslConfig (φ := φ) client dir ssl).1 := by
  unfold genSslConfig
  split
  · simp
  · split
    · simp
    · split <;> simp

theorem conf_notMem_sslOf {ssl : Option ProxySsl} {kind : NginxRuleKind} {key : String} {data : Conf φ} :
    .conf kind key data ∉ (sslOf (φ := φ) client dir ssl).1 := by
  cases ssl with
  | none => simp [sslOf]
  | some ssl => exact conf_notMem_genSslConfig

/-- the upstream of a stream target is written under its name, in the streams -/
theorem mem_genStreamUpstreamKey {target : StreamTarget} {kind : NginxRuleKind} {key : String} :
    (∃ data, .conf kind key data ∈ (genStreamUpstreamKey (φ := φ) client target).1) ↔
      kind = .stream ∧ (genStreamUpstreamKey (φ := φ) client target).2 = .ok key := by
  cases target with
  | upstream target =>
    simp only [genStreamUpstreamKey, genUpstream]
    cases upstreamOf client target with
    | error e => simp
    | ok p => simp [eq_comm]
  | uri target => simp [genStreamUpstreamKey]
  | unix unix => simp [genStreamUpstreamKey, genUnixTargetKey, eq_comm]

/-- the upstream of a location is one of a site -/
theorem kind_of_mem_locationEntry {location : ProxyHttpLocation φ} {kind : NginxRuleKind} {key : String} {data : Conf φ}
    (h : .conf kind key data ∈ (locationEntry client dir location).1) : kind = .site := by
  unfold locationEntry at h
  split at h
  · next target _ =>
    cases hup : upstreamOf client target with
    | error e => simp [genUpstream, hup] at h
    | ok p =>
      simp only [genUpstream, hup, List.mem_append, List.mem_singleton] at h
      rcases h with h | h
      · cases h
        rfl
      · exact absurd h conf_notMem_sslOf
  · simp only [genUnixTargetKey, List.mem_singleton] at h
    cases h
    rfl
  · cases h

theorem kind_of_mem_locationEntries {locations : List (ProxyHttpLocation φ)} {kind : NginxRuleKind} {key : String}
    {data : Conf φ} (h : .conf kind key data ∈ (locationEntries client dir locations).1) : kind = .site := by
  induction locations with
  | nil => cases h
  | cons location locations ih =>
    rcases List.mem_append.1 h with h | h
    · exact kind_of_mem_locationEntry h
    · exact ih h

theorem kind_of_mem_httpEntry {rule : ProxyRuleHttp ι φ} {kind : NginxRuleKind} {key : String} {data : Conf φ}
    (h : .conf kind key data ∈ (httpEntry client ipText dir name rule).1) : kind = .site := by
  unfold httpEntry at h
  split at h
  · cases h
  · split at h
    · cases h
    · rcases List.mem_append.1 h with h | h
      · exact absurd h conf_notMem_sslOf
      · exact kind_of_mem_locationEntries h

/-- a stream entry is left out exactly if it is not served -/
theorem streamEntry_isSome {rule : ProxyRuleStream ι} {entry : Option StreamTemplate}
    (h : (streamEntry (φ := φ) client ipText dir name rule).2 = .ok entry) :
    entry ≠ none ↔ Served (φ := φ) dir client rule := by
  unfold streamEntry at h
  split at h
  · cases h
  · split at h
    · next writes e hkey =>
      cases h
      refine iff_of_false (by simp) ?_
      rintro ⟨⟨key, hok⟩, -⟩
      rw [hkey] at hok
      cases hok
    · next writes key hkey =>
      cases h
      have hserved : Served (φ := φ) dir client rule ↔
          ∀ ssl, rule.ssl = some ssl → ∃ config, (genSslConfig (φ := φ) client dir ssl).2 = .ok config :=
        and_iff_right ⟨key, by rw [hkey]⟩
      rw [hserved]
      cases hssl : rule.ssl with
      | none => simp
      | some ssl =>
        simp only [sslOf, Option.isSome_some, true_and, Option.some.injEq, forall_eq']
        cases (genSslConfig (φ := φ) client dir ssl).2 <;> simp [Except.toOption]

/-- the upstream of a stream entry is written whether the entry is served or not -/
theorem mem_streamEntry {rule : ProxyRuleStream ι} {entry : Option StreamTemplate}
    (h : (streamEntry (φ := φ) client ipText dir name rule).2 = .ok entry) (kind : NginxRuleKind) (key : String) :
    (∃ data, .conf kind key data ∈ (streamEntry (φ := φ) client ipText dir name rule).1) ↔
      kind = .stream ∧ (genStreamUpstreamKey (φ := φ) client rule.target).2 = .ok key := by
  rw [← mem_genStreamUpstreamKey]
  unfold streamEntry at h ⊢
  split at h
  · cases h
  · split
    · next writes e hkey => rw [hkey]
    · next writes key' hkey =>
      rw [hkey]
      simp only [List.mem_append, conf_notMem_sslOf, or_false]

/-- an entry without a network address writes nothing -/
theorem streamEntry_error {rule : ProxyRuleStream ι} {e : String}
    (h : (streamEntry (φ := φ) client ipText dir name rule).2 = .error e) :
    (streamEntry (φ := φ) client ipText dir name rule).1 = [] := by
  unfold streamEntry at h ⊢
  split at h
  · rfl
  · split at h <;> cases h

/-- **When a part is empty.** -/
theorem parts_eq_nil_iff {rules : List (ProxyRule ι φ)} {parts : Parts φ}
    (h : (generate client ipText dir name rules).2 = .ok parts) :
    (parts.http = [] ↔ ∀ r, .http r ∉ rules) ∧
      (parts.stream = [] ↔ ∀ r, .stream r ∈ rules → ¬ Served (φ := φ) dir client r) := by
  induction rules generalizing parts with
  | nil =>
    cases h
    simp
  | cons rule rules ih =>
    cases rule with
    | stream r =>
      rw [generate] at h
      split at h
      · cases h
      · next writes entry hentry =>
        cases hrest : (generate client ipText dir name rules).2 with
        | error e => simp [hrest, Except.map] at h
        | ok rest =>
          obtain ⟨hhttp, hstream⟩ := ih hrest
          simp only [hrest, Except.map, Except.ok.injEq] at h
          subst h
          have hserved := streamEntry_isSome (show (streamEntry (φ := φ) client ipText dir name r).2 = .ok entry by rw [hentry])
          constructor
          · simpa using hhttp
          · simp only [List.append_eq_nil_iff, hstream, List.mem_cons, ProxyRule.stream.injEq, forall_eq_or_imp, ← hserved]
            cases entry <;> simp
    | http r =>
      rw [generate] at h
      split at h
      · cases h
      · next writes server hserver =>
        cases hrest : (generate client ipText dir name rules).2 with
        | error e => simp [hrest, Except.map] at h
        | ok rest =>
          obtain ⟨hhttp, hstream⟩ := ih hrest
          simp only [hrest, Except.map, Except.ok.injEq] at h
          subst h
          constructor
          · exact iff_of_false (by simp) fun hno => hno r List.mem_cons_self
          · simpa using hstream

/-- no HTTP entry, no site among the writes -/
theorem site_notMem_generate {rules : List (ProxyRule ι φ)} (h : ∀ r, .http r ∉ rules) {key : String} {data : Conf φ} :
    .conf .site key data ∉ (generate client ipText dir name rules).1 := by
  induction rules with
  | nil => simp [generate]
  | cons rule rules ih =>
    have ih := ih fun r hr => h r (List.mem_cons_of_mem _ hr)
    cases rule with
    | http r => exact absurd List.mem_cons_self (h r)
    | stream r =>
      have hno : .conf .site key data ∉ (streamEntry (φ := φ) client ipText dir name r).1 := by
        intro hmem
        cases hentry : (streamEntry (φ := φ) client ipText dir name r).2 with
        | error e => simp [streamEntry_error hentry] at hmem
        | ok entry => cases ((mem_streamEntry hentry _ _).1 ⟨data, hmem⟩).1
      rw [generate]
      split
      · next writes e hentry =>
        rw [hentry] at hno
        exact hno
      · next writes entry hentry =>
        rw [hentry] at hno
        exact fun hmem => (List.mem_append.1 hmem).elim hno ih

/-- the streams among the writes are the upstreams of the stream entries -/
theorem stream_mem_generate {rules : List (ProxyRule ι φ)} {parts : Parts φ}
    (h : (generate client ipText dir name rules).2 = .ok parts) {key : String} :
    (∃ data, .conf .stream key data ∈ (generate client ipText dir name rules).1) ↔
      ∃ r, .stream r ∈ rules ∧ (genStreamUpstreamKey (φ := φ) client r.target).2 = .ok key := by
  induction rules generalizing parts with
  | nil => simp [generate]
  | cons rule rules ih =>
    cases rule with
    | stream r =>
      rw [generate] at h ⊢
      split at h
      · cases h
      · next writes entry hentry =>
        have hentry' : (streamEntry (φ := φ) client ipText dir name r).2 = .ok entry := by rw [hentry]
        have hmem := mem_streamEntry hentry' .stream key
        rw [hentry] at hmem
        cases hrest : (generate client ipText dir name rules).2 with
        | error e => simp [hrest, Except.map] at h
        | ok rest =>
          simp only [List.mem_append, exists_or, hmem, ih hrest, List.mem_cons, ProxyRule.stream.injEq, true_and, or_and_right,
            exists_eq_left]
    | http r =>
      rw [generate] at h ⊢
      split at h
      · cases h
      · next writes server hserver =>
        have hno : ∀ data, .conf .stream key data ∉ writes := by
          intro data hdata
          have hdata : .conf .stream key data ∈ (httpEntry (φ := φ) client ipText dir name r).1 := by rwa [hserver]
          cases kind_of_mem_httpEntry hdata
        cases hrest : (generate client ipText dir name rules).2 with
        | error e => simp [hrest, Except.map] at h
        | ok rest => simp [hno, ih hrest]

end Parts

/-! ## One call -/

section Call

variable {ipText dir} {client : NanocldClient} {test : Store φ → Except String Unit} {name : String}
  {rule : ResourceProxyRule ι φ} {s : Store φ}

variable (name) in
/-- what is enabled after the parts were written -/
theorem file_writeParts (parts : Parts φ) (s : Store φ) :
    (writeParts name parts s).file .site name = (if parts.http = [] then s.file .site name else some (.http parts.http)) ∧
      (writeParts name parts s).file .stream name =
        if parts.stream = [] then s.file .stream name else some (.stream parts.stream) := by
  unfold writeParts
  by_cases hh : parts.http = [] <;> by_cases hs : parts.stream = [] <;> simp [hh, hs, Store.file_writeConfFile]

/-- a call that succeeds ends with the parts written -/
theorem addRule_ok (hok : (addRule client ipText dir test name rule s).1 = .ok ()) :
    ∃ parts, (generate client ipText dir name rule.rules).2 = .ok parts ∧
      (addRule client ipText dir test name rule s).2 =
        writeParts name parts ((generate client ipText dir name rule.rules).1.foldl Store.write s) := by
  unfold addRule at hok ⊢
  rcases hgen : generate client ipText dir name rule.rules with ⟨writes, parts⟩
  rw [hgen] at hok
  cases parts with
  | error e => cases hok
  | ok parts =>
    refine ⟨parts, rfl, ?_⟩
    dsimp only at hok ⊢
    cases htest : test (writeParts name parts (writes.foldl Store.write s)) with
    | ok u => rfl
    | error e =>
      rw [htest] at hok
      cases hok

/-- **A call that succeeds has exactly its parts enabled if nothing was in the place of an empty one.** -/
theorem exactFiles_iff {parts : Parts φ} (hparts : (generate client ipText dir name rule.rules).2 = .ok parts)
    (hok : (addRule client ipText dir test name rule s).1 = .ok ()) :
    ExactFiles name parts (addRule client ipText dir test name rule s).2 ↔
      ((∀ r, .http r ∉ rule.rules) → s.file .site name = none) ∧
      ((∀ r, .stream r ∈ rule.rules → ¬ Served (φ := φ) dir client r) → s.file .stream name = none ∧
        ∀ r, .stream r ∈ rule.rules → (genStreamUpstreamKey (φ := φ) client r.target).2 ≠ .ok name) := by
  obtain ⟨parts', hparts', hstore⟩ := addRule_ok hok
  obtain rfl : parts' = parts := by simpa [hparts] using hparts'.symm
  obtain ⟨hsite, hstream⟩ := file_writeParts name parts' ((generate client ipText dir name rule.rules).1.foldl
    Store.write s)
  obtain ⟨hnohttp, hnostream⟩ := parts_eq_nil_iff hparts
  rw [← hnohttp, ← hnostream]
  have hhttp : (addRule client ipText dir test name rule s).2.file .site name =
      (if parts'.http = [] then none else some (.http parts'.http)) ↔ (parts'.http = [] → s.file .site name = none) := by
    rw [hstore, hsite]
    by_cases hnil : parts'.http = []
    · rw [if_pos hnil, if_pos hnil, file_writes_of_notMem fun data => site_notMem_generate (hnohttp.1 hnil)]
      exact ⟨fun h _ => h, fun h => h hnil⟩
    · simp [hnil]
  have hstream : (addRule client ipText dir test name rule s).2.file .stream name =
      (if parts'.stream = [] then none else some (.stream parts'.stream)) ↔
        (parts'.stream = [] → s.file .stream name = none ∧
          ∀ r, .stream r ∈ rule.rules → (genStreamUpstreamKey (φ := φ) client r.target).2 ≠ .ok name) := by
    have hno : (∀ data, .conf .stream name data ∉ (generate client ipText dir name rule.rules).1) ↔
        ∀ r, .stream r ∈ rule.rules → (genStreamUpstreamKey (φ := φ) client r.target).2 ≠ .ok name := by
      rw [← not_exists, stream_mem_generate hparts]
      simp
    rw [hstore, hstream, ← hno]
    by_cases hnil : parts'.stream = []
    · rw [if_pos hnil, if_pos hnil, file_writes_eq_none]
      exact ⟨fun h _ => h, fun h => h hnil⟩
    · simp [hnil]
  rw [← hhttp, ← hstream]
  exact ⟨fun h => ⟨h.site, h.stream⟩, fun h => ⟨h.1, h.2⟩⟩

theorem exact_iff_fits (s : Store φ) (o : Op ι φ) : Exact ipText dir s o ↔ Fits ipText dir s o := by
  cases o with
  | del name => exact Iff.rfl
  | add client test name rule =>
    constructor
    · intro h hok
      obtain ⟨parts, hparts, -⟩ := addRule_ok hok
      exact (exactFiles_iff hparts hok).1 (h parts hparts hok)
    · intro h parts hparts hok
      exact (exactFiles_iff hparts hok).2 (h hok)

end Call

/-- **In a run, every rule that is added has exactly its parts enabled exactly if every call fits**: where a part is empty,
nothing of its kind was enabled under the name, and no upstream of the rule takes it. -/
theorem enabled_iff (s : Store φ) (ops : List (Op ι φ)) :
    Along (step ipText dir) (Exact ipText dir) s ops ↔ Along (step ipText dir) (Fits ipText dir) s ops :=
  along_congr_of_inv (I := fun _ => True) (fun _ _ _ => trivial) (fun s o _ => exact_iff_fits s o) trivial ops

/-! ## A target that stops -/

/-- a directory without files -/
def emptyStore : Store Unit := ⟨fun _ _ => none, fun _ _ => false, fun _ => none⟩

/-- a daemon that knows the cargo `db`, which has an instance with an address or none -/
def dbClient (address : Option String) : NanocldClient where
  hostAddr := .ok "192.168.1.2"
  bridgeAddr := .ok "172.18.0.1"
  inspectCargo _ _ := .ok ⟨"db.global", [⟨"db-0.global.c", [("nanoclbr0", address)]⟩]⟩
  inspectVm _ _ := .error "no such VM"
  inspectSecret _ := .error "no such secret"

/-- a stream rule to the cargo `db` -/
def dbRule : ResourceProxyRule Unit Unit := ⟨[.stream ⟨.all, .tcp, 5432, none, .upstream ⟨"db.global.c", 5432, none, none, none⟩⟩]⟩

/-- without an address, nothing of the rule is served -/
theorem generate_dbRule : (generate (dbClient none) (fun _ => "") "/var" "db" dbRule.rules).2 = .ok ⟨[], []⟩ := by
  have hupstream : upstreamOf (dbClient none) ⟨"db.global.c", 5432, none, none, none⟩ =
      .error "Process: No address found for nanoclbr0 are processes running ?" := rfl
  simp only [generate, streamEntry, dbRule, getNetworkAddr, genStreamUpstreamKey, genUpstream, hupstream]
  rfl

/-- a stream rule whose target has stopped is added again, and its old stream stays enabled -/
theorem stopped_target_stays :
    ¬ ∀ (s : Store Unit) (ops : List (Op Unit Unit)), Along (step (fun _ => "") "/var") (Exact (fun _ => "") "/var") s ops := by
  intro h
  obtain ⟨-, hsecond, -⟩ := h emptyStore [.add (dbClient (some "172.18.0.5")) (fun _ => .ok ()) "db" dbRule,
    .add (dbClient none) (fun _ => .ok ()) "db" dbRule]
  have hgone := (hsecond ⟨[], []⟩ generate_dbRule rfl).stream
  cases hgone

end Nanocl.Proxy.Nginx
