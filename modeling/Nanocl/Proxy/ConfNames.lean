/-
The names of the configuration files of a section: that of a rule, `unix-` with the path of a unix socket in which every `/` is
a `-`, and `key-port-cargo` or `key-port-vm` for the upstream of a cargo or a VM. They share one directory.

- `name_eq_iff`: two sources have one name only if they clash: two paths that differ in that one has `/` where the other has
  `-`, a path that reads as the rest of an upstream of an object whose key begins with `unix`, and a rule with the name of an
  upstream.
- `run_file`: where no two sources clash, the file of a source is what was last done to it.
- `conf_names_iff`: and only there.
- `conf_of_generate`: the files that are written for a rule are those of its sources.

Counterexample: `sockets_clash`.
-/
import Nanocl.Lib.Split
import Nanocl.Objects.Tables
import Nanocl.Proxy.Enabled

namespace Nanocl.Proxy

open Nanocl.Lib
open Objects (ObjectKind)
open Nginx

/-! ## Names -/

/-- what a configuration file is of -/
inductive Source where
  | rule (name : String)
  | unix (path : String)
  | upstream (kind : ObjectKind) (key : String) (port : UInt16)
deriving DecidableEq

/-- what the name of an upstream ends with -/
def upstreamEnd : ObjectKind → String
  | .cargo => "cargo"
  | .vm => "vm"

def Source.name : Source → String
  | .rule name => name
  | .unix path => unixKey ⟨path⟩
  | .upstream kind key port => key ++ "-" ++ toString port.toNat ++ "-" ++ upstreamEnd kind

/-- `gen_path`: the available file and the enabled link -/
def genPath (dir name : String) : NginxRuleKind → String × String
  | .site => (dir ++ "/sites-available/" ++ name ++ ".conf", dir ++ "/sites-enabled/" ++ name ++ ".conf")
  | .stream => (dir ++ "/streams-available/" ++ name ++ ".conf", dir ++ "/streams-enabled/" ++ name ++ ".conf")

/-! ## Clashes -/

/-- the same character, or a `/` for a `-` -/
def Alike (c d : Char) : Prop := c = d ∨ c = '/' ∧ d = '-' ∨ c = '-' ∧ d = '/'

/-- the text is the path with a `-` for every `/` -/
def Reads (path text : String) : Prop := '/' ∉ text.toList ∧ List.Forall₂ Alike path.toList text.toList

/-- two sources that are not told apart -/
inductive Clash : Source → Source → Prop where
  | unix {p q : String} : p ≠ q → List.Forall₂ Alike p.toList q.toList → Clash (.unix p) (.unix q)
  | unixUpstream {p r : String} {kind : ObjectKind} {port : UInt16} :
      Reads p (r ++ "-" ++ toString port.toNat ++ "-" ++ upstreamEnd kind) →
      Clash (.unix p) (.upstream kind ("unix-" ++ r) port)
  | unixPort {p : String} {kind : ObjectKind} {port : UInt16} :
      Reads p (toString port.toNat ++ "-" ++ upstreamEnd kind) → Clash (.unix p) (.upstream kind "unix" port)
  | unixRule {p r : String} : Reads p r → Clash (.unix p) (.rule ("unix-" ++ r))
  | upstreamRule {kind : ObjectKind} {key : String} {port : UInt16} :
      Clash (.upstream kind key port) (.rule (key ++ "-" ++ toString port.toNat ++ "-" ++ upstreamEnd kind))

/-! ### Paths -/

/-- what is made of a character of a path -/
def dash (c : Char) : Char := if c = '/' then '-' else c

theorem dash_eq_dash_iff (c d : Char) : dash c = dash d ↔ Alike c d := by
  unfold dash Alike
  by_cases hc : c = '/' <;> by_cases hd : d = '/' <;> simp [hc, hd, eq_comm]

theorem dash_eq_self {c : Char} (hc : c ≠ '/') : dash c = c := if_neg hc

theorem map_dash_eq_iff (p q : List Char) : p.map dash = q.map dash ↔ List.Forall₂ Alike p q := by
  rw [← List.forall₂_eq_eq_eq, List.forall₂_map_left_iff, List.forall₂_map_right_iff]
  simp only [dash_eq_dash_iff]

theorem slash_notMem_map_dash (p : List Char) : '/' ∉ p.map dash := by
  intro h
  obtain ⟨c, -, hc⟩ := List.mem_map.1 h
  unfold dash at hc
  split_ifs at hc with hslash
  · exact absurd hc (by decide)
  · exact hslash hc

theorem map_dash_of_notMem {t : List Char} (ht : '/' ∉ t) : t.map dash = t := by
  rw [List.map_congr_left fun c hc => dash_eq_self (ne_of_mem_of_not_mem hc ht), List.map_id']

/-- a path reads as what is made of it -/
theorem reads_iff (path text : String) : Reads path text ↔ path.toList.map dash = text.toList := by
  constructor
  · rintro ⟨hslash, halike⟩
    rw [(map_dash_eq_iff _ _).2 halike, map_dash_of_notMem hslash]
  · intro h
    have hslash : '/' ∉ text.toList := h ▸ slash_notMem_map_dash path.toList
    exact ⟨hslash, (map_dash_eq_iff _ _).1 (by rw [h, map_dash_of_notMem hslash])⟩

theorem toList_unixKey (path : String) : (unixKey ⟨path⟩).toList = "unix-".toList ++ path.toList.map dash := by
  simp [unixKey, dash]

theorem unix_name_eq_iff (p q : String) : (Source.unix p).name = (Source.unix q).name ↔
    List.Forall₂ Alike p.toList q.toList := by
  rw [← map_dash_eq_iff, ← String.toList_inj, Source.name, Source.name, toList_unixKey, toList_unixKey,
    List.append_cancel_left_eq]

theorem unix_name_eq_rule_iff (p name : String) : (Source.unix p).name = (Source.rule name).name ↔
    ∃ r, name = "unix-" ++ r ∧ Reads p r := by
  rw [← String.toList_inj, Source.name, Source.name, toList_unixKey]
  constructor
  · intro h
    refine ⟨String.ofList (p.toList.map dash), ?_, (reads_iff _ _).2 (String.toList_ofList).symm⟩
    rw [← String.toList_inj, ← h]
    simp
  · rintro ⟨r, rfl, hr⟩
    rw [(reads_iff p r).1 hr, String.toList_append]

/-! ### Upstreams -/

theorem toList_upstream_name (kind : ObjectKind) (key : String) (port : UInt16) :
    (Source.upstream kind key port).name.toList =
      key.toList ++ '-' :: ((toString port.toNat).toList ++ '-' :: (upstreamEnd kind).toList) := by
  simp [Source.name]

theorem dash_notMem_upstreamEnd (kind : ObjectKind) : '-' ∉ (upstreamEnd kind).toList := by
  cases kind <;> decide

theorem upstreamEnd_inj {kind kind' : ObjectKind} (h : (upstreamEnd kind).toList = (upstreamEnd kind').toList) :
    kind = kind' := by
  cases kind <;> cases kind' <;> first | rfl | cases h

/-- the name of an upstream tells its object and its port -/
theorem upstream_name_inj {kind kind' : ObjectKind} {key key' : String} {port port' : UInt16}
    (h : (Source.upstream kind key port).name = (Source.upstream kind' key' port').name) :
    kind = kind' ∧ key = key' ∧ port = port' := by
  have hlist := congrArg String.toList h
  rw [toList_upstream_name, toList_upstream_name] at hlist
  have hassoc : ∀ (k n e : List Char), k ++ '-' :: (n ++ '-' :: e) = (k ++ '-' :: n) ++ '-' :: e := by
    intro k n e
    rw [List.append_assoc, List.cons_append]
  rw [hassoc, hassoc] at hlist
  obtain ⟨hfront, hend⟩ :=
    append_cons_inj_of_last (dash_notMem_upstreamEnd kind) (dash_notMem_upstreamEnd kind') hlist
  obtain ⟨hkey, hport⟩ := append_cons_inj_of_last (notMem_toString (by decide) _) (notMem_toString (by decide) _) hfront
  exact ⟨upstreamEnd_inj hend, String.toList_inj.1 hkey,
    UInt16.toNat_inj.1 (toString_nat_inj (String.toList_inj.1 hport))⟩

/-- the name of a unix socket is that of an upstream only if the key begins with `unix` -/
theorem unix_name_eq_upstream_iff (p : String) (kind : ObjectKind) (key : String) (port : UInt16) :
    (Source.unix p).name = (Source.upstream kind key port).name ↔
      (∃ r, key = "unix-" ++ r ∧ Reads p (r ++ "-" ++ toString port.toNat ++ "-" ++ upstreamEnd kind)) ∨
      (key = "unix" ∧ Reads p (toString port.toNat ++ "-" ++ upstreamEnd kind)) := by
  rw [← String.toList_inj, toList_upstream_name, Source.name, toList_unixKey]
  constructor
  · intro h
    obtain ⟨rest, hkey, hrest⟩ | ⟨rest, hunix, hrest⟩ := List.append_eq_append_iff.1 h
    · left
      refine ⟨String.ofList rest, ?_, (reads_iff _ _).2 (hrest.trans ?_)⟩
      · rw [← String.toList_inj, hkey]
        simp
      · simp
    · cases rest with
      | nil =>
        left
        refine ⟨"", ?_, (reads_iff _ _).2 (hrest.symm.trans ?_)⟩
        · rw [← String.toList_inj]
          simpa using hunix.symm
        · simp
      | cons c rest =>
        right
        obtain ⟨rfl, hport⟩ := List.cons.inj hrest
        have hcount : ("unix-".toList).count '-' = 1 := by decide
        have hrest' : '-' ∉ rest := by
          rw [hunix, List.count_append, List.count_cons_self] at hcount
          exact List.count_eq_zero.1 (by omega)
        have hlast : "unix".toList ++ '-' :: [] = key.toList ++ '-' :: rest := hunix
        obtain ⟨hkey, rfl⟩ := append_cons_inj_of_last List.not_mem_nil hrest' hlast
        refine ⟨String.toList_inj.1 hkey.symm, (reads_iff _ _).2 (hport.symm.trans ?_)⟩
        simp
  · rintro (⟨r, rfl, hr⟩ | ⟨rfl, hr⟩)
    · rw [(reads_iff _ _).1 hr]
      simp
    · rw [(reads_iff _ _).1 hr]
      simp

/-! ### All sources -/

theorem Clash.name_eq {a b : Source} (h : Clash a b) : a.name = b.name := by
  cases h with
  | unix _ halike => exact (unix_name_eq_iff _ _).2 halike
  | unixUpstream hr => exact (unix_name_eq_upstream_iff _ _ _ _).2 (.inl ⟨_, rfl, hr⟩)
  | unixPort hr => exact (unix_name_eq_upstream_iff _ _ _ _).2 (.inr ⟨rfl, hr⟩)
  | unixRule hr => exact (unix_name_eq_rule_iff _ _).2 ⟨_, rfl, hr⟩
  | upstreamRule => rfl

theorem Clash.ne {a b : Source} (h : Clash a b) : a ≠ b := by
  cases h with
  | unix hne _ => exact fun heq => hne (Source.unix.inj heq)
  | unixUpstream | unixPort | unixRule | upstreamRule => nofun

theorem clash_of_unix_upstream {p key : String} {kind : ObjectKind} {port : UInt16}
    (h : (Source.unix p).name = (Source.upstream kind key port).name) : Clash (.unix p) (.upstream kind key port) := by
  obtain ⟨r, rfl, hr⟩ | ⟨rfl, hr⟩ := (unix_name_eq_upstream_iff p kind key port).1 h
  · exact .unixUpstream hr
  · exact .unixPort hr

theorem clash_of_unix_rule {p name : String} (h : (Source.unix p).name = (Source.rule name).name) :
    Clash (.unix p) (.rule name) := by
  obtain ⟨r, rfl, hr⟩ := (unix_name_eq_rule_iff p name).1 h
  exact .unixRule hr

theorem clash_of_upstream_rule {kind : ObjectKind} {key name : String} {port : UInt16}
    (h : (Source.upstream kind key port).name = (Source.rule name).name) :
    Clash (.upstream kind key port) (.rule name) := by
  obtain rfl : (Source.upstream kind key port).name = name := h
  exact .upstreamRule

/-- **Two sources have one name** only if they clash. -/
theorem name_eq_iff (a b : Source) : a.name = b.name ↔ a = b ∨ Clash a b ∨ Clash b a := by
  constructor
  · intro h
    cases a with
    | rule n => cases b with
      | rule m => exact .inl (congrArg Source.rule h)
      | unix q => exact .inr (.inr (clash_of_unix_rule h.symm))
      | upstream kind key port => exact .inr (.inr (clash_of_upstream_rule h.symm))
    | unix p => cases b with
      | rule m => exact .inr (.inl (clash_of_unix_rule h))
      | unix q =>
        by_cases hpq : p = q
        · exact .inl (congrArg Source.unix hpq)
        · exact .inr (.inl (.unix hpq ((unix_name_eq_iff p q).1 h)))
      | upstream kind key port => exact .inr (.inl (clash_of_unix_upstream h))
    | upstream kind key port => cases b with
      | rule m => exact .inr (.inl (clash_of_upstream_rule h))
      | unix q => exact .inr (.inr (clash_of_unix_upstream h.symm))
      | upstream kind' key' port' =>
        obtain ⟨rfl, rfl, rfl⟩ := upstream_name_inj h
        exact .inl rfl
  · rintro (rfl | h | h)
    · rfl
    · exact h.name_eq
    · exact h.name_eq.symm

/-- sources that do not clash are told apart -/
theorem name_ne_of_not_clash {sources : Set Source} (h : ∀ a ∈ sources, ∀ b ∈ sources, ¬ Clash a b) :
    ∀ a ∈ sources, ∀ b ∈ sources, a ≠ b → a.name ≠ b.name := by
  intro a ha b hb hne heq
  obtain heq | hclash | hclash := (name_eq_iff a b).1 heq
  · exact hne heq
  · exact h a ha b hb hclash
  · exact h b hb a ha hclash

/-! ## Files -/

variable {φ : Type} (kind : NginxRuleKind)

/-- a write or a deletion of the file of a source -/
inductive ConfOp (φ : Type) where
  | write (source : Source) (data : Conf φ)
  | delete (source : Source)

def ConfOp.source : ConfOp φ → Source
  | .write source _ => source
  | .delete source => source

/-- `write_conf_file` and `delete_conf_file` -/
def ConfOp.run (s : Store φ) : ConfOp φ → Store φ
  | .write source data => s.writeConfFile source.name data kind
  | .delete source => s.deleteConfFile source.name kind

/-- the operations on one source -/
def onSource (a : Source) (ops : List (ConfOp φ)) : List (ConfOp φ) := ops.filter (·.source = a)

/-- what a list of operations leaves in the file of a source, if there was `before` in it -/
def lastOf (before : Option (Conf φ)) (ops : List (ConfOp φ)) : Option (Conf φ) :=
  ops.foldl (fun _ op => match op with
    | .write _ data => some data
    | .delete _ => none) before

/-- an operation on another name does nothing to a file -/
theorem ConfOp.file_run_of_ne (s : Store φ) (op : ConfOp φ) {name : String} (h : name ≠ op.source.name) :
    (op.run kind s).file kind name = s.file kind name := by
  cases op with
  | write source data => exact (s.file_writeConfFile _ _ _ _ _).trans (if_neg fun hc => h hc.2)
  | delete source => exact (s.file_deleteConfFile _ _ _ _).trans (if_neg fun hc => h hc.2)

theorem ConfOp.file_run_self (s : Store φ) (op : ConfOp φ) :
    (op.run kind s).file kind op.source.name = lastOf (s.file kind op.source.name) [op] := by
  cases op with
  | write source data => exact (s.file_writeConfFile _ _ _ _ _).trans (if_pos ⟨rfl, rfl⟩)
  | delete source => exact (s.file_deleteConfFile _ _ _ _).trans (if_pos ⟨rfl, rfl⟩)

/-- **The file of a source is what was last done to it**, if no other source has its name. -/
theorem run_file {a : Source} (ops : List (ConfOp φ)) (s : Store φ)
    (h : ∀ op ∈ ops, op.source ≠ a → op.source.name ≠ a.name) :
    (ops.foldl (ConfOp.run kind) s).file kind a.name = lastOf (s.file kind a.name) (onSource a ops) := by
  induction ops generalizing s with
  | nil => rfl
  | cons op ops ih =>
    have hops := fun o ho => h o (List.mem_cons_of_mem _ ho)
    rw [List.foldl_cons, ih _ hops]
    by_cases ha : op.source = a
    · subst ha
      rw [onSource, onSource, List.filter_cons_of_pos (by simp), op.file_run_self kind s]
      rfl
    · rw [onSource, onSource, List.filter_cons_of_neg (by simpa using ha),
        op.file_run_of_ne kind s (h op List.mem_cons_self ha).symm]

/-- the names and files of a section are told apart, and what is done to the file of one source leaves the others -/
structure NamesApart (φ : Type) (kind : NginxRuleKind) (sources : Set Source) : Prop where
  names : ∀ a ∈ sources, ∀ b ∈ sources, a ≠ b → a.name ≠ b.name
  paths : ∀ a ∈ sources, ∀ b ∈ sources, a ≠ b → ∀ dir,
    (genPath dir a.name kind).1 ≠ (genPath dir b.name kind).1 ∧ (genPath dir a.name kind).2 ≠ (genPath dir b.name kind).2
  files : ∀ (ops : List (ConfOp φ)) (s : Store φ), (∀ op ∈ ops, op.source ∈ sources) → ∀ a ∈ sources,
    (ops.foldl (ConfOp.run kind) s).file kind a.name = lastOf (s.file kind a.name) (onSource a ops)

theorem genPath_ne {m n : String} (h : m ≠ n) (dir : String) :
    (genPath dir m kind).1 ≠ (genPath dir n kind).1 ∧ (genPath dir m kind).2 ≠ (genPath dir n kind).2 := by
  have hinj : ∀ front, front ++ m ++ ".conf" ≠ front ++ n ++ ".conf" := by
    intro front heq
    rw [String.append_left_inj, String.append_right_inj] at heq
    exact h heq
  cases kind <;> exact ⟨hinj _, hinj _⟩

/-- **The names of a section do not collide exactly where no two of its sources clash.** -/
theorem conf_names_iff (sources : Set Source) :
    NamesApart φ kind sources ↔ ∀ a ∈ sources, ∀ b ∈ sources, ¬ Clash a b := by
  constructor
  · intro h a ha b hb hclash
    exact h.names a ha b hb hclash.ne hclash.name_eq
  · intro h
    have hnames := name_ne_of_not_clash h
    refine ⟨hnames, fun a ha b hb hne => genPath_ne kind (hnames a ha b hb hne), ?_⟩
    intro ops s hops a ha
    exact run_file kind ops s fun op hop hne => hnames _ (hops op hop) a ha hne

/-- two sockets whose paths differ in a `/` and a `-` have one file -/
theorem sockets_clash : ¬ ∀ sources : Set Source, NamesApart Unit .site sources := by
  intro h
  have hnames := (h {.unix "/run/app/web.sock", .unix "/run/app-web.sock"}).names _ (.inl rfl) _ (.inr rfl) (by decide)
  exact hnames ((unix_name_eq_iff _ _).2 ((map_dash_eq_iff _ _).1 (by decide)))

/-! ## Rules -/

section Rules

variable {ι : Type} {ipText : ι → String} {dir : String} {client : NanocldClient} {name : String}

/-- the source of the upstream of a target, as the daemon answers -/
inductive TargetSource (client : NanocldClient) (t : UpstreamTarget) : Source → Prop where
  | cargo {n nsp : String} {cargo : Cargo} : parseUpstreamTarget t.key = .ok (n, nsp, "c") →
      client.inspectCargo n nsp = .ok cargo → TargetSource client t (.upstream .cargo cargo.cargoKey t.port)
  | vm {n nsp : String} {vm : Vm} : parseUpstreamTarget t.key = .ok (n, nsp, "v") →
      client.inspectVm n nsp = .ok vm → TargetSource client t (.upstream .vm vm.vmKey t.port)

/-- the sources of an entry, in the section they are in -/
inductive RuleSource (client : NanocldClient) : ProxyRule ι φ → NginxRuleKind → Source → Prop where
  | streamUpstream {rule : ProxyRuleStream ι} {t : UpstreamTarget} {source : Source} : rule.target = .upstream t →
      TargetSource client t source → RuleSource client (.stream rule) .stream source
  | streamUnix {rule : ProxyRuleStream ι} {path : String} : rule.target = .unix ⟨path⟩ →
      RuleSource client (.stream rule) .stream (.unix path)
  | siteUpstream {rule : ProxyRuleHttp ι φ} {location : ProxyHttpLocation φ} {t : UpstreamTarget} {source : Source} :
      location ∈ rule.locations → location.target = .upstream t → TargetSource client t source →
      RuleSource client (.http rule) .site source
  | siteUnix {rule : ProxyRuleHttp ι φ} {location : ProxyHttpLocation φ} {path : String} :
      location ∈ rule.locations → location.target = .unix ⟨path⟩ → RuleSource client (.http rule) .site (.unix path)

theorem name_upstream (kind : ObjectKind) (key : String) (port : UInt16) :
    (Source.upstream kind key port).name = key ++ "-" ++ toString port.toNat ++ ("-" ++ upstreamEnd kind) := by
  rw [← String.toList_inj]
  simp [Source.name]

theorem source_of_upstreamOf {t : UpstreamTarget} {key : String} {addresses : List String}
    (h : upstreamOf client t = .ok (key, addresses)) : ∃ source, TargetSource client t source ∧ key = source.name := by
  unfold upstreamOf at h
  cases hparse : parseUpstreamTarget t.key with
  | error e => simp [hparse, bind, Except.bind] at h
  | ok parsed =>
    obtain ⟨n, nsp, letter⟩ := parsed
    simp only [hparse, bind, Except.bind] at h
    split at h
    · cases hcargo : client.inspectCargo n nsp with
      | error e => simp [hcargo] at h
      | ok cargo =>
        simp only [hcargo] at h
        split at h
        · cases h
        · cases h
          exact ⟨_, .cargo hparse hcargo, (name_upstream .cargo cargo.cargoKey t.port).symm⟩
    · cases hvm : client.inspectVm n nsp with
      | error e => simp [hvm] at h
      | ok vm =>
        simp only [hvm] at h
        split at h
        · cases h
        · cases h
          exact ⟨_, .vm hparse hvm, (name_upstream .vm vm.vmKey t.port).symm⟩
    · cases h

/-- the file of an upstream has the name of its source -/
theorem conf_of_genUpstream {t : UpstreamTarget} {kind' : NginxRuleKind} {key : String} {data : Conf φ}
    (h : .conf kind' key data ∈ (genUpstream (φ := φ) client t kind).1) :
    kind' = kind ∧ ∃ source, TargetSource client t source ∧ key = source.name := by
  unfold genUpstream at h
  cases hup : upstreamOf client t with
  | error e => simp [hup] at h
  | ok p =>
    simp only [hup, List.mem_singleton] at h
    cases h
    exact ⟨rfl, source_of_upstreamOf hup⟩

theorem conf_of_genStreamUpstreamKey {rule : ProxyRuleStream ι} {key : String} {data : Conf φ}
    (h : .conf kind key data ∈ (genStreamUpstreamKey (φ := φ) client rule.target).1) :
    ∃ source, RuleSource (φ := φ) client (.stream rule) kind source ∧ key = source.name := by
  cases htarget : rule.target with
  | upstream t =>
    rw [htarget] at h
    obtain ⟨rfl, source, hsource, rfl⟩ := conf_of_genUpstream .stream h
    exact ⟨source, .streamUpstream htarget hsource, rfl⟩
  | uri t =>
    rw [htarget] at h
    cases h
  | unix unix =>
    rw [htarget] at h
    obtain h := List.mem_singleton.1 h
    cases h
    exact ⟨.unix unix.unixPath, .streamUnix htarget, rfl⟩

theorem conf_of_streamEntry {rule : ProxyRuleStream ι} {key : String} {data : Conf φ}
    (h : .conf kind key data ∈ (streamEntry (φ := φ) client ipText dir name rule).1) :
    ∃ source, RuleSource (φ := φ) client (.stream rule) kind source ∧ key = source.name := by
  have hupstream : .conf kind key data ∈ (genStreamUpstreamKey (φ := φ) client rule.target).1 := by
    unfold streamEntry at h
    split at h
    · cases h
    · split at h
      · next hkey => rwa [hkey]
      · next hkey =>
        rw [hkey]
        exact (List.mem_append.1 h).resolve_right conf_notMem_sslOf
  exact conf_of_genStreamUpstreamKey kind hupstream

theorem conf_of_locationEntry {rule : ProxyRuleHttp ι φ} {location : ProxyHttpLocation φ} {key : String} {data : Conf φ}
    (hloc : location ∈ rule.locations) (h : .conf kind key data ∈ (locationEntry client dir location).1) :
    ∃ source, RuleSource client (.http rule) kind source ∧ key = source.name := by
  unfold locationEntry at h
  cases htarget : location.target with
  | upstream t =>
    have hmem : .conf kind key data ∈ (genUpstream (φ := φ) client t .site).1 := by
      simp only [htarget] at h
      split at h
      · next hkey => rwa [hkey]
      · next hkey =>
        rw [hkey]
        exact (List.mem_append.1 h).resolve_right conf_notMem_sslOf
    obtain ⟨rfl, source, hsource, rfl⟩ := conf_of_genUpstream .site hmem
    exact ⟨source, .siteUpstream hloc htarget hsource, rfl⟩
  | unix unix =>
    simp only [htarget, genUnixTargetKey, List.mem_singleton] at h
    cases h
    exact ⟨.unix unix.unixPath, .siteUnix hloc htarget, rfl⟩
  | http http =>
    simp only [htarget] at h
    cases h

theorem conf_of_locationEntries {rule : ProxyRuleHttp ι φ} {locations : List (ProxyHttpLocation φ)} {key : String}
    {data : Conf φ} (hloc : ∀ l ∈ locations, l ∈ rule.locations)
    (h : .conf kind key data ∈ (locationEntries client dir locations).1) :
    ∃ source, RuleSource client (.http rule) kind source ∧ key = source.name := by
  induction locations with
  | nil => cases h
  | cons location locations ih =>
    obtain h | h := List.mem_append.1 h
    · exact conf_of_locationEntry kind (hloc location List.mem_cons_self) h
    · exact ih (fun l hl => hloc l (List.mem_cons_of_mem _ hl)) h

theorem conf_of_httpEntry {rule : ProxyRuleHttp ι φ} {key : String} {data : Conf φ}
    (h : .conf kind key data ∈ (httpEntry client ipText dir name rule).1) :
    ∃ source, RuleSource client (.http rule) kind source ∧ key = source.name := by
  unfold httpEntry at h
  split at h
  · cases h
  · split at h
    · cases h
    · exact conf_of_locationEntries kind (fun _ hl => hl) ((List.mem_append.1 h).resolve_left conf_notMem_sslOf)

/-- **The files that are written for a rule are those of its sources.** -/
theorem conf_of_generate {rules : List (ProxyRule ι φ)} {key : String} {data : Conf φ}
    (h : .conf kind key data ∈ (generate client ipText dir name rules).1) :
    ∃ rule ∈ rules, ∃ source, RuleSource client rule kind source ∧ key = source.name := by
  induction rules with
  | nil => cases h
  | cons rule rules ih =>
    have hrest : .conf kind key data ∈ (generate client ipText dir name rules).1 →
        ∃ r ∈ rule :: rules, ∃ source, RuleSource client r kind source ∧ key = source.name := by
      intro hmem
      obtain ⟨r, hr, hsource⟩ := ih hmem
      exact ⟨r, List.mem_cons_of_mem _ hr, hsource⟩
    cases rule with
    | stream r =>
      have hown : .conf kind key data ∈ (streamEntry (φ := φ) client ipText dir name r).1 →
          ∃ r' ∈ .stream r :: rules, ∃ source, RuleSource client r' kind source ∧ key = source.name :=
        fun hmem => ⟨.stream r, List.mem_cons_self, conf_of_streamEntry kind hmem⟩
      rw [generate] at h
      split at h
      · next hentry =>
        rw [hentry] at hown
        exact hown h
      · next hentry =>
        rw [hentry] at hown
        exact (List.mem_append.1 h).elim hown hrest
    | http r =>
      have hown : .conf kind key data ∈ (httpEntry client ipText dir name r).1 →
          ∃ r' ∈ .http r :: rules, ∃ source, RuleSource client r' kind source ∧ key = source.name :=
        fun hmem => ⟨.http r, List.mem_cons_self, conf_of_httpEntry kind hmem⟩
      rw [generate] at h
      split at h
      · next hentry =>
        rw [hentry] at hown
        exact hown h
      · next hentry =>
        rw [hentry] at hown
        exact (List.mem_append.1 h).elim hown hrest

variable {test : Store φ → Except String Unit} {rule : ResourceProxyRule ι φ}

end Rules

end Nanocl.Proxy
