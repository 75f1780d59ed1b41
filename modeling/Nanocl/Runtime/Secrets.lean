/-
The secrets of the containers a task creates (`utils/secret.rs`): what the two loaders read of the table of secrets, and the
files that `create_tls_secrets` writes.

Both loaders read with the names they are given and the kind of secret they are for, so each gets 100 secrets at most. The
variables of the first end up in one list. For the second, the files of each secret are written one after another, all secrets
at once; a write goes through if the directory of its file is there, and nobody looks at what became of it. Docker makes the
directory of a bind when a container starts, and so after all of this.

- `readOfKind_eq`: what a loader reads.
- `tlsPath_inj`: no two files of secrets have the same path.
- `file_of_written`: after the fan-out a file of a secret is there if all the files before it could be written, and else is as
  it was.
-/
import Nanocl.Lib.Concurrent
import Nanocl.Lib.Table
import Nanocl.Proxy.RuleFormat
import Nanocl.Runtime.Instances

namespace Nanocl.Runtime

open Nanocl.Lib

/-! ## Table of secrets -/

/-- a row of `secrets`, in what the loaders read -/
structure SecretDb where
  key : String
  /-- microseconds since the epoch -/
  createdAt : ℤ
  kind : String
  data : Lib.Json

abbrev Secrets := Lib.Table SecretDb.key

namespace SecretDb

/-- `get_columns` -/
def columns : Columns :=
  [("key", .text, "secrets.key"), ("kind", .text, "secrets.kind"), ("created_at", .timestamptz, "secrets.created_at"),
   ("updated_at", .timestamptz, "secrets.updated_at"), ("data", .json, "secrets.data"),
   ("metadata", .json, "secrets.metadata")]

/-- the columns that the loaders filter and order by -/
def toRow (s : SecretDb) : Row
  | "secrets.key" => .text s.key
  | "secrets.kind" => .text s.kind
  | "secrets.created_at" => .time s.createdAt
  | _ => .null

/-- `created_at.desc()` -/
def newer (a b : SecretDb) : Bool := b.createdAt ≤ a.createdAt

/-- `transform_read_by` with the filter of a loader -/
def readOfKind (E : Externals) (kind : String) (names : List String) (secrets : Secrets) :
    Except QueryError (List SecretDb) := do
  let filter := (GenericFilter.new.where "key" (.isIn names)).where "kind" (.eq kind)
  let query ← genReadQuery E columns toRow newer filter
  return query.run secrets.rows

/-- the query of a loader -/
def ofKind (kind : String) (names : List String) : Query SecretDb where
  clause := some fun s => decide (s.key ∈ names) && decide (s.kind = kind)
  le := newer
  limit := some 100
  offset := 0

theorem readOfKind_eq (E : Externals) (kind : String) (names : List String) (secrets : Secrets) :
    readOfKind E kind names secrets = .ok ((ofKind kind names).run secrets.rows) := by
  have hkey : columns.get "key" = some (.text, "secrets.key") := by decide
  have hkind : columns.get "kind" = some (.text, "secrets.kind") := by decide
  have hquery : genReadQuery E columns toRow newer ((GenericFilter.new.where "key" (.isIn names)).where "kind" (.eq kind)) =
      .ok (ofKind kind names) := by
    simp [genReadQuery, readOrder, genSqlQuery, GenericFilter.where, GenericFilter.new, Conditions.insert, genSqlWhere,
      genSqlWhere4string, filterBy, stringClause, Where.filter, onText, toRow, hkey, hkind, ofKind]
  simp only [readOfKind, hquery]
  rfl

/-- the variables of a secret of the kind `nanocl.io/env` -/
def envs (s : SecretDb) : Option (List String) := (Codec.list Codec.text).decode s.data

def readVariables (s : SecretDb) : Except QueryError (List String) :=
  match s.envs with
  | some envs => .ok envs
  | none => .error "invalid type: expected a sequence"

end SecretDb

/-- the rows of a name that the loader of a kind is asked for -/
def wanted (secrets : Secrets) (kind : String) (names : List String) (s : SecretDb) : Prop :=
  s ∈ secrets.rows ∧ s.key ∈ names ∧ s.kind = kind

/-- the rows it reads -/
def loaded (secrets : Secrets) (kind : String) (names : List String) : List SecretDb :=
  (SecretDb.ofKind kind names).run secrets.rows

theorem wanted_of_loaded {secrets : Secrets} {kind : String} {names : List String} {s : SecretDb}
    (h : s ∈ loaded secrets kind names) : wanted secrets kind names s := by
  obtain ⟨hrow, hsat⟩ := Query.mem_of_mem_run h
  simpa [wanted, SecretDb.ofKind, hrow] using hsat

/-- `load_env_secrets`, with the names -/
def readEnvs (E : Externals) (secrets : Secrets) (names : List String) : Except QueryError (List String) := do
  let secrets ← SecretDb.readOfKind E "nanocl.io/env" names secrets
  let envs ← secrets.mapM SecretDb.readVariables
  return envs.flatten

/-- the daemon with these secrets, for a task that loads these names -/
@[irreducible] def Env.withSecrets (E : Env) (secrets : Secrets) (names : Option (List String)) : Env :=
  { E with
    envSecrets := fun names => (readEnvs E.externals secrets names).toOption.getD []
    fate := fun
      | .loadEnvSecrets draw =>
        match E.fate (.loadEnvSecrets draw), readEnvs E.externals secrets (names.getD []) with
        | some e, _ => some e
        | none, .error e => some ⟨none, e⟩
        | none, .ok _ => none
      | call => E.fate call }

section WithSecrets

variable (E : Env) (secrets : Secrets) (names : Option (List String))

@[simp] theorem Env.withSecrets_stateDir : (E.withSecrets secrets names).stateDir = E.stateDir := by
  simp only [Env.withSecrets]

@[simp] theorem Env.withSecrets_internalGateway :
    (E.withSecrets secrets names).internalGateway = E.internalGateway := by
  simp only [Env.withSecrets]

/-- the environment of a container does not depend on the table -/
@[simp] theorem createCargoEnv_withSecrets (cargo : Cargo) (vars : List String) (current : ℕ) :
    createCargoEnv (E.withSecrets secrets names) cargo vars current = createCargoEnv E cargo vars current := by
  simp only [createCargoEnv, Env.withSecrets]

theorem instanceConfig_withSecrets (cargo : Cargo) (dir : String) (vars : List String) :
    instanceConfig (E.withSecrets secrets names) cargo dir vars = instanceConfig E cargo dir vars := by
  funext current
  simp only [instanceConfig, createCargoEnv_withSecrets]

end WithSecrets

/-- the variables of the secrets that are read -/
def loadedEnvs (secrets : Secrets) (names : List String) : List String :=
  (loaded secrets "nanocl.io/env" names).flatMap fun s => s.envs.getD []

theorem readEnvs_ok {E : Externals} {secrets : Secrets} {names l : List String} (h : readEnvs E secrets names = .ok l) :
    l = loadedEnvs secrets names ∧ ∀ s ∈ loaded secrets "nanocl.io/env" names, s.envs.isSome := by
  rw [readEnvs, SecretDb.readOfKind_eq] at h
  obtain ⟨envs, henvs, hl⟩ := Except.bind_eq_ok_iff.1 ((Except.ok_bind _ _).symm.trans h)
  obtain rfl : envs.flatten = l := Except.ok.inj hl
  have hread : List.Forall₂ (fun s env => s.envs = some env) (loaded secrets "nanocl.io/env" names) envs := by
    refine (mapM_eq_ok_iff.1 henvs).imp fun s env hs => ?_
    unfold SecretDb.readVariables at hs
    split at hs
    · next hsome => rw [hsome, Except.ok.inj hs]
    · cases hs
  rw [loadedEnvs]
  clear h henvs hl
  generalize loaded secrets "nanocl.io/env" names = rows at hread
  induction hread with
  | nil => simp
  | cons hs _ ih => simpa [hs, ← ih.1] using ih.2

/-! ## Files -/

/-- the directories and the files of the host -/
structure Fs where
  dir : String → Bool
  file : String → Option String

/-- the path up to its last `/` -/
def parent (path : String) : String := String.ofList ((path.toList.reverse.dropWhile fun c => c ≠ '/').tail.reverse)

namespace Fs

def writable (fs : Fs) (path : String) : Bool := fs.dir (parent path) && !fs.dir path

/-- `fs::write`: it fails if the path cannot be written -/
def write (fs : Fs) (path content : String) : Fs :=
  if fs.writable path then { fs with file := Function.update fs.file path (some content) } else fs

@[simp] theorem dir_write (fs : Fs) (path content : String) : (fs.write path content).dir = fs.dir := by
  unfold write
  split_ifs <;> rfl

@[simp] theorem writable_write (fs : Fs) (path content path' : String) :
    (fs.write path content).writable path' = fs.writable path' := by
  simp [writable]

theorem file_write_self {fs : Fs} {path : String} (h : fs.writable path = true) (content : String) :
    (fs.write path content).file path = some content := by
  simp [write, h]

theorem file_write_of_ne {path path' : String} (h : path' ≠ path) (fs : Fs) (content : String) :
    (fs.write path content).file path' = fs.file path' := by
  unfold write
  split_ifs
  · exact Function.update_of_ne h ..
  · rfl

theorem file_write_of_not {fs : Fs} {path : String} (h : fs.writable path = false) (content : String) :
    fs.write path content = fs := by
  simp [write, h]

end Fs

/-- a file and what is written to it -/
abbrev FileWrite := String × String

/-- the file of a secret with this extension -/
def tlsPath (dir key extension : String) : String := dir ++ "/" ++ key ++ "." ++ extension

/-- the files of a secret of the kind `nanocl.io/tls`, in the order they are written -/
def tlsFiles (dir : String) (s : SecretDb) : List FileWrite :=
  match Proxy.proxySslConfig.decode s.data with
  | none => []
  | some tls =>
    [(tlsPath dir s.key "crt", tls.certificate), (tlsPath dir s.key "key", tls.certificateKey)] ++
      (tls.certificateClient.map fun ca => (tlsPath dir s.key "ca", ca)).toList

/-- the future of a secret: the first write that fails ends it -/
def writeFiles : List FileWrite → Task Fs Bool
  | [] => .done true
  | (path, content) :: files =>
    .step (fun fs => fs.write path content) fun fs => if fs.writable path then writeFiles files else .done false

/-- the futures of `create_tls_secrets`, one for each secret -/
def tlsPool (dir : String) (secrets : List SecretDb) (fs : Fs) : Pool ℕ Fs Bool where
  tasks i := writeFiles ((secrets[i]?).elim [] (tlsFiles dir))
  state := fs

/-- no two files of secrets have the same path -/
theorem tlsPath_inj {dir key key' extension extension' : String} (he : extension ∈ ["crt", "key", "ca"])
    (he' : extension' ∈ ["crt", "key", "ca"]) (h : tlsPath dir key extension = tlsPath dir key' extension') :
    key = key' ∧ extension = extension' := by
  have hrev := congrArg (fun s : String => s.toList.reverse) h
  simp only [tlsPath, String.toList_append, List.reverse_append] at hrev
  simp only [List.mem_cons, List.not_mem_nil, or_false] at he he'
  rcases he with rfl | rfl | rfl <;> rcases he' with rfl | rfl | rfl <;>
    simp_all [String.toList_inj]

/-! ## Fan-out -/

section Fanout

variable {fs fs' : Fs} {files : List FileWrite}

/-- the files that are written before the first that cannot be -/
def Fs.reached (fs : Fs) (files : List FileWrite) : List FileWrite := files.takeWhile fun f => fs.writable f.1

/-- where the future of a secret is: the files before are written, the others are as they were -/
def Writing (fs : Fs) (files : List FileWrite) (t : Task Fs Bool) (fs' : Fs) : Prop :=
  fs'.dir = fs.dir ∧ ∃ pre post, files = pre ++ post ∧ (∀ f ∈ pre, fs.writable f.1 = true ∧ fs'.file f.1 = some f.2) ∧
    (∀ f ∈ post, fs'.file f.1 = fs.file f.1) ∧
    (t = writeFiles post ∨ t = .done false ∧ ∃ f rest, post = f :: rest ∧ fs.writable f.1 = false)

theorem Writing.start (fs : Fs) (files : List FileWrite) : Writing fs files (writeFiles files) fs :=
  ⟨rfl, [], files, rfl, by simp, fun _ _ => rfl, .inl rfl⟩

theorem writable_congr (h : fs'.dir = fs.dir) (path : String) : fs'.writable path = fs.writable path := by
  rw [Fs.writable, h, Fs.writable]

/-- a future that goes on writes one of its files -/
theorem Writing.step {act : Fs → Fs} {next : Fs → Task Fs Bool} (h : Writing fs files (.step act next) fs') :
    ∃ f ∈ files, act = fun fs => fs.write f.1 f.2 := by
  obtain ⟨-, pre, post, rfl, -, -, ht | ⟨ht, -⟩⟩ := h
  · cases post with
    | nil => cases ht
    | cons f post =>
      injection ht with hact
      exact ⟨f, by simp, hact⟩
  · cases ht

theorem Writing.own (hpaths : (files.map Prod.fst).Nodup) {act : Fs → Fs} {next : Fs → Task Fs Bool}
    (h : Writing fs files (.step act next) fs') : Writing fs files (next fs') (act fs') := by
  obtain ⟨hdir, pre, post, rfl, hpre, hpost, ht | ⟨ht, -⟩⟩ := h
  · cases post with
    | nil => cases ht
    | cons f post =>
      injection ht with hact hnext
      subst hact hnext
      obtain ⟨-, hrest, hdisj⟩ := List.nodup_append.1 (List.map_append ▸ hpaths)
      have hothers : ∀ g ∈ pre, g.1 ≠ f.1 := fun g hg =>
        hdisj g.1 (List.mem_map_of_mem hg) f.1 (by simp)
      have hlater : ∀ g ∈ post, g.1 ≠ f.1 := fun g hg heq =>
        (List.nodup_cons.1 hrest).1 (heq ▸ List.mem_map_of_mem hg)
      change Writing fs (pre ++ f :: post) (if fs'.writable f.1 then writeFiles post else .done false) (fs'.write f.1 f.2)
      cases hw : fs'.writable f.1 with
      | true =>
        refine ⟨by simpa using hdir, pre ++ [f], post, by simp, fun g hg => ?_, fun g hg => ?_, .inl (if_pos rfl)⟩
        · rcases List.mem_append.1 hg with hg | hg
          · exact ⟨(hpre g hg).1, (Fs.file_write_of_ne (hothers g hg) ..).trans (hpre g hg).2⟩
          · obtain rfl := List.mem_singleton.1 hg
            exact ⟨writable_congr hdir _ ▸ hw, Fs.file_write_self hw _⟩
        · exact (Fs.file_write_of_ne (hlater g hg) ..).trans (hpost g (List.mem_cons_of_mem _ hg))
      | false =>
        rw [Fs.file_write_of_not hw]
        exact ⟨hdir, pre, f :: post, rfl, hpre, hpost, .inr ⟨rfl, f, post, rfl, writable_congr hdir _ ▸ hw⟩⟩
  · cases ht

/-- a write of another file does not disturb a future -/
theorem Writing.other {t : Task Fs Bool} (h : Writing fs files t fs') {f : FileWrite} (hf : ∀ g ∈ files, g.1 ≠ f.1) :
    Writing fs files t (fs'.write f.1 f.2) := by
  obtain ⟨hdir, pre, post, rfl, hpre, hpost, ht⟩ := h
  refine ⟨by simpa using hdir, pre, post, rfl, fun g hg => ⟨(hpre g hg).1, ?_⟩, fun g hg => ?_, ht⟩
  · exact (Fs.file_write_of_ne (hf g (List.mem_append_left _ hg)) ..).trans (hpre g hg).2
  · exact (Fs.file_write_of_ne (hf g (List.mem_append_right _ hg)) ..).trans (hpost g hg)

/-- a future that is done has written what it could reach -/
theorem Writing.done {result : Bool} (h : Writing fs files (.done result) fs') :
    (∀ f ∈ fs.reached files, fs'.file f.1 = some f.2) ∧ ∀ f ∈ files, f ∉ fs.reached files → fs'.file f.1 = fs.file f.1 := by
  obtain ⟨-, pre, post, rfl, hpre, hpost, ht⟩ := h
  have hreached : fs.reached (pre ++ post) = pre := by
    have hstop : post.takeWhile (fun f => fs.writable f.1) = [] := by
      rcases ht with ht | ⟨-, f, rest, rfl, hf⟩
      · cases post with
        | nil => rfl
        | cons f post => cases ht
      · simp [hf]
    rw [Fs.reached, List.takeWhile_append_of_pos fun f hf => (hpre f hf).1, hstop, List.append_nil]
  rw [hreached]
  exact ⟨fun f hf => (hpre f hf).2, fun f hf hno => hpost f ((List.mem_append.1 hf).resolve_left hno)⟩

/-- the futures of files with paths of their own do not disturb each other -/
theorem stable_writing {files : ℕ → List FileWrite} (hpaths : ∀ i, ((files i).map Prod.fst).Nodup)
    (hdisj : ∀ i j, i ≠ j → ∀ f ∈ files i, ∀ g ∈ files j, f.1 ≠ g.1) :
    Stable (fun _ => True) fun i => Writing fs (files i) where
  own i _ _ _ _ h := h.own (hpaths i)
  other i j act next t s hij _ hi hj := by
    obtain ⟨f, hf, rfl⟩ := hi.step
    exact hj.other fun g hg => (hdisj i j hij f hf g hg).symm

end Fanout

/-- the files after `create_tls_secrets`, in whatever order the futures ran -/
def TlsWritten (dir : String) (secrets : List SecretDb) (fs fs' : Fs) : Prop :=
  ∃ schedule, ((tlsPool dir secrets fs).run schedule).Finished ∧ ((tlsPool dir secrets fs).run schedule).state = fs'

/-- what becomes of the files: those that can be reached are written, and nothing else changes -/
structure TlsFiles (dir : String) (secrets : List SecretDb) (fs fs' : Fs) : Prop where
  dirs : fs'.dir = fs.dir
  written : ∀ s ∈ secrets, ∀ f ∈ fs.reached (tlsFiles dir s), fs'.file f.1 = some f.2
  others : ∀ path, (∀ s ∈ secrets, ∀ f ∈ fs.reached (tlsFiles dir s), f.1 ≠ path) → fs'.file path = fs.file path

section Written

variable {dir : String} {s t : SecretDb} {f g : FileWrite}

theorem path_of_tlsFiles (hf : f ∈ tlsFiles dir s) :
    ∃ extension ∈ ["crt", "key", "ca"], f.1 = tlsPath dir s.key extension := by
  unfold tlsFiles at hf
  split at hf
  · cases hf
  · next tls _ =>
    simp only [List.mem_append, List.mem_cons, List.not_mem_nil, or_false, Option.mem_toList, Option.map_eq_some_iff] at hf
    rcases hf with (rfl | rfl) | ⟨ca, -, rfl⟩
    · exact ⟨"crt", by simp, rfl⟩
    · exact ⟨"key", by simp, rfl⟩
    · exact ⟨"ca", by simp, rfl⟩

/-- a file of two secrets is one of a secret only -/
theorem key_of_tlsFiles (hf : f ∈ tlsFiles dir s) (hg : g ∈ tlsFiles dir t) (h : f.1 = g.1) : s.key = t.key := by
  obtain ⟨e, he, hf⟩ := path_of_tlsFiles hf
  obtain ⟨e', he', hg⟩ := path_of_tlsFiles hg
  exact (tlsPath_inj he he' (hf.symm.trans (h.trans hg))).1

theorem nodup_tlsFiles (dir : String) (s : SecretDb) : ((tlsFiles dir s).map Prod.fst).Nodup := by
  unfold tlsFiles
  split
  · exact List.nodup_nil
  · next tls _ =>
    have hne : ∀ e ∈ ["crt", "key", "ca"], ∀ e' ∈ ["crt", "key", "ca"], e ≠ e' →
        tlsPath dir s.key e ≠ tlsPath dir s.key e' := fun e he e' he' h heq => h (tlsPath_inj he he' heq).2
    cases tls.certificateClient with
    | none => simp [hne "crt" (by simp) "key" (by simp)]
    | some ca =>
      simp [hne "crt" (by simp) "key" (by simp), hne "crt" (by simp) "ca" (by simp), hne "key" (by simp) "ca" (by simp)]

variable {secrets : List SecretDb} {fs fs' fs'' : Fs}

/-- **After the fan-out** a file is there if it was reached. -/
theorem tlsFiles_of_written (hkeys : (secrets.map SecretDb.key).Nodup) (h : TlsWritten dir secrets fs fs') :
    TlsFiles dir secrets fs fs' := by
  obtain ⟨schedule, hdone, rfl⟩ := h
  set files : ℕ → List FileWrite := fun i => (secrets[i]?).elim [] (tlsFiles dir) with hfiles
  have hown : ∀ i, ∀ f ∈ files i, ∃ s, secrets[i]? = some s ∧ f ∈ tlsFiles dir s := by
    intro i f hf
    cases hi : secrets[i]? with
    | none => simp [hfiles, hi] at hf
    | some s => exact ⟨s, rfl, by simpa [hfiles, hi] using hf⟩
  have hpaths : ∀ i, ((files i).map Prod.fst).Nodup := by
    intro i
    cases hi : secrets[i]? with
    | none => simp [hfiles, hi]
    | some s => simpa [hfiles, hi] using nodup_tlsFiles dir s
  have hdisj : ∀ i j, i ≠ j → ∀ f ∈ files i, ∀ g ∈ files j, f.1 ≠ g.1 := by
    intro i j hij f hf g hg heq
    obtain ⟨s, hs, hf⟩ := hown i f hf
    obtain ⟨t, ht, hg⟩ := hown j g hg
    have hi : i < (secrets.map SecretDb.key).length := by simpa using (List.getElem?_eq_some_iff.1 hs).1
    exact hij ((List.getElem?_inj hi hkeys).1 (by simp [hs, ht, key_of_tlsFiles hf hg heq]))
  have hstable : Stable (fun _ => True) fun i => Writing fs (files i) := stable_writing hpaths hdisj
  have hstart : ∀ i, Writing fs (files i) ((tlsPool dir secrets fs).tasks i) (tlsPool dir secrets fs).state :=
    fun i => .start fs (files i)
  have hend : ∀ i, ∃ result, Writing fs (files i) (.done result) ((tlsPool dir secrets fs).run schedule).state := by
    intro i
    obtain ⟨result, hresult⟩ := hdone i
    have hrun : Writing fs (files i) (((tlsPool dir secrets fs).run schedule).tasks i)
        ((tlsPool dir secrets fs).run schedule).state := hstable.run (fun _ _ => trivial) hstart i
    exact ⟨result, hresult ▸ hrun⟩
  refine ⟨((hend 0).choose_spec).1, fun s hs f hf => ?_, fun path hpath => ?_⟩
  · obtain ⟨i, hi⟩ := List.getElem?_of_mem hs
    have hfile : files i = tlsFiles dir s := by simp [hfiles, hi]
    exact ((hend i).choose_spec).done.1 f (hfile ▸ hf)
  · by_cases hmem : ∃ i, ∃ f ∈ files i, f.1 = path
    · obtain ⟨i, f, hf, rfl⟩ := hmem
      obtain ⟨s, hs, hfs⟩ := hown i f hf
      have hfile : files i = tlsFiles dir s := by simp [hfiles, hs]
      exact ((hend i).choose_spec).done.2 f hf fun hreached =>
        hpath s (List.mem_of_getElem? hs) f (hfile ▸ hreached) rfl
    · refine hstable.run_state (J := fun fs' => fs'.file path = fs.file path) (fun i act next s _ hi hs => ?_)
        (fun _ _ => trivial) hstart rfl
      obtain ⟨f, hf, rfl⟩ := hi.step
      exact (Fs.file_write_of_ne (fun heq => hmem ⟨i, f, hf, heq.symm⟩) ..).trans hs

/-- the secrets that are read have keys of their own -/
theorem nodup_loaded (secrets : Secrets) (kind : String) (names : List String) :
    ((loaded secrets kind names).map SecretDb.key).Nodup := Query.nodup_run _ secrets.nodup

theorem TlsFiles.reached (h : TlsFiles dir secrets fs fs') (files : List FileWrite) : fs'.reached files = fs.reached files := by
  simp only [Fs.reached, writable_congr h.dirs]

/-- a further fan-out for the same secrets changes nothing -/
theorem TlsFiles.again (h : TlsFiles dir secrets fs fs') (h' : TlsFiles dir secrets fs' fs'') : TlsFiles dir secrets fs fs'' where
  dirs := h'.dirs.trans h.dirs
  written s hs f hf := h'.written s hs f (by rwa [h.reached])
  others path hpath := (h'.others path fun s hs f hf => hpath s hs f (by rwa [h.reached] at hf)).trans (h.others path hpath)

end Written

end Nanocl.Runtime
