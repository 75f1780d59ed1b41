/-
Delivery of the secrets of a cargo or a job to its containers (`utils/container/cargo.rs`, `utils/container/job.rs`).

Three builders make containers: the instances of a cargo, its init container, and the containers of a job. Each loads the
variables of the secrets and has the files of the certificates written, adds the variables to what it gives to docker as the
environment, and binds the directory of the files.

- `Builder.run_ok`: containers that were all created have the configurations of the builder, with the variables that were read.
- `delivered_iff`: the secrets are delivered exactly if each one is read, or its variables and files are there all the same; and
  the files of a secret that is read could be written.
- `deliverable_of_few`: with at most a hundred secrets of each kind, they are if each one exists and its files can be written.
- `missing_directory`: the first certificate of a cargo is not delivered, as its directory is not there.
-/
import Mathlib.Data.List.TakeWhile
import Nanocl.Runtime.Configs
import Nanocl.Runtime.Job
import Nanocl.Runtime.Secrets

namespace Nanocl.Runtime

open Nanocl.Lib

variable {E : Env} {w w' : World} {b : ContainerId}

/-! ## Loaders -/

section Loaders

variable {secrets : Secrets} {names : Option (List String)}

theorem fate_of_inert {c : Call} {context : String} {u : Unit} {w₁ : World}
    (h : orThrow context (await E (Docker.callInert E c)) w = (.ok u, w₁)) : E.fate c = none := by
  cases hf : E.fate c with
  | none => rfl
  | some e =>
    have hcall : (suspend E w).2.docker.callInert E c = (.error e, (suspend E w).2.docker.record c none false) := by
      simp only [Docker.callInert, hf]
    rw [orThrow_run_error hcall] at h
    cases h

/-- the variables that `load_env_secrets` returns -/
theorem loadEnvSecrets_ok {vars : List String} (h : (loadEnvSecrets (E.withSecrets secrets names) names w).1 = .ok vars) :
    vars = loadedEnvs secrets (names.getD []) := by
  cases names with
  | none =>
    obtain rfl : [] = vars := Except.ok.inj h
    have hnone : loaded secrets "nanocl.io/env" [] = [] :=
      List.eq_nil_iff_forall_not_mem.2 fun s hs => absurd (wanted_of_loaded hs).2.1 List.not_mem_nil
    simp [loadedEnvs, hnone]
  | some names =>
    have hget : loadEnvSecrets (E.withSecrets secrets (some names)) (some names) w = _ := Prog.get_bind _ w
    rw [hget] at h
    obtain ⟨u, w₁, hcall, hok, -⟩ := Prog.bind_ok h
    have hfate := fate_of_inert hcall
    obtain rfl := Except.ok.inj hok
    cases hread : readEnvs E.externals secrets names with
    | error e =>
      simp only [Env.withSecrets, Option.getD_some, hread] at hfate
      cases hf : E.fate (.loadEnvSecrets w.draws) <;> simp [hf] at hfate
    | ok l =>
      obtain ⟨rfl, -⟩ := readEnvs_ok hread
      simp [Env.withSecrets, hread, Except.toOption]

end Loaders

/-! ## Builders -/

/-- what makes containers -/
inductive Builder where
  /-- the instances of a cargo -/
  | cargo (cargo : Cargo) (number : ℕ)
  /-- the init container of a cargo -/
  | init (cargo : Cargo) (initContainer : Config)
  | job (job : Job)

namespace Builder

def run (E : Env) : Builder → Io (List ProcessDb)
  | .cargo c number => create E c number
  | .init c initContainer => do return [← createInitContainer E c initContainer]
  | .job j => createInstances E j

def kind : Builder → ProcessKind
  | .cargo .. | .init .. => .cargo
  | .job _ => .job

/-- the secrets of the object -/
def names : Builder → List String
  | .cargo c _ | .init c _ => c.spec.secrets.getD []
  | .job j => j.secrets.getD []

/-- the secrets that the loaders are asked for; those of a cargo come after the injection of internal data -/
def given (E : Env) : Builder → Option (List String)
  | .cargo c _ => (c.inject E.internalGateway).spec.secrets
  | .init c _ => c.spec.secrets
  | .job j => j.secrets

/-- the directory of the files -/
def dir (E : Env) : Builder → String
  | .cargo c _ | .init c _ => E.stateDir ++ "/secrets/" ++ ProcessKind.cargo.display ++ "/" ++ c.key
  | .job j => E.stateDir ++ "/secrets/" ++ ProcessKind.job.display ++ "/" ++ j.name

/-- how often `create_tls_secrets` is called -/
def calls : Builder → ℕ
  | .cargo .. | .init .. => 1
  | .job j => j.containers.length

/-- the configurations of the containers, for the variables of the secrets -/
def configs (E : Env) (vars : List String) (x : Builder) : List Config :=
  match x with
  | .cargo c number => (List.range number).map (instanceConfig E (c.inject E.internalGateway) (x.dir E) vars)
  | .init c initContainer =>
    [initConfig E c initContainer (initContainer.image.getD (c.spec.container.image.getD "")) (x.dir E) vars]
  | .job j => j.containers.map fun container => jobConfig j container vars (x.dir E)

end Builder

section Run

variable {secrets : Secrets}

variable (secrets) in
theorem creates_createJobInstance (job : Job) (index : ℕ) (container : Config) :
    Creates b .job (jobConfig job container (loadedEnvs secrets (job.secrets.getD [])) ((Builder.job job).dir E))
      (createJobInstance (E.withSecrets secrets job.secrets) job index container) := by
  refine .bind (steps_configured.loadEnvSecrets (fun _ => trivial) _) fun vars ⟨w, hvars⟩ => ?_
  obtain rfl := loadEnvSecrets_ok hvars
  refine .bind (steps_configured.createTlsSecrets (fun _ => trivial) _ _ _) fun dir ⟨w, hdir⟩ => ?_
  obtain rfl : dir = (Builder.job job).dir E := by
    rw [createTlsSecrets_ok hdir, Env.withSecrets_stateDir, Builder.dir]
  exact .bind steps_configured.generateShortId fun _ _ => creates_createProcess _ _ _ _ _

variable (secrets) in
theorem creates_createInitContainer (cargo : Cargo) (initContainer : Config) :
    Creates b .cargo (initConfig E cargo initContainer (initContainer.image.getD (cargo.spec.container.image.getD ""))
      ((Builder.init cargo initContainer).dir E) (loadedEnvs secrets (cargo.spec.secrets.getD [])))
      (createInitContainer (E.withSecrets secrets cargo.spec.secrets) cargo initContainer) := by
  unfold createInitContainer
  cases himage : cargo.spec.container.image with
  | none => exact creates_fail _
  | some cargoImage =>
    refine .bind (steps_configured.createTlsSecrets (fun _ => trivial) _ _ _) fun dir ⟨w, hdir⟩ => ?_
    obtain rfl : dir = (Builder.init cargo initContainer).dir E := by
      rw [createTlsSecrets_ok hdir, Env.withSecrets_stateDir, Builder.dir]
    refine .bind (steps_configured.downloadImage (fun _ _ _ => trivial) _) fun _ _ => ?_
    refine .bind (steps_configured.loadEnvSecrets (fun _ => trivial) _) fun vars ⟨w, hvars⟩ => ?_
    obtain rfl := loadEnvSecrets_ok hvars
    refine .bind steps_configured.generateShortId fun a _ => ?_
    have h := creates_createProcess (E := E.withSecrets secrets cargo.spec.secrets) (b := b) .cargo a.1
      ("init-" ++ cargo.spec.name ++ "-" ++ a.2 ++ "." ++ cargo.namespaceName ++ ".c") cargo.key (initConfig E cargo
        initContainer (initContainer.image.getD cargoImage) ((Builder.init cargo initContainer).dir E)
        (loadedEnvs secrets (cargo.spec.secrets.getD [])))
    simpa only [initConfig, createCargoEnv_withSecrets, Option.getD_some] using h

theorem keeps_createJobInstance (job : Job) (index : ℕ) (container : Config) :
    Prog.Keeps (Configured b) (createJobInstance E job index container) :=
  Prog.keeps_bind (steps_configured.loadEnvSecrets (fun _ => trivial) _) fun _ =>
    Prog.keeps_bind (steps_configured.createTlsSecrets (fun _ => trivial) _ _ _) fun _ =>
      Prog.keeps_bind steps_configured.generateShortId fun _ =>
        steps_configured.create (fun _ hc => hc.preparing.keeping) _ _ _ _ _

theorem keeps_createInstancesFrom (job : Job) (index : ℕ) (containers : List Config) :
    Prog.Keeps (Configured b) (createInstancesFrom E job index containers) := by
  induction containers generalizing index with
  | nil => exact Prog.keeps_pure _
  | cons container containers ih =>
    exact Prog.keeps_bind (steps_configured.downloadImage (fun _ _ _ => trivial) _) fun _ =>
      Prog.keeps_bind (keeps_createJobInstance job index container) fun _ =>
        Prog.keeps_bind (ih (index + 1)) fun _ => Prog.keeps_pure _

/-- the loop over the containers of a job -/
theorem createInstancesFrom_ok (job : Job) {index : ℕ} {containers : List Config} {ps : List ProcessDb}
    (ho : OlderRemovals b w) (hb : b ≤ w.docker.nextId)
    (h : (createInstancesFrom (E.withSecrets secrets job.secrets) job index containers w).1 = .ok ps) :
    HaveConfigs .job (createInstancesFrom (E.withSecrets secrets job.secrets) job index containers w).2 ps
      (containers.map fun container => jobConfig job container (loadedEnvs secrets (job.secrets.getD []))
        ((Builder.job job).dir E)) := by
  induction containers generalizing w index ps with
  | nil =>
    obtain rfl : [] = ps := Except.ok.inj h
    exact .nil
  | cons container containers ih =>
    obtain ⟨u, w₁, hdownload, hok₁, heq₁⟩ := Prog.bind_ok h
    obtain ⟨p, w₂, hp, hok₂, heq₂⟩ := Prog.bind_ok hok₁
    obtain ⟨rest, w₃, hps, hok₃, heq₃⟩ := Prog.bind_ok hok₂
    obtain rfl : p :: rest = ps := Except.ok.inj hok₃
    have hkept : Configured b w w₁ := by
      have hkeeps : Prog.Keeps (Configured b) (download (E.withSecrets secrets job.secrets) (container.image.getD "")
          job.imagePullSecret (job.imagePullPolicy.getD .ifNotPresent)) := steps_configured.downloadImage (fun _ _ _ => trivial) _
      simpa [hdownload] using hkeeps w
    have hrest : Configured b w₂ w₃ := by
      have hkeeps := keeps_createInstancesFrom (E := E.withSecrets secrets job.secrets) (b := b) job (index + 1) containers w₂
      rwa [hps] at hkeeps
    have hone := creates_createJobInstance (E := E) (b := b) secrets job index container
    have hstate : createInstancesFrom (E.withSecrets secrets job.secrets) job index (container :: containers) w =
        (.ok (p :: rest), w₃) := heq₁.trans (heq₂.trans heq₃)
    rw [hstate]
    refine hone.cons (keeps_createJobInstance job index container) (hkept.removals ho) (hb.trans hkept.nextId) ?_ ?_ ?_
    · rw [hp]
    · rwa [hp]
    · rw [hp]
      intro ho hb
      have hrun := ih ho hb (congrArg Prod.fst hps)
      rwa [hps] at hrun

/-- **Containers that were all created** have the configurations of the builder. -/
theorem Builder.run_ok (x : Builder) {ps : List ProcessDb} (ho : OlderRemovals w.docker.nextId w)
    (h : (x.run (E.withSecrets secrets (x.given E)) w).1 = .ok ps) :
    HaveConfigs x.kind (x.run (E.withSecrets secrets (x.given E)) w).2 ps
      (x.configs E (loadedEnvs secrets ((x.given E).getD []))) := by
  cases x with
  | cargo c number =>
    obtain ⟨c', w₁, hinject, hok₁, heq₁⟩ := Prog.bind_ok h
    obtain ⟨u, w₂, hdownload, hok₂, heq₂⟩ := Prog.bind_ok hok₁
    obtain ⟨vars, w₃, hvars, hok₃, heq₃⟩ := Prog.bind_ok hok₂
    obtain ⟨dir, w₄, hdir, hok₄, heq₄⟩ := Prog.bind_ok hok₃
    have hq : Quiet w w₄ := IsTrans.trans _ _ _ (quiet_of_ok (steps_quiet.injectData trivial _) hinject)
      (IsTrans.trans _ _ _ (quiet_of_ok (steps_quiet.downloadImage (fun _ _ _ => trivial) _) hdownload)
        (IsTrans.trans _ _ _ (quiet_of_ok (steps_quiet.loadEnvSecrets (fun _ => trivial) _) hvars)
          (quiet_of_ok (steps_quiet.createTlsSecrets (fun _ => trivial) _ _ _) hdir)))
    obtain rfl : c' = c.inject E.internalGateway := by
      rw [injectData_ok hinject, Env.withSecrets_internalGateway]
    have hvars := loadEnvSecrets_ok (congrArg Prod.fst hvars)
    have hdir := createTlsSecrets_ok (congrArg Prod.fst hdir)
    rw [Env.withSecrets_stateDir] at hdir
    subst hvars hdir
    have hall := creates_joinAll (b := w.docker.nextId) (fun i => creates_createInstance _ _ _ i)
      (fun i => steps_configured.createInstance (fun _ hc => hc.preparing.keeping) _ _ _ i) (hq.grows.removals ho) hq.nextId.ge
      hok₄
    have hstate : (Builder.cargo c number).run (E.withSecrets secrets ((Builder.cargo c number).given E)) w = _ :=
      heq₁.trans (heq₂.trans (heq₃.trans heq₄))
    rw [hstate]
    simp only [instanceConfig_withSecrets] at hall
    exact hall
  | init c initContainer =>
    obtain ⟨p, w₁, hrun, hok, hstate⟩ := Prog.bind_ok h
    obtain rfl : [p] = ps := Except.ok.inj hok
    have hp : createInitContainer (E.withSecrets secrets c.spec.secrets) c initContainer w = (.ok p, w₁) := hrun
    have hone := (creates_createInitContainer (E := E) (b := w.docker.nextId) secrets c initContainer w p ho le_rfl
      (congrArg Prod.fst hp)).2.2
    rw [hp] at hone
    have hstate : (Builder.init c initContainer).run (E.withSecrets secrets ((Builder.init c initContainer).given E)) w =
        (.ok [p], w₁) := hstate
    rw [hstate]
    exact .cons hone .nil
  | job j => exact createInstancesFrom_ok j ho le_rfl h

end Run

/-! ## Delivery -/

/-- the directory is bound where containers look for their secrets -/
def Config.bindsSecrets (config : Config) (dir : String) : Prop :=
  ∃ bind ∈ ((config.hostConfig.getD .default).binds.getD []),
    bind = dir ++ ":/opt/nanocl.io/secrets" ∨ bind = dir ++ "/:/opt/nanocl.io/secrets"

/-- the files after `create_tls_secrets` was called so many times -/
def TlsAfter (dir : String) (secrets : List SecretDb) : ℕ → Fs → Fs → Prop
  | 0, fs, fs' => fs' = fs
  | calls + 1, fs, fs' => ∃ mid, TlsWritten dir secrets fs mid ∧ TlsAfter dir secrets calls mid fs'

/-- the secrets of the object are delivered to its containers: each container has all their variables in its environment, and
it has the directory where all their files are -/
structure Delivered (secrets : Secrets) (x : Builder) (E : Env) (fs : Fs) (w : World) (instances : List ProcessDb) : Prop where
  env : ∀ s, wanted secrets "nanocl.io/env" x.names s → ∀ vars, s.envs = some vars → ∀ v ∈ vars, ∀ p ∈ instances,
    ∃ c, w.docker.containers p.key = some c ∧ v ∈ c.config.env.getD []
  tls : ∀ p ∈ instances, ∃ c, w.docker.containers p.key = some c ∧ c.config.bindsSecrets (x.dir E) ∧
    ∀ s, wanted secrets "nanocl.io/tls" x.names s → ∀ f ∈ tlsFiles (x.dir E) s, fs.file f.1 = some f.2

/-- the secrets that are not read, and the files that cannot be written, are there all the same -/
structure Deliverable (secrets : Secrets) (x : Builder) (E : Env) (fs : Fs) : Prop where
  env : ∀ s, wanted secrets "nanocl.io/env" x.names s → s ∉ loaded secrets "nanocl.io/env" ((x.given E).getD []) →
    ∀ vars, s.envs = some vars → ∀ v ∈ vars,
      ∀ config ∈ x.configs E (loadedEnvs secrets ((x.given E).getD [])), v ∈ config.env.getD []
  tls : x.configs E (loadedEnvs secrets ((x.given E).getD [])) ≠ [] → ∀ s, wanted secrets "nanocl.io/tls" x.names s →
    ∀ f ∈ tlsFiles (x.dir E) s,
      (s ∈ loaded secrets "nanocl.io/tls" ((x.given E).getD []) ∧ f ∈ fs.reached (tlsFiles (x.dir E) s)) ∨
        fs.file f.1 = some f.2

section Delivery

variable {secrets : Secrets} {x : Builder} {fs fs' : Fs}

/-- what is read is in every environment -/
theorem mem_env_of_loaded {s : SecretDb} {names vars : List String} (hs : s ∈ loaded secrets "nanocl.io/env" names)
    (hvars : s.envs = some vars) {v : String} (hv : v ∈ vars) : ∀ config ∈ x.configs E (loadedEnvs secrets names),
    v ∈ config.env.getD [] := by
  have hmem : v ∈ loadedEnvs secrets names := List.mem_flatMap.2 ⟨s, hs, by simpa [hvars] using hv⟩
  intro config hconfig
  cases x with
  | cargo c number =>
    obtain ⟨i, -, rfl⟩ := List.mem_map.1 hconfig
    simp [instanceConfig, createCargoEnv, hmem]
  | init c initContainer =>
    obtain rfl := List.mem_singleton.1 hconfig
    simp [initConfig, createCargoEnv, hmem]
  | job j =>
    obtain ⟨container, -, rfl⟩ := List.mem_map.1 hconfig
    simp [jobConfig, hmem]

/-- the directory is bound in every container -/
theorem bindsSecrets_configs {vars : List String} : ∀ config ∈ x.configs E vars, config.bindsSecrets (x.dir E) := by
  intro config hconfig
  cases x with
  | cargo c number =>
    obtain ⟨i, -, rfl⟩ := List.mem_map.1 hconfig
    exact ⟨(Builder.cargo c number).dir E ++ ":/opt/nanocl.io/secrets", by simp [instanceConfig], .inl rfl⟩
  | init c initContainer =>
    obtain rfl := List.mem_singleton.1 hconfig
    exact ⟨(Builder.init c initContainer).dir E ++ ":/opt/nanocl.io/secrets", by simp [initConfig], .inl rfl⟩
  | job j =>
    obtain ⟨container, -, rfl⟩ := List.mem_map.1 hconfig
    exact ⟨(Builder.job j).dir E ++ "/:/opt/nanocl.io/secrets", by simp [jobConfig], .inr rfl⟩

theorem tlsFiles_of_after {dir : String} {rows : List SecretDb} (hkeys : (rows.map SecretDb.key).Nodup) {calls : ℕ}
    (hcalls : calls ≠ 0) (h : TlsAfter dir rows calls fs fs') : TlsFiles dir rows fs fs' := by
  induction calls generalizing fs with
  | zero => exact absurd rfl hcalls
  | succ calls ih =>
    obtain ⟨mid, hmid, hrest⟩ := h
    have hfirst := tlsFiles_of_written hkeys hmid
    cases calls with
    | zero =>
      obtain rfl : fs' = mid := hrest
      exact hfirst
    | succ calls => exact hfirst.again (ih (Nat.succ_ne_zero calls) hrest)

/-- **A file of a secret** is there if it was reached, or had been there before. -/
theorem file_iff {names : List String} {dir : String} {calls : ℕ} (hcalls : calls ≠ 0)
    (h : TlsAfter dir (loaded secrets "nanocl.io/tls" names) calls fs fs') {s : SecretDb} (hs : s ∈ secrets.rows)
    {f : FileWrite} (hf : f ∈ tlsFiles dir s) : fs'.file f.1 = some f.2 ↔
      (s ∈ loaded secrets "nanocl.io/tls" names ∧ f ∈ fs.reached (tlsFiles dir s)) ∨ fs.file f.1 = some f.2 := by
  have hfiles := tlsFiles_of_after (nodup_loaded secrets _ _) hcalls h
  by_cases hreached : s ∈ loaded secrets "nanocl.io/tls" names ∧ f ∈ fs.reached (tlsFiles dir s)
  · exact iff_of_true (hfiles.written s hreached.1 f hreached.2) (.inl hreached)
  · -- no secret that is read writes the file
    rw [or_iff_right hreached, hfiles.others f.1]
    intro t ht g hg heq
    have hgt : g ∈ tlsFiles dir t := List.takeWhile_subset _ hg
    obtain rfl : t = s := secrets.key_inj (wanted_of_loaded ht).1 hs (key_of_tlsFiles hgt hf heq)
    obtain rfl : g = f := List.inj_on_of_nodup_map (nodup_tlsFiles dir t) hgt hf heq
    exact hreached ⟨ht, hg⟩

/-- the containers of the rows and the configurations -/
theorem HaveConfigs.exists_iff {kind : ProcessKind} {ps : List ProcessDb} {configs : List Config}
    (h : HaveConfigs kind w ps configs) {P : Config → Prop} (hP : ∀ config, P (processConfig kind config) ↔ P config) :
    (∀ p ∈ ps, ∃ c, w.docker.containers p.key = some c ∧ P c.config) ↔ ∀ config ∈ configs, P config := by
  induction h with
  | nil => simp
  | @cons p config ps configs hp _ ih =>
    obtain ⟨c, hc, hconfig⟩ := hp
    rw [List.forall_mem_cons, List.forall_mem_cons, ih]
    refine and_congr_left fun _ => ⟨?_, fun hconf => ⟨c, hc, hconfig ▸ (hP config).2 hconf⟩⟩
    rintro ⟨c', hc', hP'⟩
    obtain rfl := Option.some.inj (hc.symm.trans hc')
    exact (hP config).1 (hconfig ▸ hP')

/-- containers have a directory that was written -/
theorem calls_ne_zero {vars : List String} (h : x.configs E vars ≠ []) : x.calls ≠ 0 := by
  cases x with
  | cargo c number => exact Nat.one_ne_zero
  | init c initContainer => exact Nat.one_ne_zero
  | job j =>
    intro hzero
    have hnil : j.containers = [] := List.length_eq_zero_iff.1 hzero
    exact h (by simp [Builder.configs, hnil])

/-- few secrets, whose files can be written, are delivered -/
theorem deliverable_of_few (hnames : (x.given E).getD [] = x.names)
    (hfew : ∀ kind, (secrets.rows.filter (SecretDb.ofKind kind x.names).clause.sat).length ≤ 100)
    (hwritable : ∀ s, wanted secrets "nanocl.io/tls" x.names s → ∀ f ∈ tlsFiles (x.dir E) s, fs.writable f.1 = true) :
    Deliverable secrets x E fs := by
  have hloaded : ∀ kind s, wanted secrets kind x.names s → s ∈ loaded secrets kind x.names := by
    rintro kind s ⟨hrow, hname, hkind⟩
    refine (Query.run_perm_of_le (SecretDb.ofKind kind x.names) rfl rfl (hfew kind)).mem_iff.2 (List.mem_filter.2 ⟨hrow, ?_⟩)
    simp [SecretDb.ofKind, hname, hkind]
  constructor
  · intro s hs hno
    rw [hnames] at hno
    exact absurd (hloaded _ s hs) hno
  · intro _ s hs f hf
    rw [hnames]
    refine .inl ⟨hloaded _ s hs, ?_⟩
    rwa [Fs.reached, List.takeWhile_eq_self_iff.2 (hwritable s hs)]

end Delivery

/-- **The secrets are delivered exactly if** those that the loaders do not read (each reads the 100 newest), and the files that
cannot be written, are there all the same. -/
theorem delivered_iff (E : Env) (secrets : Secrets) (x : Builder) (fs fs' : Fs) {w : World} {instances : List ProcessDb}
    (ho : OlderRemovals w.docker.nextId w) (hrun : (x.run (E.withSecrets secrets (x.given E)) w).1 = .ok instances)
    (hfs : TlsAfter (x.dir E) (loaded secrets "nanocl.io/tls" ((x.given E).getD [])) x.calls fs fs') :
    Delivered secrets x E fs' (x.run (E.withSecrets secrets (x.given E)) w).2 instances ↔ Deliverable secrets x E fs := by
  have hall := x.run_ok ho hrun
  constructor
  · intro h
    constructor
    · intro s hs _ vars hvars v hv
      exact (hall.exists_iff (P := fun config => v ∈ config.env.getD []) fun _ => Iff.rfl).1 (h.env s hs vars hvars v hv)
    · intro hne s hs f hf
      obtain ⟨config, hconfig⟩ := List.exists_mem_of_ne_nil _ hne
      have hfile := (hall.exists_iff (P := fun config => config.bindsSecrets (x.dir E) ∧
        ∀ s, wanted secrets "nanocl.io/tls" x.names s → ∀ f ∈ tlsFiles (x.dir E) s, fs'.file f.1 = some f.2)
          fun _ => Iff.rfl).1 h.tls config hconfig
      exact (file_iff (calls_ne_zero hne) hfs hs.1 hf).1 (hfile.2 s hs f hf)
  · intro h
    constructor
    · intro s hs vars hvars v hv
      refine (hall.exists_iff (P := fun config => v ∈ config.env.getD []) fun _ => Iff.rfl).2 ?_
      by_cases hloaded : s ∈ loaded secrets "nanocl.io/env" ((x.given E).getD [])
      · exact mem_env_of_loaded hloaded hvars hv
      · exact h.env s hs hloaded vars hvars v hv
    · refine (hall.exists_iff (P := fun config => config.bindsSecrets (x.dir E) ∧
        ∀ s, wanted secrets "nanocl.io/tls" x.names s → ∀ f ∈ tlsFiles (x.dir E) s, fs'.file f.1 = some f.2)
          fun _ => Iff.rfl).2 fun config hconfig => ⟨bindsSecrets_configs config hconfig, fun s hs f hf => ?_⟩
      have hne := List.ne_nil_of_mem hconfig
      exact (file_iff (calls_ne_zero hne) hfs hs.1 hf).2 (h.tls hne s hs f hf)

/-! ## A first certificate -/

/-- a certificate -/
def certSecret : SecretDb :=
  ⟨"cert", 0, "nanocl.io/tls", .obj [("Certificate", .str "CERT"), ("CertificateKey", .str "KEY")]⟩

def certTable : Secrets := ⟨[certSecret], by simp⟩

/-- a cargo that has it -/
def certCargo : Cargo :=
  ⟨"web.global", "global", ⟨"web", none, some ["cert"], none, none, { Config.default with image := some "nginx:latest" }, none⟩⟩

def certWorld : World := ⟨⟨fun _ => none, 0, []⟩, ⟨[], fun _ => none, fun _ => none, fun _ => none, [], fun _ => none, []⟩, [], 0, 0⟩

theorem run_certCargo : ∃ p, ((Builder.cargo certCargo 1).run
    (Env.plain.withSecrets certTable ((Builder.cargo certCargo 1).given Env.plain)) certWorld).1 = .ok [p] := by
  simp only [Env.withSecrets]
  exact ⟨_, rfl⟩

/-- the directory of the certificate is there or not, with nothing in it -/
def certFs (present : Bool) : Fs := ⟨fun path => present && path == "/var/lib/nanocl/secrets/cargo/web.global", fun _ => none⟩

theorem loaded_certTable : loaded certTable "nanocl.io/tls" (((Builder.cargo certCargo 1).given Env.plain).getD []) =
    [certSecret] := rfl

/-- the futures of the certificate, after this schedule -/
def certPool (present : Bool) (schedule : List ℕ) : Pool ℕ Fs Bool :=
  (tlsPool ((Builder.cargo certCargo 1).dir Env.plain) [certSecret] (certFs present)).run schedule

/-- a certificate is delivered to a directory that is there -/
theorem delivered_certificate : ∃ p, Delivered certTable (.cargo certCargo 1) Env.plain (certPool true [0, 0]).state
    ((Builder.cargo certCargo 1).run (Env.plain.withSecrets certTable ((Builder.cargo certCargo 1).given Env.plain))
      certWorld).2 [p] := by
  obtain ⟨p, hp⟩ := run_certCargo
  have hdone : (certPool true [0, 0]).Finished := fun i => by
    cases i with
    | zero => exact ⟨true, rfl⟩
    | succ i => exact ⟨true, rfl⟩
  have hafter : TlsAfter ((Builder.cargo certCargo 1).dir Env.plain) [certSecret] (Builder.cargo certCargo 1).calls
      (certFs true) (certPool true [0, 0]).state := ⟨_, ⟨[0, 0], hdone, rfl⟩, rfl⟩
  have hdeliverable : Deliverable certTable (.cargo certCargo 1) Env.plain (certFs true) := by
    refine deliverable_of_few rfl (fun kind => (List.length_filter_le _ _).trans (by decide)) ?_
    rintro s ⟨hs, -, -⟩ f hf
    obtain rfl : s = certSecret := List.mem_singleton.1 hs
    have hfiles : ∀ f ∈ tlsFiles ((Builder.cargo certCargo 1).dir Env.plain) certSecret, (certFs true).writable f.1 = true := by
      decide
    exact hfiles f hf
  exact ⟨p, (delivered_iff Env.plain certTable (.cargo certCargo 1) (certFs true) _ (by simp [OlderRemovals, certWorld]) hp
    (loaded_certTable ▸ hafter)).2 hdeliverable⟩

/-- the first certificate of a cargo is not delivered: nobody makes its directory -/
theorem missing_directory : ¬ ∀ (E : Env) (secrets : Secrets) (x : Builder) (fs fs' : Fs) (w : World)
    (instances : List ProcessDb), OlderRemovals w.docker.nextId w →
    (x.run (E.withSecrets secrets (x.given E)) w).1 = .ok instances →
    TlsAfter (x.dir E) (loaded secrets "nanocl.io/tls" ((x.given E).getD [])) x.calls fs fs' →
      Delivered secrets x E fs' (x.run (E.withSecrets secrets (x.given E)) w).2 instances := by
  intro h
  obtain ⟨p, hp⟩ := run_certCargo
  have hdone : (certPool false [0]).Finished := fun i => by
    cases i with
    | zero => exact ⟨false, rfl⟩
    | succ i => exact ⟨true, rfl⟩
  have hafter : TlsAfter ((Builder.cargo certCargo 1).dir Env.plain) [certSecret] (Builder.cargo certCargo 1).calls
      (certFs false) (certPool false [0]).state := ⟨_, ⟨[0], hdone, rfl⟩, rfl⟩
  obtain ⟨c, -, -, hfiles⟩ := (h Env.plain certTable (.cargo certCargo 1) (certFs false) _ certWorld [p]
    (by simp [OlderRemovals, certWorld]) hp (loaded_certTable ▸ hafter)).tls p (List.mem_singleton_self p)
  have hfile := hfiles certSecret ⟨List.mem_singleton_self _, by decide, rfl⟩ _ (List.mem_cons_self ..)
  cases hfile

end Nanocl.Runtime
