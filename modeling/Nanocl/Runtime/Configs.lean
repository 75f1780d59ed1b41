/-
The configurations of containers: what a task creates keeps the configuration it was created with.

- `Configured b`: what was created from the id `b` on keeps its configuration.
- `Creates`: a program that creates a container with a configuration; `Creates.cons`, `creates_joinAll`: so do loops of such
  programs, one container a round.
-/
import Nanocl.Runtime.Instances

namespace Nanocl.Runtime

open Nanocl.Lib

variable {E : Env} {w w' : World} {b : ContainerId}

/-! ## Configurations stay -/

/-- where the removals are about older containers, those from the id on keep their configurations -/
structure Configured (b : ContainerId) (w w' : World) : Prop where
  removals : OlderRemovals b w → OlderRemovals b w'
  nextId : w.docker.nextId ≤ w'.docker.nextId
  configs : OlderRemovals b w → ∀ id, b ≤ id → id < w.docker.nextId → ∀ c, w.docker.containers id = some c →
    ∃ c', w'.docker.containers id = some c' ∧ c'.config = c.config

instance : IsPreorder World (Configured b) where
  refl _ := ⟨fun h => h, le_refl _, fun _ _ _ _ c hc => ⟨c, hc, rfl⟩⟩
  trans _ _ _ h h' := by
    refine ⟨fun ho => h'.removals (h.removals ho), h.nextId.trans h'.nextId, fun ho id hid hlt c hc => ?_⟩
    obtain ⟨c', hc', hconfig⟩ := h.configs ho id hid hlt c hc
    obtain ⟨c'', hc'', hconfig'⟩ := h'.configs (h.removals ho) id hid (hlt.trans_le h.nextId) c' hc'
    exact ⟨c'', hc'', hconfig'.trans hconfig⟩

/-- steps that keep the containers or remove older ones -/
theorem Quiet.configured (hq : Quiet w w') (hconfig : ∀ id c', w'.docker.containers id = some c' →
    ∃ c, w.docker.containers id = some c ∧ c'.config = c.config) : Configured b w w' where
  removals := hq.grows.removals
  nextId := hq.nextId.ge
  configs ho id hid _ c hc := by
    obtain ⟨c', hc'⟩ := Option.isSome_iff_exists.1 (hq.grows.containers ho id hid (by simp [hc]))
    obtain ⟨c₀, hc₀, heq⟩ := hconfig id c' hc'
    exact ⟨c', hc', by rw [heq, Option.some.inj (hc₀.symm.trans hc)]⟩

theorem Quiet.configured_of_docker (hq : Quiet w w') (h : w'.docker.containers = w.docker.containers) : Configured b w w' :=
  hq.configured fun _ c hc => ⟨c, h ▸ hc, rfl⟩

/-- no call but a removal changes a configuration -/
theorem onContainer_keeping {c : Call} (hc : c.keeping) {id : ContainerId} {x : Container} {code : ℤ} {x' : Option Container}
    (h : onContainer E c id x = .ok (code, x')) : ∃ y, x' = some y ∧ y.config = x.config := by
  cases c with
  | removeContainer ref force => exact hc.elim
  | waitContainer _ | killContainer _ =>
    simp only [onContainer] at h
    split_ifs at h <;> cases h <;> exact ⟨_, rfl, by simp⟩
  | stopContainer _ =>
    cases h
    exact ⟨_, rfl, by simp⟩
  | _ =>
    cases h
    exact ⟨_, rfl, rfl⟩

theorem configured_suspend : Prog.Keeps (Configured b) (suspend E) := fun w =>
  (quiet_suspend w).configured fun id c hc => ⟨c, fewer_suspend w id c hc, rfl⟩

theorem configured_call {c : Call} (hc : c.keeping) (ref : Ref) (w : World) :
    Configured b w { w with docker := (w.docker.call E c ref).2 } := by
  refine (quiet_call hc.ne_remove ref w).configured fun id y hy => ?_
  rcases Docker.call_cases (E := E) c ref w.docker with hd | ⟨i, x, code, x', hfind, hon, hd⟩
  · exact ⟨y, hd ▸ hy, rfl⟩
  · rw [hd] at hy
    by_cases he : id = i
    · subst he
      rw [Function.update_self] at hy
      obtain ⟨z, hz, hconfig⟩ := onContainer_keeping hc hon
      obtain rfl := Option.some.inj (hz.symm.trans hy)
      exact ⟨x, Docker.containers_of_find hfind, hconfig⟩
    · rw [Function.update_of_ne he] at hy
      exact ⟨y, hy, rfl⟩

theorem configured_added (w : World) (draw : ℕ) (name : String) (config : Config) :
    Configured b w (w.added draw name config) := by
  refine ⟨fun h => h, Nat.le_succ _, fun _ id _ hlt c hc => ⟨c, ?_, rfl⟩⟩
  simpa [World.added, Docker.added, Docker.setContainer, Docker.record, hlt.ne] using hc

theorem configured_createContainer (draw : ℕ) (name : String) (config : Config) :
    Prog.Keeps (Configured b) (orThrow "CreateProcess" (createContainer E draw name config)) := by
  refine Steps.orThrow (Prog.keeps_bind configured_suspend fun _ w => ?_)
  rw [Prog.run_lift]
  unfold Docker.createContainer
  split
  · exact (quiet_record w _ _ _).configured_of_docker rfl
  · exact configured_added w draw name config

theorem configured_inspectContainer (id : ContainerId) :
    Prog.Keeps (Configured b) (orThrow "CreateProcess" (inspectContainer E id)) := by
  refine Steps.orThrow (Prog.keeps_bind configured_suspend fun _ w => ?_)
  rw [Prog.run_lift]
  unfold Docker.inspectContainer
  split <;> exact (quiet_record w _ _ _).configured_of_docker rfl

theorem configured_insertProcess (p : ProcessDb) : Prog.Keeps (Configured b) (insertProcess E p) :=
  Prog.keeps_bind (Prog.keeps_bind configured_suspend fun _ _ => ⟨fun h => h, le_refl _, fun _ _ _ _ c hc => ⟨c, hc, rfl⟩⟩)
    fun _ => Prog.keeps_pure p

theorem steps_configured : Steps E Call.keeping (Configured b) where
  suspend := configured_suspend
  call _ hc ref w := configured_call hc ref w
  inert c _ w := (quiet_inert c w).configured_of_docker (callInert_containers c w.docker).1
  draw w := ((steps_quiet (E := E)).draw w).configured_of_docker rfl
  create _ _ _ _ _ _ := Prog.keeps_bind (configured_createContainer _ _ _) fun _ =>
    Prog.keeps_bind (configured_inspectContainer _) fun _ => configured_insertProcess _
  status w key s := ((steps_quiet (E := E)).status w key s).configured_of_docker rfl
  emit w e := ((steps_quiet (E := E)).emit w e).configured_of_docker rfl

/-! ## Containers with a configuration -/

/-- docker has the container of the row, with this configuration -/
def HasConfig (kind : ProcessKind) (w : World) (p : ProcessDb) (config : Config) : Prop :=
  ∃ c, w.docker.containers p.key = some c ∧ c.config = processConfig kind config

/-- the program creates a container with this configuration, if it returns -/
def Creates (b : ContainerId) (kind : ProcessKind) (config : Config) (m : Io ProcessDb) : Prop :=
  ∀ w p, OlderRemovals b w → b ≤ w.docker.nextId → (m w).1 = .ok p →
    b ≤ p.key ∧ p.key < (m w).2.docker.nextId ∧ HasConfig kind (m w).2 p config

theorem HasConfig.configured {kind : ProcessKind} {p : ProcessDb} {config : Config} (h : HasConfig kind w p config)
    (hc : Configured b w w') (ho : OlderRemovals b w) (hb : b ≤ p.key) (hlt : p.key < w.docker.nextId) :
    HasConfig kind w' p config := by
  obtain ⟨c, hc₀, hconfig⟩ := h
  obtain ⟨c', hc', heq⟩ := hc.configs ho p.key hb hlt c hc₀
  exact ⟨c', hc', heq.trans hconfig⟩

theorem creates_createProcess (kind : ProcessKind) (draw : ℕ) (name kindKey : String) (item : Config) :
    Creates b kind item (createProcess E kind draw name kindKey item) := by
  intro w p ho hb h
  have hdef : createProcess E kind draw name kindKey item = (do
      let id ← orThrow "CreateProcess" (createContainer E draw name (processConfig kind item))
      let container ← orThrow "CreateProcess" (inspectContainer E id)
      insertProcess E ⟨id, name, kind, kindKey, E.hostname, container.created, container.inspect id, rfl⟩) := rfl
  rw [hdef] at h ⊢
  obtain ⟨id, w₁, hcreate, hok, heq⟩ := Prog.bind_ok h
  obtain ⟨c, w₂, hinspect, hok, heq'⟩ := Prog.bind_ok hok
  obtain rfl : p = ⟨id, name, kind, kindKey, E.hostname, c.created, c.inspect id, rfl⟩ := (Except.ok.inj hok).symm
  rw [heq, heq']
  obtain ⟨w₀, hq, ⟨e, herror⟩ | hcreated⟩ := createContainer_cases (E := E) draw name (processConfig kind item) w
  · cases hcreate.symm.trans herror
  · obtain ⟨hid, hw₁⟩ := Prod.mk.inj (hcreate.symm.trans hcreated)
    obtain rfl : id = w.docker.nextId := Except.ok.inj hid
    subst hw₁
    have hnew : HasConfig kind (w₀.added draw name (processConfig kind item))
        ⟨w.docker.nextId, name, kind, kindKey, E.hostname, c.created, c.inspect w.docker.nextId, rfl⟩ item := by
      refine ⟨newContainer w.docker.nextId name (processConfig kind item), ?_, rfl⟩
      rw [← hq.nextId]
      simp [World.added, Docker.added, Docker.setContainer, Docker.record]
    have hrest : Configured b (w₀.added draw name (processConfig kind item)) (insertProcess E
        ⟨w.docker.nextId, name, kind, kindKey, E.hostname, c.created, c.inspect w.docker.nextId, rfl⟩ w₂).2 := by
      refine IsTrans.trans _ w₂ _ ?_ (configured_insertProcess _ w₂)
      simpa [hinspect] using configured_inspectContainer (b := b) (E := E) w.docker.nextId
        (w₀.added draw name (processConfig kind item))
    have hnext : w.docker.nextId < (w₀.added draw name (processConfig kind item)).docker.nextId := by
      change w.docker.nextId < w₀.docker.nextId + 1
      rw [hq.nextId]
      exact Nat.lt_succ_self _
    exact ⟨hb, hnext.trans_le hrest.nextId, hnew.configured hrest (hq.grows.removals ho) hb hnext⟩

/-- steps before a creation -/
theorem Creates.bind {α : Type} {kind : ProcessKind} {config : Config} {m : Io α} {f : α → Io ProcessDb}
    (hm : Prog.Keeps (Configured b) m) (h : ∀ a, (∃ w, (m w).1 = .ok a) → Creates b kind config (f a)) :
    Creates b kind config (m >>= f) := by
  intro w p ho hb hok
  obtain ⟨a, w₁, hrun, hok, heq⟩ := Prog.bind_ok hok
  have hkept : Configured b w w₁ := by simpa [hrun] using hm w
  rw [heq]
  exact h a ⟨w, by rw [hrun]⟩ w₁ p (hkept.removals ho) (hb.trans hkept.nextId) hok

theorem creates_fail {kind : ProcessKind} {config : Config} (e : IoError) : Creates b kind config (Prog.fail e) := by
  intro w p _ _ h
  cases h

/-- the containers of the rows have these configurations, one each -/
def HaveConfigs (kind : ProcessKind) (w : World) : List ProcessDb → List Config → Prop := List.Forall₂ (HasConfig kind w)

/-- one container more, created before the others -/
theorem Creates.cons {kind : ProcessKind} {config : Config} {configs : List Config} {m : Io ProcessDb}
    (hm : Creates b kind config m) (hkeeps : Prog.Keeps (Configured b) m) {p : ProcessDb} {ps : List ProcessDb}
    (ho : OlderRemovals b w) (hb : b ≤ w.docker.nextId) (hp : (m w).1 = .ok p) (hrest : Configured b (m w).2 w')
    (hps : OlderRemovals b (m w).2 → b ≤ (m w).2.docker.nextId → HaveConfigs kind w' ps configs) :
    HaveConfigs kind w' (p :: ps) (config :: configs) := by
  have hkept := hkeeps w
  obtain ⟨hkey, hlt, hconfig⟩ := hm w p ho hb hp
  exact .cons (hconfig.configured hrest (hkept.removals ho) hkey hlt) (hps (hkept.removals ho) (hb.trans hkept.nextId))

theorem creates_joinAll {kind : ProcessKind} {f : ℕ → Io ProcessDb} {config : ℕ → Config}
    (hf : ∀ i, Creates b kind (config i) (f i)) (hkeeps : ∀ i, Prog.Keeps (Configured b) (f i)) {l : List ℕ}
    {ps : List ProcessDb} (ho : OlderRemovals b w) (hb : b ≤ w.docker.nextId) (h : (Prog.joinAll l f w).1 = .ok ps) :
    HaveConfigs kind (Prog.joinAll l f w).2 ps (l.map config) := by
  induction l generalizing w ps with
  | nil =>
    obtain rfl : [] = ps := Except.ok.inj h
    exact .nil
  | cons i l ih =>
    obtain ⟨p, ps, hp, hps, rfl, hstate⟩ := Prog.joinAll_cons_ok h
    rw [hstate]
    exact (hf i).cons (hkeeps i) ho hb hp (Prog.keeps_joinAll (fun j _ => hkeeps j) _) fun ho hb => ih ho hb hps

theorem creates_createInstance (cargo : Cargo) (dir : String) (vars : List String) (current : ℕ) :
    Creates b .cargo (instanceConfig E cargo dir vars current) (createInstance E cargo dir vars current) := by
  refine .bind steps_configured.generateShortId fun a _ => ?_
  dsimp only
  split_ifs
  · exact creates_fail _
  · exact creates_createProcess _ _ _ _ _

/-! ## The instances of a cargo -/

variable {names : Option (List String)}

/-- the directory that `create_tls_secrets` returns -/
theorem createTlsSecrets_ok {key dir : String} {kind : ProcessKind} (h : (createTlsSecrets E key kind names w).1 = .ok dir) :
    dir = E.stateDir ++ "/secrets/" ++ kind.display ++ "/" ++ key := by
  unfold createTlsSecrets at h
  dsimp only at h
  split_ifs at h
  · obtain ⟨_, w₁, -, hok, -⟩ := Prog.bind_ok h
    obtain ⟨-, w₂, -, hok, -⟩ := Prog.bind_ok hok
    exact (Except.ok.inj hok).symm
  · exact (Except.ok.inj h).symm

/-- the variables that `load_env_secrets` returns -/
theorem loadEnvSecrets_vars {vars : List String} (h : (loadEnvSecrets E names w).1 = .ok vars) :
    vars = (names.map E.envSecrets).getD [] := by
  cases names with
  | none => exact (Except.ok.inj h).symm
  | some names =>
    obtain ⟨_, w₁, -, hok, -⟩ := Prog.bind_ok h
    obtain ⟨-, w₂, -, hok, -⟩ := Prog.bind_ok hok
    exact (Except.ok.inj hok).symm

/-- the configuration that docker gets for an instance -/
def Cargo.instanceConfig (E : Env) (cargo : Cargo) (current : ℕ) : Config :=
  let injected := cargo.inject E.internalGateway
  processConfig .cargo (Runtime.instanceConfig E injected
    (E.stateDir ++ "/secrets/" ++ ProcessKind.cargo.display ++ "/" ++ cargo.key)
    ((injected.spec.secrets.map E.envSecrets).getD []) current)

/-- instances that were all created have the configurations of the spec -/
theorem create_configs {cargo : Cargo} {number : ℕ} {ps : List ProcessDb} (ho : OlderRemovals w.docker.nextId w)
    (h : create E cargo number w = (.ok ps, w')) :
    List.Forall₂ (fun (p : ProcessDb) i => ∃ c, w'.docker.containers p.key = some c ∧ c.config = cargo.instanceConfig E i)
      ps (List.range number) := by
  obtain ⟨cargo', w₁, hinject, h₁⟩ := Prog.bind_eq_ok h
  obtain ⟨_, w₂, hdownload, h₂⟩ := Prog.bind_eq_ok h₁
  obtain ⟨vars, w₃, hvars, h₃⟩ := Prog.bind_eq_ok h₂
  obtain ⟨dir, w₄, hdir, hall⟩ := Prog.bind_eq_ok h₃
  have hq : Quiet w w₄ := IsTrans.trans _ _ _ (quiet_of_ok (steps_quiet.injectData trivial _) hinject)
    (IsTrans.trans _ _ _ (quiet_of_ok (steps_quiet.downloadImage (fun _ _ _ => trivial) _) hdownload)
      (IsTrans.trans _ _ _ (quiet_of_ok (steps_quiet.loadEnvSecrets (fun _ => trivial) _) hvars)
        (quiet_of_ok (steps_quiet.createTlsSecrets (fun _ => trivial) _ _ _) hdir)))
  obtain rfl := injectData_ok hinject
  obtain rfl := loadEnvSecrets_vars (congrArg Prod.fst hvars)
  obtain rfl := createTlsSecrets_ok (congrArg Prod.fst hdir)
  have hconfigs := creates_joinAll (b := w.docker.nextId) (fun i => creates_createInstance _ _ _ i)
    (fun i => steps_configured.createInstance (fun _ hc => hc.preparing.keeping) _ _ _ i) (hq.grows.removals ho)
    hq.nextId.ge (congrArg Prod.fst hall)
  rw [hall] at hconfigs
  exact List.forall₂_map_right_iff.1 hconfigs

end Nanocl.Runtime
