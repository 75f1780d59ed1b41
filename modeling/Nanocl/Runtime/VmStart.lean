/-
A VM is never started by its own tasks.

`start_instances` starts the processes whose container has the label of a cargo instance, and `vm::create_instance` does
not give that label to the container of a VM. So a start or an update of a VM returns without a call that starts it, sets
the status to `start` and emits the event.

`VmStore E w` are the stores that the VM operations, docker events, the sync and whatever else the daemon does can lead
to; of everything else it is only assumed that it adds no row and no container of kind `vm` and that docker does not
relabel containers.

Results:
- `Smaller`: what every step but the insertion of a row does, with one rule for all of them (`framed_smaller`).
- `createProcess_row`: `process::create` adds one row, of the container it created.
- `vm_never_started`: in every store, a start or an update of a VM that returns has not started a container of the VM.
-/
import Nanocl.Runtime.Vm
import Nanocl.Runtime.Create

namespace Nanocl.Runtime

open Nanocl.Lib

variable {E : Env}

/-! ## Steps that add no row -/

/-- a container labelled as one of a VM does not have the label of a cargo instance -/
def VmSafe (config : Config) : Prop :=
  (config.labels.getD []).has "io.nanocl.kind" "vm" = true →
    (config.labels.getD []).has ProcessDb.notInitC "true" = false

/-- no row was added, docker has kept the configuration of the containers it still has, and the new ones are safe -/
structure Smaller (w w' : World) : Prop where
  rows : w'.db.processes.Sublist w.db.processes
  nextId : w.docker.nextId ≤ w'.docker.nextId
  config : ∀ id c', id < w.docker.nextId → w'.docker.containers id = some c' →
    ∃ c, w.docker.containers id = some c ∧ c'.config = c.config
  origin : ∀ id c', w'.docker.containers id = some c' →
    (∃ c, w.docker.containers id = some c ∧ c'.config = c.config) ∨ (VmSafe c'.config ∧ id < w'.docker.nextId)

instance : IsPreorder World Smaller where
  refl _ := ⟨List.Sublist.refl _, le_refl _, fun _ c _ h => ⟨c, h, rfl⟩, fun _ c h => Or.inl ⟨c, h, rfl⟩⟩
  trans a b c h h' := by
    refine ⟨h'.rows.trans h.rows, h.nextId.trans h'.nextId, fun id c₃ hid h₃ => ?_, fun id c₃ h₃ => ?_⟩
    · obtain ⟨c₂, h₂, he₂⟩ := h'.config id c₃ (lt_of_lt_of_le hid h.nextId) h₃
      obtain ⟨c₁, h₁, he₁⟩ := h.config id c₂ hid h₂
      exact ⟨c₁, h₁, he₂.trans he₁⟩
    · rcases h'.origin id c₃ h₃ with ⟨c₂, h₂, he₂⟩ | hnew
      · rcases h.origin id c₂ h₂ with ⟨c₁, h₁, he₁⟩ | ⟨hsafe, hid⟩
        · exact Or.inl ⟨c₁, h₁, he₂.trans he₁⟩
        · exact Or.inr ⟨he₂ ▸ hsafe, lt_of_lt_of_le hid h'.nextId⟩
      · exact Or.inr hnew

/-- the containers are the same, up to their state -/
theorem Smaller.of_containers {w w' : World} (hr : w'.db.processes.Sublist w.db.processes)
    (hn : w'.docker.nextId = w.docker.nextId) (hc : ∀ id c', w'.docker.containers id = some c' →
      ∃ c, w.docker.containers id = some c ∧ c'.config = c.config) : Smaller w w' :=
  ⟨hr, by rw [hn], fun id c' _ h => hc id c' h, fun id c' h => Or.inl (hc id c' h)⟩

theorem Smaller.of_docker {w w' : World} (hd : w'.docker = w.docker)
    (hr : w'.db.processes.Sublist w.db.processes) : Smaller w w' :=
  .of_containers hr (by rw [hd]) fun _ c h => ⟨c, by rw [← hd]; exact h, rfl⟩

/-- one container may have gone or changed its state -/
theorem Smaller.of_update {w w' : World} {id : ContainerId} {x : Option Container} (hdb : w'.db.processes = w.db.processes)
    (hn : w'.docker.nextId = w.docker.nextId) (hc : w'.docker.containers = Function.update w.docker.containers id x)
    (hx : ∀ c', x = some c' → ∃ c, w.docker.containers id = some c ∧ c'.config = c.config) : Smaller w w' := by
  refine .of_containers (by rw [hdb]) hn fun id' c' h => ?_
  rw [hc] at h
  by_cases he : id' = id
  · subst he
    rw [Function.update_self] at h
    exact hx c' h
  · rw [Function.update_of_ne he] at h
    exact ⟨c', h, rfl⟩

theorem onContainer_config {c : Call} {id : ContainerId} {x x' : Container} {code : ℤ}
    (h : onContainer E c id x = .ok (code, some x')) : x'.config = x.config := by
  unfold onContainer at h
  split at h
  · cases h; rfl
  · cases h; rfl
  · cases h; exact Container.ended_config _ _
  · split_ifs at h
    · cases h; exact Container.ended_config _ _
    · cases h; rfl
  · cases h; rfl
  · split_ifs at h
    cases h
  · split_ifs at h
    cases h; exact Container.ended_config _ _
  · cases h; rfl

theorem smaller_call (c : Call) (ref : Ref) (w : World) : Smaller w { w with docker := (w.docker.call E c ref).2 } := by
  rcases Docker.call_cases (E := E) c ref w.docker with hc | ⟨id, x, code, x', hfind, hon, hc⟩
  · exact .of_containers (List.Sublist.refl _) (by simp) fun id c' h => ⟨c', by rw [← hc]; exact h, rfl⟩
  · refine .of_update rfl (by simp) hc fun c' hx => ?_
    subst hx
    exact ⟨x, Docker.containers_of_find hfind, onContainer_config hon⟩

theorem smaller_removalStep (w : World) (s : RemovalStep) : Smaller w (w.removalStep s) := by
  cases s with
  | remove id =>
    simp only [World.removalStep]
    split_ifs
    · exact .of_update (x := none) rfl rfl rfl (fun c' hc => by cases hc)
    · exact Std.Refl.refl w
  | refused id => exact .of_docker rfl (List.Sublist.refl _)
  | deleteRow id =>
    simp only [World.removalStep]
    split_ifs
    · exact .of_docker rfl List.filter_sublist
    · exact Std.Refl.refl w

theorem smaller_suspend : Prog.Keeps Smaller (suspend E) :=
  keeps_suspend smaller_removalStep fun _ => .of_docker rfl (List.Sublist.refl _)

/-- the call creates no container -/
def Call.createsNone : Call → Prop
  | .createContainer _ _ => False
  | _ => True

/-- every step but those of `process::create` -/
theorem framed_smaller : Framed E Call.createsNone Smaller where
  suspend := smaller_suspend
  call c _ ref w := smaller_call c ref w
  inert c _ w := by
    obtain ⟨hc, hn⟩ := callInert_containers (E := E) c w.docker
    exact .of_containers (List.Sublist.refl _) (by simp [hn]) fun id c' h => ⟨c', by simpa [hc] using h, rfl⟩
  draw _ := .of_docker rfl (List.Sublist.refl _)
  create h := (h (.createContainer 0 "") trivial).elim
  status _ _ _ := .of_docker rfl (List.Sublist.refl _)
  emit _ _ := .of_docker rfl (List.Sublist.refl _)
  erase _ _ := .of_docker rfl List.filter_sublist
  defer _ _ := .of_docker rfl (List.Sublist.refl _)

theorem startProcess_smaller (p : ProcessDb) : Prog.Keeps Smaller (startProcess E p) :=
  framed_smaller.startProcess trivial

theorem stopProcess_smaller (p : ProcessDb) : Prog.Keeps Smaller (stopProcess E p) :=
  framed_smaller.stopProcess trivial

theorem killProcess_smaller (p : ProcessDb) : Prog.Keeps Smaller (killProcess E p) :=
  framed_smaller.killProcess trivial

theorem restartProcess_smaller (p : ProcessDb) : Prog.Keeps Smaller (restartProcess E p) :=
  framed_smaller.restartProcess trivial

/-! ## The row of a new container -/

/-- docker creates a container with the configuration, or refuses -/
theorem createContainer_spec (draw : ℕ) (name : String) {config : Config} (hsafe : VmSafe config) (w : World) :
    Smaller w (orThrow "CreateProcess" (createContainer E draw name config) w).2 ∧
    ∀ id, (orThrow "CreateProcess" (createContainer E draw name config) w).1 = .ok id →
      w.docker.nextId ≤ id ∧ id < (orThrow "CreateProcess" (createContainer E draw name config) w).2.docker.nextId ∧
      ∃ c, (orThrow "CreateProcess" (createContainer E draw name config) w).2.docker.containers id = some c ∧
        c.config = config := by
  obtain ⟨w₁, hs⟩ : ∃ w₁, suspend E w = (.ok (), w₁) := ⟨_, rfl⟩
  have hsmaller : Smaller w w₁ := by simpa [hs] using smaller_suspend (E := E) w
  have hcall : createContainer E draw name config w =
      (.ok (w₁.docker.createContainer E draw name config).1,
        { w₁ with docker := (w₁.docker.createContainer E draw name config).2 }) := Prog.bind_of_ok hs
  rw [orThrow, Prog.bind_of_ok hcall]
  unfold Docker.createContainer
  cases hf : E.fate (.createContainer draw name) with
  | some e =>
    refine ⟨IsTrans.trans _ _ _ hsmaller (.of_containers (List.Sublist.refl _) rfl fun id c h => ⟨c, h, rfl⟩), ?_⟩
    intro id hid
    cases hid
  | none =>
    refine ⟨IsTrans.trans _ _ _ hsmaller ⟨List.Sublist.refl _, Nat.le_succ _, fun id c hid h => ?_, fun id c h => ?_⟩, ?_⟩
    · have hne : id ≠ w₁.docker.nextId := Nat.ne_of_lt hid
      exact ⟨c, by simpa [Docker.setContainer, Docker.record, hne] using h, rfl⟩
    · by_cases hne : id = w₁.docker.nextId
      · subst hne
        have hc : newContainer w₁.docker.nextId name config = c := by
          simpa [Docker.setContainer, Docker.record, newContainer] using h
        exact Or.inr ⟨by rw [← hc]; exact hsafe, Nat.lt_succ_self _⟩
      · exact Or.inl ⟨c, by simpa [Docker.setContainer, Docker.record, hne] using h, rfl⟩
    · intro id hid
      obtain rfl : w₁.docker.nextId = id := by cases hid; rfl
      exact ⟨hsmaller.nextId, Nat.lt_succ_self _, newContainer w₁.docker.nextId name config,
        by simp [Docker.setContainer, Docker.record, newContainer], rfl⟩

/-- an inspection answers with what docker has -/
theorem inspectContainer_spec (id : ContainerId) (w : World) :
    Smaller w (orThrow "CreateProcess" (inspectContainer E id) w).2 ∧
    ∀ c, (orThrow "CreateProcess" (inspectContainer E id) w).1 = .ok c →
      (orThrow "CreateProcess" (inspectContainer E id) w).2.docker.containers id = some c := by
  obtain ⟨w₁, hs⟩ : ∃ w₁, suspend E w = (.ok (), w₁) := ⟨_, rfl⟩
  have hsmaller : Smaller w w₁ := by simpa [hs] using smaller_suspend (E := E) w
  have hcall : inspectContainer E id w =
      (.ok (w₁.docker.inspectContainer E id).1, { w₁ with docker := (w₁.docker.inspectContainer E id).2 }) :=
    Prog.bind_of_ok hs
  have hsame : ∀ d : Docker, d.containers = w₁.docker.containers → d.nextId = w₁.docker.nextId →
      Smaller w { w₁ with docker := d } := by
    intro d hc hn
    refine IsTrans.trans _ _ _ hsmaller (.of_containers (List.Sublist.refl _) hn fun id c h => ⟨c, ?_, rfl⟩)
    simpa [hc] using h
  rw [orThrow, Prog.bind_of_ok hcall]
  unfold Docker.inspectContainer
  split
  · exact ⟨hsame _ rfl rfl, fun c hc => by cases hc⟩
  · exact ⟨hsame _ rfl rfl, fun c hc => by cases hc⟩
  · rename_i c' _ hc'
    refine ⟨hsame _ rfl rfl, fun c hc => ?_⟩
    obtain rfl : c' = c := by cases hc; rfl
    exact hc'

/-- `process::create` adds the row of the container it created, or none -/
theorem createProcess_row {kind : ProcessKind} {item : Config} (hsafe : VmSafe (processConfig kind item)) (draw : ℕ)
    (name kindKey : String) (w : World) :
    ∃ w₁, Smaller w w₁ ∧
      ((createProcess E kind draw name kindKey item w).2 = w₁ ∨
      ∃ p : ProcessDb, (createProcess E kind draw name kindKey item w).2 =
          { w₁ with db := { w₁.db with processes := w₁.db.processes ++ [p] } } ∧
        p.kind = kind ∧ w.docker.nextId ≤ p.key ∧ p.key < w₁.docker.nextId ∧
        p.data.labels = (processConfig kind item).labels.getD [] ∧
        ∀ c, w₁.docker.containers p.key = some c → c.labels = p.data.labels) := by
  obtain ⟨hs₁, hid⟩ := createContainer_spec (E := E) draw name hsafe w
  have heq : createProcess E kind draw name kindKey item = (do
      let id ← orThrow "CreateProcess" (createContainer E draw name (processConfig kind item))
      let container ← orThrow "CreateProcess" (inspectContainer E id)
      insertProcess E ⟨id, name, kind, kindKey, E.hostname, container.created, container.inspect id, rfl⟩) := rfl
  rw [heq]
  rcases hr₁ : orThrow "CreateProcess" (createContainer E draw name (processConfig kind item)) w with ⟨e | id, w₁⟩
  · rw [hr₁] at hs₁
    rw [Prog.bind_of_error hr₁]
    exact ⟨w₁, hs₁, Or.inl rfl⟩
  · rw [hr₁] at hs₁ hid
    obtain ⟨hge, hlt, c₁, hc₁, hcfg₁⟩ := hid id rfl
    rw [Prog.bind_of_ok hr₁]
    obtain ⟨hs₂, hins⟩ := inspectContainer_spec (E := E) id w₁
    rcases hr₂ : orThrow "CreateProcess" (inspectContainer E id) w₁ with ⟨e | c, w₂⟩
    · rw [hr₂] at hs₂
      rw [Prog.bind_of_error hr₂]
      exact ⟨w₂, IsTrans.trans _ _ _ hs₁ hs₂, Or.inl rfl⟩
    · rw [hr₂] at hs₂ hins
      rw [Prog.bind_of_ok hr₂]
      -- what was inspected is the container that was created
      obtain ⟨c₁', hc₁', hcfg⟩ := hs₂.config id c hlt (hins c rfl)
      simp only at hc₁ hc₁'
      rw [hc₁] at hc₁'
      obtain rfl := Option.some.inj hc₁'
      have hlabels : c.labels = (processConfig kind item).labels.getD [] := by
        rw [Container.labels, hcfg, hcfg₁]
      have hs₃ := smaller_suspend (E := E) w₂
      refine ⟨(suspend E w₂).2, IsTrans.trans _ _ _ hs₁ (IsTrans.trans _ _ _ hs₂ hs₃), Or.inr
        ⟨⟨id, name, kind, kindKey, E.hostname, c.created, c.inspect id, rfl⟩, rfl, rfl, hge,
          lt_of_lt_of_le hlt (hs₂.nextId.trans hs₃.nextId), hlabels, fun c₃ hc₃ => ?_⟩⟩
      obtain ⟨c₂, hc₂, hcfg₃⟩ := hs₃.config id c₃ (lt_of_lt_of_le hlt hs₂.nextId) hc₃
      have hcc : some c = some c₂ := (hins c rfl).symm.trans hc₂
      rw [Container.labels, hcfg₃, ← Option.some.inj hcc]
      rfl

/-! ## Stores -/

/-- what holds of VMs in every store of the daemon -/
structure VmInv (w : World) : Prop where
  /-- the container id is the primary key of the rows -/
  nodup : (w.db.processes.map ProcessDb.key).Nodup
  /-- docker never gives out an id twice -/
  bound : ∀ p ∈ w.db.processes, p.key < w.docker.nextId
  /-- the row of a VM does not show the label of a cargo instance -/
  row : ∀ p ∈ w.db.processes, p.kind = .vm → p.hasLabel ProcessDb.notInitC = false
  /-- nor does its container have it -/
  container : ∀ p ∈ w.db.processes, p.kind = .vm → ∀ c, w.docker.containers p.key = some c →
    c.labels.has ProcessDb.notInitC "true" = false
  docker : ∀ id c, w.docker.containers id = some c → VmSafe c.config ∧ id < w.docker.nextId

theorem VmInv.smaller {w w' : World} (h : VmInv w) (hs : Smaller w w') : VmInv w' where
  nodup := (hs.rows.map _).nodup h.nodup
  bound p hp := lt_of_lt_of_le (h.bound p (hs.rows.subset hp)) hs.nextId
  row p hp hk := h.row p (hs.rows.subset hp) hk
  container p hp hk c' hc' := by
    have hp' := hs.rows.subset hp
    obtain ⟨c, hc, he⟩ := hs.config p.key c' (h.bound p hp') hc'
    rw [Container.labels, he]
    exact h.container p hp' hk c hc
  docker id c' hc' := by
    rcases hs.origin id c' hc' with ⟨c, hc, he⟩ | hnew
    · obtain ⟨hsafe, hid⟩ := h.docker id c hc
      exact ⟨he ▸ hsafe, lt_of_lt_of_le hid hs.nextId⟩
    · exact hnew

/-- the labels of the container of a VM -/
theorem vmConfig_notInitC (vm : Vm) (image : VmImage) (disableKeygen : Bool) :
    ((processConfig .vm (vmConfig E vm image disableKeygen)).labels.getD []).has ProcessDb.notInitC "true" = false := by
  change (Labels.insert (Labels.insert (vmLabels vm) "io.nanocl" "enabled") "io.nanocl.kind" "vm").has
    ProcessDb.notInitC "true" = false
  rw [Labels.has_insert_ne _ (by decide), Labels.has_insert_ne _ (by decide), vmLabels,
    Labels.has_insert_ne _ (by decide), Labels.has_insert_ne _ (by decide)]
  rfl

/-- a new row whose container, if it is of a VM, has no label of a cargo instance -/
theorem VmInv.append {w : World} (h : VmInv w) {p : ProcessDb} (hfresh : ∀ q ∈ w.db.processes, q.key ≠ p.key)
    (hlt : p.key < w.docker.nextId) (hrow : p.kind = .vm → p.hasLabel ProcessDb.notInitC = false)
    (hc : p.kind = .vm → ∀ c, w.docker.containers p.key = some c → c.labels.has ProcessDb.notInitC "true" = false) :
    VmInv { w with db := { w.db with processes := w.db.processes ++ [p] } } := by
  refine ⟨?_, ?_, ?_, ?_, h.docker⟩
  · rw [List.map_append, List.nodup_append]
    refine ⟨h.nodup, by simp, fun k hk k' hk' => ?_⟩
    obtain ⟨q, hq, rfl⟩ := List.mem_map.1 hk
    obtain rfl : k' = p.key := by simpa using hk'
    exact hfresh q hq
  · intro q hq
    rcases List.mem_append.1 hq with hq | hq
    · exact h.bound q hq
    · obtain rfl := List.mem_singleton.1 hq
      exact hlt
  · intro q hq hk
    rcases List.mem_append.1 hq with hq | hq
    · exact h.row q hq hk
    · obtain rfl := List.mem_singleton.1 hq
      exact hrow hk
  · intro q hq hk
    rcases List.mem_append.1 hq with hq | hq
    · exact h.container q hq hk
    · obtain rfl := List.mem_singleton.1 hq
      exact hc hk

theorem createVmInstance_inv (vm : Vm) (image : VmImage) (disableKeygen : Bool) {w : World} (h : VmInv w) :
    VmInv (createVmInstance E vm image disableKeygen w).2 := by
  have hdownload : Smaller w (download E (vm.hostConfig.runtime.getD vmRuntime) none .ifNotPresent w).2 :=
    (framed_smaller (E := E)).downloadImage (fun _ _ _ => trivial) .ifNotPresent w
  unfold createVmInstance
  rcases hr : download E (vm.hostConfig.runtime.getD vmRuntime) none .ifNotPresent w with ⟨e | u, w₀⟩
  · rw [hr] at hdownload
    rw [Prog.bind_of_error hr]
    exact h.smaller hdownload
  · rw [hr] at hdownload
    rw [Prog.bind_of_ok hr]
    have h₀ : VmInv w₀ := h.smaller hdownload
    have hsafe : VmSafe (processConfig .vm (vmConfig E vm image disableKeygen)) := fun _ =>
      vmConfig_notInitC vm image disableKeygen
    obtain ⟨w₁, hs, hsame | ⟨p, hp, hkind, hge, hlt, hlabels, hc⟩⟩ := createProcess_row (E := E) hsafe 0 (vm.key ++ ".v")
      vm.key w₀
    · rw [hsame]
      exact h₀.smaller hs
    · rw [hp]
      have h₁ : VmInv w₁ := h₀.smaller hs
      have hrow : p.data.labels.has ProcessDb.notInitC "true" = false := by
        rw [hlabels]
        exact vmConfig_notInitC vm image disableKeygen
      -- the key is new: no row had an id that docker had not given out
      refine h₁.append (fun q hq he => ?_) hlt (fun _ => hrow) fun _ c hqc => by rw [hc c hqc]; exact hrow
      exact absurd (he ▸ h₀.bound q (hs.rows.subset hq)) (Nat.not_lt.2 hge)

/-- the row of a container is written anew from its inspection, as the handler of docker events does -/
def World.refresh (w : World) (id : ContainerId) : World :=
  match w.docker.containers id with
  | none => w
  | some c =>
    { w with db := { w.db with processes := w.db.processes.map fun p =>
      if p.key = id then ⟨p.key, c.name, p.kind, p.kindKey, p.nodeName, p.createdAt, c.inspect p.key, c.inspect_key p⟩
      else p } }

theorem refresh_inv {w : World} (id : ContainerId) (h : VmInv w) : VmInv (w.refresh id) := by
  unfold World.refresh
  cases hc : w.docker.containers id with
  | none => exact h
  | some c =>
    have back : ∀ q ∈ w.db.processes.map (fun p => if p.key = id then
        (⟨p.key, c.name, p.kind, p.kindKey, p.nodeName, p.createdAt, c.inspect p.key, rfl⟩ : ProcessDb) else p),
        ∃ p ∈ w.db.processes, q.key = p.key ∧ q.kind = p.kind ∧
          (q.data.labels = p.data.labels ∨ (p.key = id ∧ q.data.labels = c.labels)) := by
      intro q hq
      obtain ⟨p, hp, rfl⟩ := List.mem_map.1 hq
      by_cases he : p.key = id
      · exact ⟨p, hp, by simp [he], by simp [he], Or.inr ⟨he, by simp [he, Container.inspect]⟩⟩
      · exact ⟨p, hp, by simp [he], by simp [he], Or.inl (by simp [he])⟩
    refine ⟨?_, fun q hq => ?_, fun q hq hk => ?_, fun q hq hk => ?_, h.docker⟩
    · have hkeys : (w.db.processes.map (fun p => if p.key = id then
          (⟨p.key, c.name, p.kind, p.kindKey, p.nodeName, p.createdAt, c.inspect p.key, rfl⟩ : ProcessDb) else p)).map
          ProcessDb.key = w.db.processes.map ProcessDb.key := by
        rw [List.map_map]
        refine List.map_congr_left fun p _ => ?_
        by_cases he : p.key = id <;> simp [he]
      rw [hkeys]
      exact h.nodup
    · obtain ⟨p, hp, hkey, -, -⟩ := back q hq
      rw [hkey]
      exact h.bound p hp
    · obtain ⟨p, hp, -, hkind, hl | ⟨hid, hl⟩⟩ := back q hq
      · rw [ProcessDb.hasLabel, hl]
        exact h.row p hp (hkind ▸ hk)
      · rw [ProcessDb.hasLabel, hl]
        exact h.container p hp (hkind ▸ hk) c (hid ▸ hc)
    · obtain ⟨p, hp, hkey, hkind, -⟩ := back q hq
      rw [hkey]
      exact h.container p hp (hkind ▸ hk)

/-- a container of kind `vm` that has no row gets one, as the sync at the start of the daemon does -/
def World.syncVm (E : Env) (w : World) (id : ContainerId) (key : String) : World :=
  match w.docker.containers id with
  | none => w
  | some c =>
    if c.labels.has "io.nanocl.kind" "vm" ∧ ∀ p ∈ w.db.processes, p.key ≠ id then
      { w with db := { w.db with processes := w.db.processes ++
        [⟨id, c.name, .vm, key, E.hostname, c.created, c.inspect id, c.inspect_id id⟩] } }
    else w

theorem syncVm_inv {w : World} (id : ContainerId) (key : String) (h : VmInv w) : VmInv (w.syncVm E id key) := by
  unfold World.syncVm
  cases hc : w.docker.containers id with
  | none => exact h
  | some c =>
    obtain ⟨hsafe, hid⟩ := h.docker id c hc
    dsimp only
    split_ifs with hnew
    · refine h.append hnew.2 hid (fun _ => hsafe hnew.1) fun _ c' hc' => ?_
      obtain rfl : c = c' := Option.some.inj (hc.symm.trans hc')
      exact hsafe hnew.1
    · exact h

/-- what anything else the daemon does leaves of the VMs: no row and no container of kind `vm` is added, the ids of
containers are unique, and docker does not relabel them -/
structure Foreign (w w' : World) : Prop where
  nextId : w.docker.nextId ≤ w'.docker.nextId
  config : ∀ id c', id < w.docker.nextId → w'.docker.containers id = some c' →
    ∃ c, w.docker.containers id = some c ∧ c'.config = c.config
  nodup : (w'.db.processes.map ProcessDb.key).Nodup
  bound : ∀ p ∈ w'.db.processes, p.key < w'.docker.nextId
  vm : ∀ p ∈ w'.db.processes, p.kind = .vm → p ∈ w.db.processes
  docker : ∀ id c', w'.docker.containers id = some c' → id < w'.docker.nextId ∧
    (c'.labels.has "io.nanocl.kind" "vm" → ∃ c, w.docker.containers id = some c ∧ c'.config = c.config)

theorem VmInv.foreign {w w' : World} (h : VmInv w) (hf : Foreign w w') : VmInv w' where
  nodup := hf.nodup
  bound := hf.bound
  row p hp hk := h.row p (hf.vm p hp hk) hk
  container p hp hk c' hc' := by
    have hp' := hf.vm p hp hk
    obtain ⟨c, hc, he⟩ := hf.config p.key c' (h.bound p hp') hc'
    rw [Container.labels, he]
    exact h.container p hp' hk c hc
  docker id c' hc' := by
    obtain ⟨hid, hold⟩ := hf.docker id c' hc'
    refine ⟨fun hkind => ?_, hid⟩
    obtain ⟨c, hc, he⟩ := hold hkind
    exact (he ▸ (h.docker id c hc).1) hkind

/-- the daemon before its first request -/
def emptyWorld : World where
  docker := ⟨fun _ => none, 0, []⟩
  db := ⟨[], fun _ => none, fun _ => none, fun _ => none, [], fun _ => none, []⟩
  removals := []
  draws := 0
  ticks := 0

/-- the stores that the operations on VMs, docker events and everything else lead to -/
inductive VmStore (E : Env) : World → Prop
  | empty : VmStore E emptyWorld
  | start {w : World} (key : String) : VmStore E w → VmStore E (startVm E key w).2
  | update {w : World} (key : String) : VmStore E w → VmStore E (updateVm E key w).2
  | delete {w : World} (key : String) : VmStore E w → VmStore E (deleteVm E key w).2
  | stop {w : World} (key : String) : VmStore E w → VmStore E (stopInstances E key .vm w).2
  | restart {w : World} (key : String) : VmStore E w → VmStore E (restartInstances E key .vm w).2
  | kill {w : World} (key : String) : VmStore E w → VmStore E (killByKindKey E key w).2
  | refresh {w : World} (id : ContainerId) : VmStore E w → VmStore E (w.refresh id)
  | sync {w : World} (id : ContainerId) (key : String) : VmStore E w → VmStore E (w.syncVm E id key)
  | foreign {w w' : World} : VmStore E w → Foreign w w' → VmStore E w'

/-! ## Calls that start a container -/

/-- the call starts a container -/
def Call.starts : Call → Prop
  | .startContainer _ => True
  | _ => False

/-- a task keeps the invariant, and starts only containers whose row, when it was read, had the label of a cargo
instance -/
structure StartsLabelled (E : Env) (m : Io Unit) : Prop where
  inv : ∀ w, VmInv w → VmInv (m w).2
  logs : Prog.Keeps (Logs E fun _ => True) m
  starts : ∀ w ref, VmInv w → Issued w (m w).2 (.startContainer ref) →
    ∃ w₁, VmInv w₁ ∧ Smaller w₁ (m w).2 ∧ ∃ p ∈ w₁.db.processes, p.hasLabel ProcessDb.notInitC = true ∧ ref = .id p.key

/-- a part that keeps the invariant and starts nothing comes first -/
theorem StartsLabelled.bind {α : Type} {m : Io α} {f : α → Io Unit} (hinv : ∀ w, VmInv w → VmInv (m w).2)
    (hlogs : Prog.Keeps (Logs E fun c => ¬ c.starts) m) (hf : ∀ a, StartsLabelled E (f a)) :
    StartsLabelled E (m >>= f) := by
  refine ⟨fun w hw => ?_, ?_, fun w ref hw hi => ?_⟩
  · rcases hm : m w with ⟨e | a, w₁⟩
    · rw [Prog.bind_of_error hm]
      simpa [hm] using hinv w hw
    · rw [Prog.bind_of_ok hm]
      exact (hf a).inv w₁ (by simpa [hm] using hinv w hw)
  · exact Prog.keeps_bind (fun w => (hlogs w).weaken fun _ _ => trivial) fun a => (hf a).logs
  · have hl := hlogs w
    rcases hm : m w with ⟨e | a, w₁⟩
    · rw [hm] at hl
      rw [Prog.bind_of_error hm] at hi
      exact absurd trivial (hi.of_logs hl)
    · rw [hm] at hl
      rw [Prog.bind_of_ok hm] at hi ⊢
      -- the call is one of the second part
      obtain ⟨l₁, hl₁, hno⟩ := hl
      obtain ⟨l₂, hl₂, -⟩ := (hf a).logs w₁
      obtain ⟨l, hl, e, he, hc⟩ := hi
      rw [hl₂, hl₁, List.append_assoc, List.append_cancel_left_eq] at hl
      subst hl
      rcases List.mem_append.1 he with he | he
      · have := (hno e he).1
        rw [hc] at this
        exact absurd trivial this
      · exact (hf a).starts w₁ ref (by simpa [hm] using hinv w hw) ⟨l₂, hl₂, e, he, hc⟩

/-- a read of the rows with a label, with the removals that run before it -/
theorem readByKindKey_label_run (kindKey label : String) (w : World) :
    readByKindKey E kindKey (some (ProcessDb.labelFilter label)) w =
      (.ok ((suspend E w).2.db.labelled kindKey label), (suspend E w).2) := by
  have hs : suspend E w = (.ok (), (suspend E w).2) := rfl
  rw [readByKindKey, readDb, Prog.bind_of_ok hs, Prog.get_bind, ProcessDb.readByKindKey_label]
  rfl

/-- `start_instances` starts the rows it read -/
theorem startInstances_startsLabelled (key : String) (kind : ProcessKind) :
    StartsLabelled E (startInstances E key kind) := by
  have hsmaller : Prog.Keeps Smaller (startInstances E key kind) :=
    framed_smaller.startInstances fun _ => trivial
  refine ⟨fun w hw => hw.smaller (hsmaller w), framed_logs.startInstances fun _ => trivial, fun w ref hw hi => ?_⟩
  have hrun : startInstances E key kind w = (do
      Prog.forEach ((suspend E w).2.db.labelled key ProcessDb.notInitC) (startProcess E)
      updateActualStatus E key .start
      emit E key kind .start) (suspend E w).2 := by
    rw [startInstances, Prog.bind_of_ok (readByKindKey_label_run key ProcessDb.notInitC w)]
  let rest : Io Unit := do
    Prog.forEach ((suspend E w).2.db.labelled key ProcessDb.notInitC) (startProcess E)
    updateActualStatus E key .start
    emit E key kind .start
  let S : Call → Prop := fun c => c.starts →
    ∃ p ∈ (suspend E w).2.db.labelled key ProcessDb.notInitC, c = .startContainer (.id p.key)
  have hlogs : Prog.Keeps (Logs E S) rest := by
    refine Prog.keeps_bind (Prog.keeps_forEach fun p hp => framed_logs.startProcess fun _ => ⟨p, hp, by rw [dataId_eq]⟩)
      fun _ => Prog.keeps_bind (framed_logs.updateActualStatus _ _) fun _ => framed_logs.emitAction _ _ _
  have hrest : Prog.Keeps Smaller rest := by
    refine Prog.keeps_bind (Prog.keeps_forEach fun p _ => startProcess_smaller p)
      fun _ => Prog.keeps_bind (framed_smaller.updateActualStatus _ _) fun _ => framed_smaller.emitAction _ _ _
  rw [hrun] at hi ⊢
  have hall : Logs E S w (rest (suspend E w).2).2 := IsTrans.trans _ _ _ (logs_suspend w) (hlogs _)
  obtain ⟨p, hp, hc⟩ := hi.of_logs hall trivial
  have hmem := List.mem_filter.1 (ProcessDb.mem_of_mem_newest100 hp)
  refine ⟨(suspend E w).2, hw.smaller (smaller_suspend w), hrest _, p, hmem.1, ?_, by cases hc; rfl⟩
  simpa using (Bool.and_eq_true_iff.1 hmem.2).1

theorem read_inv {α : Type} (f : Database → Except IoError α) (w : World) (h : VmInv w) : VmInv (readDb E f w).2 :=
  h.smaller (framed_smaller.readDb f w)

theorem createVmInstance_logs (vm : Vm) (image : VmImage) (disableKeygen : Bool) :
    Prog.Keeps (Logs E fun c => ¬ c.starts) (createVmInstance E vm image disableKeygen) :=
  Prog.keeps_bind (framed_logs.downloadImage (fun _ _ _ h => h) _) fun _ =>
    logs_createProcess (fun c hc hs => by cases c <;> first | exact hs | exact hc) _ _ _ _ _

theorem startVm_startsLabelled (key : String) : StartsLabelled E (startVm E key) := by
  refine .bind (read_inv _) (framed_logs.readDb _) fun vm => .bind (read_inv _) (framed_logs.readDb _) fun image =>
    .bind (read_inv _) (framed_logs.readDb _) fun processes => ?_
  dsimp only
  split_ifs
  · exact .bind (fun w hw => createVmInstance_inv vm image true hw) (createVmInstance_logs vm image true) fun _ =>
      startInstances_startsLabelled _ _
  · exact startInstances_startsLabelled _ _

theorem updateVm_startsLabelled (key : String) : StartsLabelled E (updateVm E key) := by
  refine .bind (read_inv _) (framed_logs.readDb _) fun vm => .bind (read_inv _) (framed_logs.readDb _) fun image =>
    .bind (fun w hw => ?_) ?_ fun _ => .bind (fun w hw => createVmInstance_inv vm image false hw)
      (createVmInstance_logs vm image false) fun _ => startInstances_startsLabelled _ _
  · exact hw.smaller (framed_smaller.deleteInstances (fun _ _ => trivial) w)
  · exact framed_logs.deleteInstances fun _ _ h => h

theorem deleteVmImage_smaller (pk : String) : Prog.Keeps Smaller (deleteVmImage E pk) := by
  refine Prog.keeps_bind (framed_smaller.readDb _) fun _ => Prog.keeps_bind (framed_smaller.readDb _) fun _ => ?_
  split_ifs
  · exact Prog.keeps_fail _
  · exact framed_smaller.modifyDb fun _ => .of_docker rfl (List.Sublist.refl _)

theorem deleteVm_smaller (key : String) : Prog.Keeps Smaller (deleteVm E key) :=
  Prog.keeps_bind (framed_smaller.readDb _) fun _ => Prog.keeps_bind (framed_smaller.readDb _) fun _ =>
    Prog.keeps_bind (framed_smaller.deleteInstances fun _ _ => trivial) fun _ =>
      Prog.keeps_bind (deleteVmImage_smaller _) fun _ =>
        Prog.keeps_bind (framed_smaller.modifyDb fun _ => .of_docker rfl (List.Sublist.refl _)) fun _ =>
          framed_smaller.emitNormal _ _ _

theorem stopInstances_smaller (key : String) (kind : ProcessKind) : Prog.Keeps Smaller (stopInstances E key kind) :=
  Prog.keeps_bind (framed_smaller.readByKindKey _ _) fun _ =>
    Prog.keeps_bind (Prog.keeps_forEach fun p _ => stopProcess_smaller p) fun _ =>
      Prog.keeps_bind (framed_smaller.updateActualStatus _ _) fun _ => framed_smaller.emitAction _ _ _

theorem restartInstances_smaller (key : String) (kind : ProcessKind) :
    Prog.Keeps Smaller (restartInstances E key kind) :=
  Prog.keeps_bind (framed_smaller.readByKindKey _ _) fun _ =>
    Prog.keeps_bind (Prog.keeps_forEach fun p _ => restartProcess_smaller p) fun _ => framed_smaller.emitAction _ _ _

theorem killByKindKey_smaller (key : String) : Prog.Keeps Smaller (killByKindKey E key) :=
  Prog.keeps_bind (framed_smaller.readByKindKey _ _) fun _ => Prog.keeps_forEach fun p _ => killProcess_smaller p

/-- the invariant holds in every store -/
theorem VmStore.inv {w : World} (h : VmStore E w) : VmInv w := by
  induction h with
  | empty => constructor <;> simp [emptyWorld]
  | start key _ ih => exact (startVm_startsLabelled key).inv _ ih
  | update key _ ih => exact (updateVm_startsLabelled key).inv _ ih
  | delete key _ ih => exact ih.smaller (deleteVm_smaller key _)
  | stop key _ ih => exact ih.smaller (stopInstances_smaller key .vm _)
  | restart key _ ih => exact ih.smaller (restartInstances_smaller key .vm _)
  | kill key _ ih => exact ih.smaller (killByKindKey_smaller key _)
  | refresh id _ ih => exact refresh_inv id ih
  | sync id key _ ih => exact syncVm_inv id key ih
  | foreign _ hf ih => exact ih.foreign hf

/-! ## Main result -/

inductive VmCall where
  | start | update
deriving DecidableEq

def VmCall.run (E : Env) (key : String) : VmCall → Io Unit
  | .start => startVm E key
  | .update => updateVm E key

/-- between the two worlds a container of the VM was passed to `start_container`, by its id or by its name -/
def VmStarted (key : String) (w w' : World) : Prop :=
  ∃ p ∈ w'.db.processes, p.kind = .vm ∧ p.kindKey = key ∧
    (Issued w w' (.startContainer (.id p.key)) ∨ Issued w w' (.startContainer (.name p.name)))

/-- a task that starts labelled rows only starts no VM -/
theorem StartsLabelled.not_vmStarted {m : Io Unit} (hm : StartsLabelled E m) (key : String) {w : World} (hw : VmInv w) :
    ¬ VmStarted key w (m w).2 := by
  rintro ⟨p, hp, hkind, -, hi⟩
  obtain ⟨ref, href, hi⟩ : ∃ ref, (ref = .id p.key ∨ ref = .name p.name) ∧ Issued w (m w).2 (.startContainer ref) :=
    hi.elim (fun h => ⟨_, Or.inl rfl, h⟩) (fun h => ⟨_, Or.inr rfl, h⟩)
  obtain ⟨w₁, hw₁, hs, q, hq, hlabel, rfl⟩ := hm.starts w ref hw hi
  have hkey : q.key = p.key := by
    rcases href with h | h
    · exact Ref.id.inj h
    · cases h
  obtain rfl := List.inj_on_of_nodup_map hw₁.nodup hq (hs.rows.subset hp) hkey
  rw [hw₁.row q hq hkind] at hlabel
  cases hlabel

theorem VmCall.startsLabelled (call : VmCall) (key : String) : StartsLabelled E (call.run E key) := by
  cases call with
  | start => exact startVm_startsLabelled key
  | update => exact updateVm_startsLabelled key

/-- **A VM is never started.** In every store, whatever fails and whatever removals run in between, neither the start nor
the update of a VM passes a container of the VM to docker's `start_container`. -/
theorem vm_never_started (E : Env) (call : VmCall) (key : String) (w : World) (hw : VmStore E w) :
    ¬ VmStarted key w (call.run E key w).2 :=
  (call.startsLabelled key).not_vmStarted key hw.inv

/-- the VM `dev.global` and its image, before its first start -/
def devWorld : World where
  docker := ⟨fun _ => none, 0, []⟩
  db :=
    { processes := []
      cargoes := fun _ => none
      jobs := fun _ => none
      vms := fun key => if key = "dev.global" then
        some ⟨"dev.global", "global", "ubuntu.dev.global", none, some "dev", none, none, .default⟩ else none
      vmImages := [⟨"ubuntu.dev.global", some "ubuntu", "/var/lib/nanocl/vms/images/ubuntu.dev.global.img"⟩]
      statuses := fun key => if key = "dev.global" then some ⟨.start, .create, .starting, .create⟩ else none
      events := [] }
  removals := []
  draws := 0
  ticks := 0

theorem devWorld_store (E : Env) : VmStore E devWorld :=
  .foreign .empty ⟨le_refl _, fun id c' hid _ => absurd hid (Nat.not_lt_zero id), List.nodup_nil, by simp [devWorld],
    by simp [devWorld], by simp [devWorld]⟩

/-- the first start of `dev.global` returns: the status is `start`, the event is emitted, and the container docker created
for it does not run -/
theorem devWorld_start :
    (startVm .plain "dev.global" devWorld).1 = .ok () ∧
    (startVm .plain "dev.global" devWorld).2.db.statuses "dev.global" = some ⟨.start, .create, .start, .starting⟩ ∧
    (startVm .plain "dev.global" devWorld).2.db.events = [⟨.normal, .start, .vm, "dev.global"⟩] ∧
    ((startVm .plain "dev.global" devWorld).2.docker.containers 0).map (fun c => (c.name, c.running)) =
      some ("dev.global.v", false) := by
  decide +kernel

theorem vm_never_started_dev : ¬ VmStarted "dev.global" devWorld (VmCall.start.run .plain "dev.global" devWorld).2 :=
  vm_never_started .plain .start "dev.global" devWorld (devWorld_store .plain)

/-- **A start that starts nothing.** The start of `dev.global` returns, and its container was not passed to docker. -/
theorem vm_start_idle :
    ¬ ∀ (E : Env) (call : VmCall) (key : String) (w : World), VmStore E w → (call.run E key w).1 = .ok () →
      VmStarted key w (call.run E key w).2 := by
  intro h
  have hstarted := h .plain .start "dev.global" devWorld (devWorld_store .plain) devWorld_start.1
  exact (VmCall.start.startsLabelled "dev.global").not_vmStarted "dev.global" (devWorld_store .plain).inv hstarted

end Nanocl.Runtime
