/-
Creating the instances of a cargo while spawned removals of older instances go on.

- `Quiet`: what a step that creates and removes nothing leaves, whatever the removals do in between.
- `createProcess_cases`: `process::create` adds one container and its row, or fails before.
- `Consistent`: what every task keeps of the ids and of the times of creation.
- `Grows b`: the containers and the rows from the id `b` on stay, if the removals are about older ones.
- `createInstances_ok`: instances that were all created have consecutive ids, their containers and their rows.
-/
import Nanocl.Runtime.Create

namespace Nanocl.Runtime

open Nanocl.Lib

variable {E : Env} {w w' : World}

/-! ## Steps that create nothing -/

/-- nothing was created; containers and rows may have gone, if their removal was spawned -/
structure Quiet (w w' : World) : Prop where
  nextId : w'.docker.nextId = w.docker.nextId
  containers : ∀ id, (w.docker.containers id).isSome → (w'.docker.containers id).isSome ∨ ∃ r ∈ w.removals, r.id = id
  rows : w'.db.processes.Sublist w.db.processes
  kept : ∀ p ∈ w.db.processes, p ∈ w'.db.processes ∨ ∃ r ∈ w.removals, r.id = p.key
  removals : ∀ r ∈ w'.removals, ∃ r' ∈ w.removals, r'.id = r.id
  cargoes : w'.db.cargoes = w.db.cargoes

instance : IsPreorder World Quiet where
  refl _ := ⟨rfl, fun _ => Or.inl, List.Sublist.refl _, fun _ => Or.inl, fun r hr => ⟨r, hr, rfl⟩, rfl⟩
  trans a b c h h' := by
    have hback : ∀ i, (∃ r ∈ b.removals, r.id = i) → ∃ r ∈ a.removals, r.id = i := by
      rintro i ⟨r, hr, rfl⟩
      exact h.removals r hr
    refine ⟨h'.nextId.trans h.nextId, fun id hid => ?_, h'.rows.trans h.rows, fun p hp => ?_, fun r hr => ?_,
      h'.cargoes.trans h.cargoes⟩
    · rcases h.containers id hid with hid | hr
      · exact (h'.containers id hid).imp_right (hback id)
      · exact Or.inr hr
    · rcases h.kept p hp with hp | hr
      · exact (h'.kept p hp).imp_right (hback p.key)
      · exact Or.inr hr
    · exact hback r.id (h'.removals r hr)

/-- a step that is about neither rows nor removals, and keeps the containers -/
theorem Quiet.of_same (hn : w'.docker.nextId = w.docker.nextId)
    (hc : ∀ id, (w.docker.containers id).isSome → (w'.docker.containers id).isSome)
    (hp : w'.db.processes = w.db.processes) (hr : w'.removals = w.removals) (hg : w'.db.cargoes = w.db.cargoes) :
    Quiet w w' where
  nextId := hn
  containers id h := Or.inl (hc id h)
  rows := by rw [hp]
  kept p h := Or.inl (hp ▸ h)
  removals r h := ⟨r, hr ▸ h, rfl⟩
  cargoes := hg

theorem Quiet.of_docker (hd : w'.docker = w.docker) (hp : w'.db.processes = w.db.processes)
    (hr : w'.removals = w.removals) (hg : w'.db.cargoes = w.db.cargoes) : Quiet w w' :=
  .of_same (by rw [hd]) (fun id h => by rwa [hd]) hp hr hg

theorem quiet_removalStep (w : World) (s : RemovalStep) : Quiet w (w.removalStep s) := by
  cases s with
  | remove id =>
    simp only [World.removalStep]
    split_ifs with hmem
    · refine ⟨rfl, fun i hi => ?_, List.Sublist.refl _, fun _ => Or.inl, fun r hr => ?_, rfl⟩
      · by_cases he : i = id
        · exact Or.inr ⟨_, hmem, he.symm⟩
        · exact Or.inl (by simpa [Docker.setContainer, he] using hi)
      · obtain ⟨r', hr', rfl⟩ := List.mem_map.1 hr
        refine ⟨r', hr', ?_⟩
        split_ifs with he
        · exact he
        · rfl
    · exact Std.Refl.refl w
  | refused id =>
    exact ⟨rfl, fun _ => Or.inl, List.Sublist.refl _, fun _ => Or.inl, fun r hr => ⟨r, List.mem_of_mem_filter hr, rfl⟩,
      rfl⟩
  | deleteRow id =>
    simp only [World.removalStep]
    split_ifs with hmem
    · refine ⟨rfl, fun _ => Or.inl, List.filter_sublist, fun p hp => ?_,
        fun r hr => ⟨r, List.mem_of_mem_filter hr, rfl⟩, rfl⟩
      by_cases he : p.key = id
      · exact Or.inr ⟨_, hmem, he.symm⟩
      · exact Or.inl (List.mem_filter.2 ⟨hp, by simpa using he⟩)
    · exact Std.Refl.refl w

theorem quiet_suspend : Prog.Keeps Quiet (suspend E) :=
  keeps_suspend quiet_removalStep fun _ => .of_docker rfl rfl rfl rfl

/-- only a removal removes -/
theorem onContainer_isSome {c : Call} (hc : ∀ ref force, c ≠ .removeContainer ref force) {id : ContainerId} {x : Container}
    {code : ℤ} {x' : Option Container} (h : onContainer E c id x = .ok (code, x')) : x'.isSome := by
  cases c with
  | removeContainer ref force => exact absurd rfl (hc ref force)
  | waitContainer _ | killContainer _ =>
    simp only [onContainer] at h
    split_ifs at h <;> cases h <;> rfl
  | _ => cases h; rfl

/-- a call that is no removal keeps every container -/
theorem call_isSome {c : Call} (hc : ∀ ref force, c ≠ .removeContainer ref force) (ref : Ref) (d : Docker)
    (id : ContainerId) (h : (d.containers id).isSome) : ((d.call E c ref).2.containers id).isSome := by
  rcases Docker.call_cases (E := E) c ref d with hd | ⟨i, x, code, x', -, hon, hd⟩
  · rwa [hd]
  · rw [hd]
    by_cases he : id = i
    · subst he
      rw [Function.update_self]
      exact onContainer_isSome hc hon
    · rwa [Function.update_of_ne he]

theorem quiet_call {c : Call} (hc : ∀ ref force, c ≠ .removeContainer ref force) (ref : Ref) (w : World) :
    Quiet w { w with docker := (w.docker.call E c ref).2 } :=
  .of_same (by simp) (call_isSome hc ref w.docker) rfl rfl rfl

theorem quiet_inert (c : Call) (w : World) : Quiet w { w with docker := (w.docker.callInert E c).2 } := by
  obtain ⟨hc, hn⟩ := callInert_containers (E := E) c w.docker
  exact .of_same hn (fun id h => by rwa [hc]) rfl rfl rfl

/-- the call removes no container -/
def Call.keeping : Call → Prop
  | .removeContainer .. => False
  | _ => True

theorem Call.keeping.ne_remove {c : Call} (hc : c.keeping) (ref : Ref) (force : Bool) : c ≠ .removeContainer ref force := by
  rintro rfl
  exact hc

/-- the call neither creates nor removes a container -/
def Call.quiet : Call → Prop
  | .createContainer .. => False
  | c => c.keeping

theorem Call.quiet.keeping {c : Call} (hc : c.quiet) : c.keeping := by
  cases c with
  | createContainer _ _ => exact hc.elim
  | _ => exact hc

theorem steps_quiet : Steps E Call.quiet Quiet where
  suspend := quiet_suspend
  call _ hc ref w := quiet_call hc.keeping.ne_remove ref w
  inert c _ w := quiet_inert c w
  draw _ := .of_docker rfl rfl rfl rfl
  create h := (h (.createContainer 0 "") trivial).elim
  status _ _ _ := .of_docker rfl rfl rfl rfl
  emit _ _ := .of_docker rfl rfl rfl rfl

/-! ## One container -/

theorem orThrow_run_ok {α : Type} {context : String} {call : Docker → Except DockerError α × Docker} {a : α} {d : Docker}
    (h : call (suspend E w).2.docker = (.ok a, d)) :
    orThrow context (await E call) w = (.ok a, { (suspend E w).2 with docker := d }) := by
  have hrun : await E call w = (.ok (.ok a), { (suspend E w).2 with docker := d }) := by
    have hsuspend : suspend E w = (.ok (), (suspend E w).2) := rfl
    refine (Prog.bind_of_ok hsuspend).trans ?_
    simp only [Prog.run_lift, h]
  exact (Prog.bind_of_ok hrun).trans rfl

theorem orThrow_run_error {α : Type} {context : String} {call : Docker → Except DockerError α × Docker}
    {e : DockerError} {d : Docker} (h : call (suspend E w).2.docker = (.error e, d)) :
    orThrow context (await E call) w = (.error (e.withContext context), { (suspend E w).2 with docker := d }) := by
  have hrun : await E call w = (.ok (.error e), { (suspend E w).2 with docker := d }) := by
    have hsuspend : suspend E w = (.ok (), (suspend E w).2) := rfl
    refine (Prog.bind_of_ok hsuspend).trans ?_
    simp only [Prog.run_lift, h]
  exact (Prog.bind_of_ok hrun).trans rfl

/-- docker has no container that it did not have -/
def Fewer (w w' : World) : Prop := ∀ id c, w'.docker.containers id = some c → w.docker.containers id = some c

instance : IsPreorder World Fewer where
  refl _ _ _ h := h
  trans _ _ _ h h' id c hc := h id c (h' id c hc)

theorem fewer_suspend : Prog.Keeps Fewer (suspend E) := by
  refine keeps_suspend (fun w s => ?_) fun w id c h => h
  cases s with
  | remove i =>
    simp only [World.removalStep]
    split_ifs
    · intro id c h
      by_cases he : id = i <;> simp_all [Docker.setContainer]
    · exact Std.Refl.refl w
  | refused i => exact fun id c h => h
  | deleteRow i =>
    simp only [World.removalStep]
    split_ifs
    · exact fun id c h => h
    · exact Std.Refl.refl w

/-- the world with one container more -/
def World.added (w : World) (draw : ℕ) (name : String) (config : Config) : World :=
  { w with docker := w.docker.added draw name config }

/-- the world with one row more -/
def World.inserted (w : World) (p : ProcessDb) : World :=
  { w with db := { w.db with processes := w.db.processes ++ [p] } }

theorem quiet_record (w : World) (c : Call) (id : Option ContainerId) (ok : Bool) :
    Quiet w { w with docker := w.docker.record c id ok } := .of_same rfl (fun _ h => h) rfl rfl rfl

theorem createContainer_cases (draw : ℕ) (name : String) (config : Config) (w : World) :
    ∃ w₁, Quiet w w₁ ∧
      ((∃ e, orThrow "CreateProcess" (createContainer E draw name config) w = (.error e, w₁)) ∨
      orThrow "CreateProcess" (createContainer E draw name config) w =
        (.ok w.docker.nextId, w₁.added draw name config)) := by
  have hw₁ : Quiet w (suspend E w).2 := quiet_suspend w
  cases hf : E.fate (.createContainer draw name) with
  | some e =>
    have hcall : (suspend E w).2.docker.createContainer E draw name config =
        (.error e, (suspend E w).2.docker.record (.createContainer draw name) none false) := by
      simp only [Docker.createContainer, hf]
    exact ⟨_, IsTrans.trans _ _ _ hw₁ (quiet_record _ _ _ _), Or.inl ⟨_, orThrow_run_error hcall⟩⟩
  | none =>
    have hcall : (suspend E w).2.docker.createContainer E draw name config =
        (.ok w.docker.nextId, (suspend E w).2.docker.added draw name config) := by
      simp only [Docker.createContainer, hf, ← hw₁.nextId]
      rfl
    exact ⟨_, hw₁, Or.inr (orThrow_run_ok hcall)⟩

theorem inspectContainer_cases (id : ContainerId) (w : World) :
    ∃ w₁, Quiet w w₁ ∧ Fewer w w₁ ∧
      ((∃ e, orThrow "CreateProcess" (inspectContainer E id) w = (.error e, w₁)) ∨
      ∃ c, w₁.docker.containers id = some c ∧ orThrow "CreateProcess" (inspectContainer E id) w = (.ok c, w₁)) := by
  have hquiet : ∀ ok : Bool, Quiet w { (suspend E w).2 with
      docker := (suspend E w).2.docker.record (.inspectContainer id) (some id) ok } := fun ok =>
    IsTrans.trans _ _ _ (quiet_suspend w) (quiet_record _ _ _ _)
  have hfewer := fewer_suspend (E := E) w
  cases hf : E.fate (.inspectContainer id) with
  | some e =>
    refine ⟨_, hquiet false, hfewer, Or.inl ⟨_, orThrow_run_error (e := e) ?_⟩⟩
    simp only [Docker.inspectContainer, hf]
  | none =>
    cases hc : (suspend E w).2.docker.containers id with
    | none =>
      refine ⟨_, hquiet false, hfewer, Or.inl ⟨_, orThrow_run_error (e := noSuchContainer) ?_⟩⟩
      simp only [Docker.inspectContainer, hf, hc]
    | some c =>
      refine ⟨_, hquiet true, hfewer, Or.inr ⟨c, hc, orThrow_run_ok ?_⟩⟩
      simp only [Docker.inspectContainer, hf, hc]

/-- `process::create` adds one container and its row; if it fails, it did so before the container was created or
before the row was inserted -/
theorem createProcess_cases (kind : ProcessKind) (draw : ℕ) (name kindKey : String) (item : Config) (w : World) :
    ∃ w₁, Quiet w w₁ ∧
      ((∃ e, createProcess E kind draw name kindKey item w = (.error e, w₁)) ∨
      ∃ w₂, Quiet (w₁.added draw name (processConfig kind item)) w₂ ∧
        ((∃ e, createProcess E kind draw name kindKey item w = (.error e, w₂)) ∨
        createProcess E kind draw name kindKey item w =
          (.ok (newRow E kind name kindKey item w.docker.nextId),
            w₂.inserted (newRow E kind name kindKey item w.docker.nextId)))) := by
  have heq : createProcess E kind draw name kindKey item = (do
      let id ← orThrow "CreateProcess" (createContainer E draw name (processConfig kind item))
      let container ← orThrow "CreateProcess" (inspectContainer E id)
      insertProcess E ⟨id, name, kind, kindKey, E.hostname, container.created, container.inspect id, rfl⟩) := rfl
  rw [heq]
  obtain ⟨w₁, hw₁, ⟨e, hcreate⟩ | hcreate⟩ := createContainer_cases (E := E) draw name (processConfig kind item) w
  · exact ⟨w₁, hw₁, Or.inl ⟨e, Prog.bind_of_error hcreate⟩⟩
  · refine ⟨w₁, hw₁, Or.inr ?_⟩
    rw [Prog.bind_of_ok hcreate]
    obtain ⟨w₂, hw₂, hfewer, ⟨e, hinspect⟩ | ⟨c, hc, hinspect⟩⟩ :=
      inspectContainer_cases (E := E) w.docker.nextId (w₁.added draw name (processConfig kind item))
    · exact ⟨w₂, hw₂, Or.inl ⟨e, Prog.bind_of_error hinspect⟩⟩
    · -- what was inspected is the container that was created
      have hnew : newContainer w.docker.nextId name (processConfig kind item) = c := by
        have := hfewer _ _ hc
        rw [← hw₁.nextId] at this ⊢
        simpa [World.added, Docker.added, Docker.record, Docker.setContainer] using this
      refine ⟨_, IsTrans.trans _ _ _ hw₂ (quiet_suspend (E := E) w₂), Or.inr ?_⟩
      rw [Prog.bind_of_ok hinspect, ← hnew]
      rfl

/-! ## Ids and times -/

/-- what every task keeps: the ids of the rows and of the spawned removals were given out, each row has its own, and the
containers still to come are created later than the ones that have a row -/
structure Consistent (w : World) : Prop where
  nodup : (w.db.processes.map ProcessDb.key).Nodup
  bound : ∀ p ∈ w.db.processes, p.key < w.docker.nextId
  earlier : ∀ p ∈ w.db.processes, p.createdAt < w.docker.nextId
  removals : ∀ r ∈ w.removals, r.id < w.docker.nextId
  /-- a cargo is stored under its key -/
  cargoes : ∀ key cargo, w.db.cargoes key = some cargo → cargo.key = key

theorem Consistent.quiet (h : Consistent w) (hq : Quiet w w') : Consistent w' where
  nodup := (hq.rows.map _).nodup h.nodup
  bound p hp := hq.nextId ▸ h.bound p (hq.rows.subset hp)
  earlier p hp := hq.nextId ▸ h.earlier p (hq.rows.subset hp)
  removals r hr := by
    obtain ⟨r', hr', he⟩ := hq.removals r hr
    rw [← he, hq.nextId]
    exact h.removals r' hr'
  cargoes key cargo hc := h.cargoes key cargo (hq.cargoes ▸ hc)

theorem Consistent.added (h : Consistent w) (draw : ℕ) (name : String) (config : Config) :
    Consistent (w.added draw name config) where
  nodup := h.nodup
  bound p hp := Nat.lt_succ_of_lt (h.bound p hp)
  earlier p hp := by
    have := h.earlier p hp
    simp only [World.added, Docker.added]
    push_cast
    omega
  removals r hr := Nat.lt_succ_of_lt (h.removals r hr)
  cargoes := h.cargoes

theorem Consistent.inserted (h : Consistent w) {p : ProcessDb} (hfresh : ∀ q ∈ w.db.processes, q.key ≠ p.key)
    (hlt : p.key < w.docker.nextId) (hc : p.createdAt = p.key) : Consistent (w.inserted p) where
  nodup := by
    simp only [World.inserted, List.map_append, List.nodup_append]
    refine ⟨h.nodup, by simp, fun k hk k' hk' => ?_⟩
    obtain ⟨q, hq, rfl⟩ := List.mem_map.1 hk
    obtain rfl : k' = p.key := by simpa using hk'
    exact hfresh q hq
  bound q hq := by
    rcases List.mem_append.1 hq with hq | hq
    · exact h.bound q hq
    · obtain rfl := List.mem_singleton.1 hq
      exact hlt
  earlier q hq := by
    rcases List.mem_append.1 hq with hq | hq
    · exact h.earlier q hq
    · obtain rfl := List.mem_singleton.1 hq
      rw [hc]
      exact Int.ofNat_lt.2 hlt
  removals := h.removals
  cargoes := h.cargoes

theorem Consistent.createProcess (h : Consistent w) (kind : ProcessKind) (draw : ℕ) (name kindKey : String)
    (item : Config) : Consistent (createProcess E kind draw name kindKey item w).2 := by
  obtain ⟨w₁, hw₁, ⟨e, hrun⟩ | ⟨w₂, hw₂, ⟨e, hrun⟩ | hrun⟩⟩ :=
    createProcess_cases (E := E) kind draw name kindKey item w
  · rw [hrun]
    exact h.quiet hw₁
  · rw [hrun]
    exact ((h.quiet hw₁).added draw name _).quiet hw₂
  · rw [hrun]
    have hnext : w₂.docker.nextId = w.docker.nextId + 1 := hw₂.nextId.trans (congrArg (· + 1) hw₁.nextId)
    refine (((h.quiet hw₁).added draw name _).quiet hw₂).inserted (fun q hq => ?_) ?_ rfl
    · have := (h.quiet hw₁).bound q (hw₂.rows.subset hq)
      rw [hw₁.nextId] at this
      exact Nat.ne_of_lt this
    · rw [hnext]
      exact Nat.lt_succ_self _

def ConsistentKept (w w' : World) : Prop := Consistent w → Consistent w'

instance : IsPreorder World ConsistentKept where
  refl _ h := h
  trans _ _ _ h h' hw := h' (h hw)

/-- no step of a task that spawns no removal breaks it -/
theorem steps_consistent : Steps E (fun _ => True) ConsistentKept where
  suspend w h := h.quiet (quiet_suspend w)
  call _ _ _ _ h := ⟨h.nodup, by simpa using h.bound, by simpa using h.earlier, by simpa using h.removals, h.cargoes⟩
  inert c _ w h := by
    obtain ⟨-, hn⟩ := callInert_containers (E := E) c w.docker
    exact ⟨h.nodup, by simpa [hn] using h.bound, by simpa [hn] using h.earlier, by simpa [hn] using h.removals, h.cargoes⟩
  draw _ h := ⟨h.nodup, h.bound, h.earlier, h.removals, h.cargoes⟩
  create _ kind draw name kindKey item w h := h.createProcess kind draw name kindKey item
  status _ _ _ h := ⟨h.nodup, h.bound, h.earlier, h.removals, h.cargoes⟩
  emit _ _ h := ⟨h.nodup, h.bound, h.earlier, h.removals, h.cargoes⟩

/-! ## What stays -/

/-- the spawned removals are about containers older than the id -/
def OlderRemovals (b : ContainerId) (w : World) : Prop := ∀ r ∈ w.removals, r.id < b

/-- where the removals are about older containers they stay so, and the containers and the rows from the id on stay -/
structure Grows (b : ContainerId) (w w' : World) : Prop where
  removals : OlderRemovals b w → OlderRemovals b w'
  containers : OlderRemovals b w → ∀ id, b ≤ id → (w.docker.containers id).isSome →
    (w'.docker.containers id).isSome
  rows : OlderRemovals b w → ∀ p ∈ w.db.processes, b ≤ p.key → p ∈ w'.db.processes

variable {b : ContainerId}

instance : IsPreorder World (Grows b) where
  refl _ := ⟨fun h => h, fun _ _ _ h => h, fun _ _ h _ => h⟩
  trans _ _ _ h h' := ⟨fun ho => h'.removals (h.removals ho),
    fun ho id hid hc => h'.containers (h.removals ho) id hid (h.containers ho id hid hc),
    fun ho p hp hid => h'.rows (h.removals ho) p (h.rows ho p hp hid) hid⟩

theorem Quiet.grows (h : Quiet w w') : Grows b w w' := by
  have hold : OlderRemovals b w → ∀ id, b ≤ id → ¬ ∃ r ∈ w.removals, r.id = id := by
    rintro ho id hid ⟨r, hr, rfl⟩
    exact absurd (ho r hr) (Nat.not_lt.2 hid)
  refine ⟨fun ho r hr => ?_, fun ho id hid hc => ?_, fun ho p hp hid => ?_⟩
  · obtain ⟨r', hr', he⟩ := h.removals r hr
    exact he ▸ ho r' hr'
  · exact (h.containers id hc).resolve_right (hold ho id hid)
  · exact (h.kept p hp).resolve_right (hold ho p.key hid)

theorem grows_added (w : World) (draw : ℕ) (name : String) (config : Config) :
    Grows b w (w.added draw name config) := by
  refine ⟨fun h => h, fun _ id _ hc => ?_, fun _ _ h _ => h⟩
  by_cases he : id = w.docker.nextId
  · simp [World.added, Docker.added, Docker.setContainer, Docker.record, he]
  · simpa [World.added, Docker.added, Docker.setContainer, Docker.record, he] using hc

theorem grows_inserted (w : World) (p : ProcessDb) : Grows b w (w.inserted p) :=
  ⟨fun h => h, fun _ _ _ h => h, fun _ _ h _ => List.mem_append_left _ h⟩

theorem grows_createProcess (kind : ProcessKind) (draw : ℕ) (name kindKey : String) (item : Config) :
    Prog.Keeps (Grows b) (createProcess E kind draw name kindKey item) := by
  intro w
  obtain ⟨w₁, hw₁, ⟨e, hrun⟩ | ⟨w₂, hw₂, ⟨e, hrun⟩ | hrun⟩⟩ :=
    createProcess_cases (E := E) kind draw name kindKey item w
  · rw [hrun]
    exact hw₁.grows
  · rw [hrun]
    exact IsTrans.trans _ _ _ hw₁.grows (IsTrans.trans _ _ _ (grows_added _ _ _ _) hw₂.grows)
  · rw [hrun]
    exact IsTrans.trans _ _ _ hw₁.grows
      (IsTrans.trans _ _ _ (grows_added _ _ _ _) (IsTrans.trans _ _ _ hw₂.grows (grows_inserted _ _)))

theorem steps_grows : Steps E Call.keeping (Grows b) where
  suspend w := (quiet_suspend w).grows
  call _ hc ref w := (quiet_call hc.ne_remove ref w).grows
  inert c _ w := (quiet_inert c w).grows
  draw w := ((steps_quiet (E := E)).draw w).grows
  create _ := grows_createProcess
  status w key s := ((steps_quiet (E := E)).status w key s).grows
  emit w e := ((steps_quiet (E := E)).emit w e).grows

/-! ## The instances of a cargo -/

/-- between the two worlds these instances of the cargo were created, and no other row was inserted -/
structure Instances (key : String) (w w' : World) (instances : List ProcessDb) : Prop where
  keys : instances.map ProcessDb.key = List.range' w.docker.nextId instances.length
  nextId : w'.docker.nextId = w.docker.nextId + instances.length
  rows : ∀ p ∈ instances, p ∈ w'.db.processes
  containers : ∀ p ∈ instances, (w'.docker.containers p.key).isSome
  createdAt : ∀ p ∈ instances, p.createdAt = p.key
  labelled : ∀ p ∈ instances, p.hasLabel ProcessDb.notInitC = true ∧ p.kindKey = key
  only : ∀ p ∈ w'.db.processes, p ∈ w.db.processes ∨ p ∈ instances

/-- the container of an instance has the label, whatever labels the spec has -/
theorem instanceConfig_labelled (cargo : Cargo) (secretDir : String) (envSecrets : List String) (current : ℕ) :
    ((processConfig .cargo (instanceConfig E cargo secretDir envSecrets current)).labels.getD []).has
      ProcessDb.notInitC "true" = true := by
  change (Labels.insert (Labels.insert (cargoLabels cargo ProcessDb.notInitC _) "io.nanocl" "enabled") "io.nanocl.kind"
    "cargo").has ProcessDb.notInitC "true" = true
  rw [Labels.has_insert_ne _ (by decide), Labels.has_insert_ne _ (by decide), cargoLabels,
    Labels.has_insert_ne _ (by decide)]
  exact Labels.has_insert _ _ _

/-- `process::create` of a container with the label creates one instance -/
theorem createProcess_instance {kind : ProcessKind} {draw : ℕ} {name key : String} {item : Config} {p : ProcessDb}
    (hl : ((processConfig kind item).labels.getD []).has ProcessDb.notInitC "true" = true)
    (ho : OlderRemovals w.docker.nextId w) (h : (createProcess E kind draw name key item w).1 = .ok p) :
    Instances key w (createProcess E kind draw name key item w).2 [p] := by
  obtain ⟨w₁, hw₁, ⟨e, hrun⟩ | ⟨w₂, hw₂, ⟨e, hrun⟩ | hrun⟩⟩ := createProcess_cases (E := E) kind draw name key item w
  · rw [hrun] at h
    cases h
  · rw [hrun] at h
    cases h
  rw [hrun] at h ⊢
  obtain rfl := Except.ok.inj h
  have hgrows : Grows w.docker.nextId w (w₁.added draw name (processConfig kind item)) :=
    IsTrans.trans _ _ _ hw₁.grows (grows_added w₁ draw name _)
  refine ⟨rfl, hw₂.nextId.trans (congrArg (· + 1) hw₁.nextId), ?_, ?_, ?_, ?_, ?_⟩
  · intro q hq
    obtain rfl := List.mem_singleton.1 hq
    exact List.mem_append_right _ (List.mem_singleton_self _)
  · intro q hq
    obtain rfl := List.mem_singleton.1 hq
    refine hw₂.grows.containers (hgrows.removals ho) _ (le_refl _) ?_
    change ((w₁.added draw name (processConfig kind item)).docker.containers w.docker.nextId).isSome
    rw [← hw₁.nextId]
    simp [World.added, Docker.added, Docker.setContainer, Docker.record]
  · intro q hq
    obtain rfl := List.mem_singleton.1 hq
    rfl
  · intro q hq
    obtain rfl := List.mem_singleton.1 hq
    exact ⟨hl, rfl⟩
  · intro q hq
    exact (List.mem_append.1 hq).imp_left fun hq => hw₁.rows.subset (hw₂.rows.subset hq)

variable {cargo : Cargo} {secretDir : String} {envSecrets : List String}

theorem createInstance_ok {current : ℕ} {p : ProcessDb} (ho : OlderRemovals w.docker.nextId w)
    (h : (createInstance E cargo secretDir envSecrets current w).1 = .ok p) :
    Instances cargo.key w (createInstance E cargo secretDir envSecrets current w).2 [p] := by
  have heq : createInstance E cargo secretDir envSecrets current w =
      (if cargo.spec.container.autoRemove then
        Prog.fail (.interrupted "CargoCreate" "Auto remove is not allowed for cargo use a job instead")
      else
        createProcess E .cargo w.draws (cargo.spec.name ++ "-" ++ E.shortId w.draws ++ "." ++ cargo.namespaceName ++ ".c")
          cargo.key (instanceConfig E cargo secretDir envSecrets current) : Io ProcessDb)
      { w with draws := w.draws + 1 } := rfl
  rw [heq] at h ⊢
  split_ifs at h ⊢
  · cases h
  · have hone := createProcess_instance (w := { w with draws := w.draws + 1 })
      (instanceConfig_labelled cargo secretDir envSecrets current) ho h
    exact ⟨hone.keys, hone.nextId, hone.rows, hone.containers, hone.createdAt, hone.labelled, hone.only⟩

theorem Instances.nil (key : String) (w : World) : Instances key w w [] where
  keys := rfl
  nextId := rfl
  rows _ hp := absurd hp List.not_mem_nil
  containers _ hp := absurd hp List.not_mem_nil
  createdAt _ hp := absurd hp List.not_mem_nil
  labelled _ hp := absurd hp List.not_mem_nil
  only _ hp := Or.inl hp

/-- what was created before stays -/
theorem Instances.cons {key : String} {w₁ : World} {p : ProcessDb} {l : List ProcessDb} (h : Instances key w w₁ [p])
    (h' : Instances key w₁ w' l) (hgrows : Grows w.docker.nextId w₁ w') (ho : OlderRemovals w.docker.nextId w₁) :
    Instances key w w' (p :: l) where
  keys := by
    have hkey : p.key = w.docker.nextId := (List.cons.inj h.keys).1
    have hnext : w₁.docker.nextId = w.docker.nextId + 1 := h.nextId
    rw [List.map_cons, h'.keys, hkey, hnext]
    rfl
  nextId := by
    have hnext : w₁.docker.nextId = w.docker.nextId + 1 := h.nextId
    rw [h'.nextId, hnext, List.length_cons, Nat.add_assoc, Nat.add_comm 1]
  rows q hq := by
    rcases List.mem_cons.1 hq with rfl | hq
    · exact hgrows.rows ho q (h.rows q (List.mem_singleton_self q)) (le_of_eq (List.cons.inj h.keys).1.symm)
    · exact h'.rows q hq
  containers q hq := by
    rcases List.mem_cons.1 hq with rfl | hq
    · exact hgrows.containers ho _ (le_of_eq (List.cons.inj h.keys).1.symm) (h.containers q (List.mem_singleton_self q))
    · exact h'.containers q hq
  createdAt q hq := by
    rcases List.mem_cons.1 hq with rfl | hq
    · exact h.createdAt q (List.mem_singleton_self q)
    · exact h'.createdAt q hq
  labelled q hq := by
    rcases List.mem_cons.1 hq with rfl | hq
    · exact h.labelled q (List.mem_singleton_self q)
    · exact h'.labelled q hq
  only q hq := by
    rcases h'.only q hq with hq | hq
    · exact (h.only q hq).imp_right fun hq => List.mem_cons.2 (Or.inl (List.mem_singleton.1 hq))
    · exact Or.inr (List.mem_cons_of_mem p hq)

theorem Call.preparing.keeping {c : Call} (h : c.preparing) : c.keeping := by
  cases c with
  | removeContainer _ _ => exact h
  | _ => trivial

theorem grows_createInstance (cargo : Cargo) (secretDir : String) (envSecrets : List String) (current : ℕ) :
    Prog.Keeps (Grows b) (createInstance E cargo secretDir envSecrets current) :=
  steps_grows.createInstance (fun _ hc => hc.preparing.keeping) _ _ _ _

/-- the futures of the instances -/
theorem createAll_ok {l : List ℕ} {instances : List ProcessDb} (ho : OlderRemovals w.docker.nextId w)
    (h : (Prog.joinAll l (createInstance E cargo secretDir envSecrets) w).1 = .ok instances) :
    Instances cargo.key w (Prog.joinAll l (createInstance E cargo secretDir envSecrets) w).2 instances ∧
      instances.length = l.length := by
  induction l generalizing w instances with
  | nil =>
    obtain rfl : [] = instances := Except.ok.inj h
    exact ⟨.nil cargo.key w, rfl⟩
  | cons i l ih =>
    obtain ⟨p, ps, hp, hps, rfl, hstate⟩ := Prog.joinAll_cons_ok h
    have hone := createInstance_ok ho hp
    have hold := (grows_createInstance (E := E) cargo secretDir envSecrets i w).removals ho
    rw [hstate]
    generalize (createInstance E cargo secretDir envSecrets i w).2 = w₁ at hone hold hps ⊢
    have hnext : w.docker.nextId ≤ w₁.docker.nextId := by
      rw [hone.nextId]
      exact Nat.le_add_right _ _
    obtain ⟨hrest, hlength⟩ := ih (fun r hr => lt_of_lt_of_le (hold r hr) hnext) hps
    exact ⟨hone.cons hrest (Prog.keeps_joinAll (fun j _ => grows_createInstance cargo secretDir envSecrets j) _) hold,
      congrArg (· + 1) hlength⟩

/-- steps that create nothing come before -/
theorem Instances.quiet {key : String} {w₁ : World} {l : List ProcessDb} (hq : Quiet w w₁) (h : Instances key w₁ w' l) :
    Instances key w w' l where
  keys := hq.nextId ▸ h.keys
  nextId := hq.nextId ▸ h.nextId
  rows := h.rows
  containers := h.containers
  createdAt := h.createdAt
  labelled := h.labelled
  only p hp := (h.only p hp).imp_left fun hp => hq.rows.subset hp

/-- a program of quiet steps that returned -/
theorem quiet_of_ok {α : Type} {m : Io α} (hm : Prog.Keeps Quiet m) {a : α} {w₁ : World} (h : m w = (.ok a, w₁)) :
    Quiet w w₁ := by
  simpa [h] using hm w

theorem injectData_ok {cargo' : Cargo} {w₁ : World} (h : injectData E cargo w = (.ok cargo', w₁)) :
    cargo' = cargo.inject E.internalGateway := by
  obtain ⟨-, w₂, -, hok, -⟩ := Prog.bind_ok (congrArg Prod.fst h)
  exact (Except.ok.inj hok).symm

/-- `create` that returns has created the instances -/
theorem create_ok {number : ℕ} {instances : List ProcessDb} (ho : OlderRemovals w.docker.nextId w)
    (h : (create E cargo number w).1 = .ok instances) :
    Instances cargo.key w (create E cargo number w).2 instances ∧ instances.length = number := by
  obtain ⟨cargo', w₁, h₁, hok₁, heq₁⟩ := Prog.bind_ok h
  obtain ⟨_, w₂, h₂, hok₂, heq₂⟩ := Prog.bind_ok hok₁
  obtain ⟨envSecrets, w₃, h₃, hok₃, heq₃⟩ := Prog.bind_ok hok₂
  obtain ⟨secretDir, w₄, h₄, hok₄, heq₄⟩ := Prog.bind_ok hok₃
  have hq : Quiet w w₄ := IsTrans.trans _ _ _ (quiet_of_ok (steps_quiet.injectData trivial _) h₁)
    (IsTrans.trans _ _ _ (quiet_of_ok (steps_quiet.downloadImage (fun _ _ _ => trivial) _) h₂)
      (IsTrans.trans _ _ _ (quiet_of_ok (steps_quiet.loadEnvSecrets (fun _ => trivial) _) h₃)
        (quiet_of_ok (steps_quiet.createTlsSecrets (fun _ => trivial) _ _ _) h₄)))
  obtain ⟨hall, hlength⟩ := createAll_ok (hq.nextId ▸ hq.grows.removals ho) hok₄
  have hkey : cargo'.key = cargo.key := by rw [injectData_ok h₁]; rfl
  have hstate : create E cargo number w = _ := heq₁.trans (heq₂.trans (heq₃.trans heq₄))
  rw [hstate, ← hkey]
  exact ⟨.quiet hq hall, hlength.trans List.length_range⟩

end Nanocl.Runtime
