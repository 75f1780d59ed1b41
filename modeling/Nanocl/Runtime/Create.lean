/-
Creating containers, exactly, for a task that runs alone.

`Created E w w' births` is the frame of everything that creates: the births are the containers created in between, in
order; every other container is untouched, and the database has a row more for each birth that was inspected.

- `createProcess_created`: `process::create` gives birth to one recorded container, or fails and leaves at most one
  container without a row.
- `download_ok_iff`, `loadEnvSecrets_ok_iff`, `createTlsSecrets_ok_iff`: when the preparing steps succeed.
-/
import Nanocl.Runtime.Log

namespace Nanocl.Runtime

open Nanocl.Lib

variable (E : Env)

/-! ## One container -/

/-- the configuration `process::create` gives to docker -/
def processConfig (kind : ProcessKind) (item : Config) : Config :=
  { item with labels := some (Labels.insert (Labels.insert (item.labels.getD []) "io.nanocl" "enabled") "io.nanocl.kind"
      kind.display) }

/-- a container that was just created -/
def newContainer (id : ContainerId) (name : String) (config : Config) : Container :=
  ⟨name, config, false, false, 0, "0001-01-01T00:00:00Z", id⟩

/-- the row of a container that was just created -/
def newRow (kind : ProcessKind) (name kindKey : String) (item : Config) (id : ContainerId) : ProcessDb :=
  ⟨id, name, kind, kindKey, E.hostname, id, (newContainer id name (processConfig kind item)).inspect id, rfl⟩

/-- docker with one container more -/
def Docker.added (d : Docker) (draw : ℕ) (name : String) (config : Config) : Docker :=
  { (d.setContainer d.nextId (some (newContainer d.nextId name config))).record (.createContainer draw name)
      (some d.nextId) true with nextId := d.nextId + 1 }

section CreateProcess

variable {E} {kind : ProcessKind} {draw : ℕ} {name kindKey : String} {item : Config} {w : World}

theorem Docker.createContainer_ok {config : Config} {d : Docker} (h : E.fate (.createContainer draw name) = none) :
    d.createContainer E.alone draw name config = (.ok d.nextId, d.added draw name config) := by
  simp only [Docker.createContainer, Env.alone, h]
  rfl

theorem Docker.createContainer_refused {config : Config} {d : Docker} {e : DockerError}
    (h : E.fate (.createContainer draw name) = some e) :
    d.createContainer E.alone draw name config = (.error e, d.record (.createContainer draw name) none false) := by
  simp only [Docker.createContainer, Env.alone, h]

/-- `process::create` where docker does not create the container -/
theorem createProcess_refused {e : DockerError} (h : E.fate (.createContainer draw name) = some e) :
    createProcess E.alone kind draw name kindKey item w = (.error (e.withContext "CreateProcess"),
      w.called (w.docker.record (.createContainer draw name) none false)) :=
  Prog.bind_of_error (orThrow_error E (Docker.createContainer_refused h))

/-- `process::create` where the inspection fails: the container stays, without a row -/
theorem createProcess_orphan {e : DockerError} (h : E.fate (.createContainer draw name) = none)
    (hi : E.fate (.inspectContainer w.docker.nextId) = some e) :
    createProcess E.alone kind draw name kindKey item w = (.error (e.withContext "CreateProcess"),
      (w.called (w.docker.added draw name (processConfig kind item))).called
        ((w.docker.added draw name (processConfig kind item)).record (.inspectContainer w.docker.nextId)
          (some w.docker.nextId) false)) := by
  have hins : (w.docker.added draw name (processConfig kind item)).inspectContainer E.alone w.docker.nextId =
      (.error e, (w.docker.added draw name (processConfig kind item)).record (.inspectContainer w.docker.nextId)
        (some w.docker.nextId) false) := by
    simp only [Docker.inspectContainer, Env.alone, hi]
  exact (Prog.bind_of_ok (orThrow_ok E (Docker.createContainer_ok h))).trans
    (Prog.bind_of_error (orThrow_error E hins))

/-- `process::create` where nothing fails -/
theorem createProcess_ok (h : E.fate (.createContainer draw name) = none)
    (hi : E.fate (.inspectContainer w.docker.nextId) = none) :
    createProcess E.alone kind draw name kindKey item w = (.ok (newRow E kind name kindKey item w.docker.nextId),
      ⟨(w.docker.added draw name (processConfig kind item)).record (.inspectContainer w.docker.nextId)
        (some w.docker.nextId) true,
       { w.db with processes := w.db.processes ++ [newRow E kind name kindKey item w.docker.nextId] },
       w.removals, w.draws, w.ticks + 3⟩) := by
  have hins : (w.docker.added draw name (processConfig kind item)).inspectContainer E.alone w.docker.nextId =
      (.ok (newContainer w.docker.nextId name (processConfig kind item)),
       (w.docker.added draw name (processConfig kind item)).record (.inspectContainer w.docker.nextId)
         (some w.docker.nextId) true) := by
    simp [Docker.inspectContainer, Env.alone, hi, Docker.added, Docker.record, Docker.setContainer]
  have hcall : orThrow "CreateProcess" (inspectContainer E.alone w.docker.nextId)
      (w.called (w.docker.added draw name (processConfig kind item))) = _ := orThrow_ok E hins
  exact (Prog.bind_of_ok (orThrow_ok E (Docker.createContainer_ok h))).trans ((Prog.bind_of_ok hcall).trans rfl)

end CreateProcess

/-! ## Births -/

/-- a container that a task created -/
structure Birth where
  id : ContainerId
  kind : ProcessKind
  name : String
  kindKey : String
  item : Config
  /-- its inspection succeeded, so it has a row -/
  recorded : Bool

def Birth.container (b : Birth) : Container := newContainer b.id b.name (processConfig b.kind b.item)

def Birth.row (b : Birth) : ProcessDb := newRow E b.kind b.name b.kindKey b.item b.id

/-- the rows of the births -/
def Birth.rows (births : List Birth) : List ProcessDb := (births.filter Birth.recorded).map (Birth.row E)

/-- between the two worlds a task created these containers and did nothing else -/
structure Created (w w' : World) (births : List Birth) : Prop where
  ids : births.map Birth.id = List.range' w.docker.nextId births.length
  nextId : w'.docker.nextId = w.docker.nextId + births.length
  old : ∀ id, id ∉ births.map Birth.id → w'.docker.containers id = w.docker.containers id
  new : ∀ b ∈ births, w'.docker.containers b.id = some b.container
  db : w'.db = { w.db with processes := w.db.processes ++ Birth.rows E births }
  removals : w'.removals = w.removals
  logs : Logs E Call.creating w w'

section Created

variable {E} {w w₁ w' : World} {births births' : List Birth}

theorem Created.mem_ids (h : Created E w w' births) (id : ContainerId) :
    id ∈ births.map Birth.id ↔ w.docker.nextId ≤ id ∧ id < w'.docker.nextId := by
  rw [h.ids, List.mem_range'_1, h.nextId]

/-- the containers that existed before are untouched -/
theorem Created.old_of_lt (h : Created E w w' births) {id : ContainerId} (hid : id < w.docker.nextId) :
    w'.docker.containers id = w.docker.containers id :=
  h.old id fun hmem => absurd ((h.mem_ids id).1 hmem).1 (Nat.not_le.2 hid)

theorem Created.trans (h : Created E w w₁ births) (h' : Created E w₁ w' births') :
    Created E w w' (births ++ births') where
  ids := by
    rw [List.map_append, h.ids, h'.ids, h.nextId, List.length_append, List.range'_append_1]
  nextId := by
    rw [h'.nextId, h.nextId, List.length_append, Nat.add_assoc]
  old id hid := by
    rw [List.map_append, List.mem_append, not_or] at hid
    rw [h'.old id hid.2, h.old id hid.1]
  new b hb := by
    rcases List.mem_append.1 hb with hb | hb
    · rw [h'.old_of_lt ((h.mem_ids b.id).1 (List.mem_map_of_mem hb)).2, h.new b hb]
    · exact h'.new b hb
  db := by
    rw [h'.db, h.db]
    simp only [Birth.rows, List.filter_append, List.map_append, List.append_assoc]
  removals := h'.removals.trans h.removals
  logs := IsTrans.trans _ _ _ h.logs h'.logs

/-- a step that creates nothing -/
theorem Created.nil (hc : w'.docker.containers = w.docker.containers) (hn : w'.docker.nextId = w.docker.nextId)
    (hdb : w'.db = w.db) (hr : w'.removals = w.removals) (hl : Logs E Call.creating w w') : Created E w w' [] where
  ids := rfl
  nextId := hn
  old id _ := by rw [hc]
  new b hb := by cases hb
  db := by simp [hdb, Birth.rows]
  removals := hr
  logs := hl

/-- a step that creates one container -/
theorem Created.single {b : Birth} (hid : b.id = w.docker.nextId)
    (hc : w'.docker.containers = Function.update w.docker.containers b.id (some b.container))
    (hn : w'.docker.nextId = w.docker.nextId + 1)
    (hdb : w'.db = { w.db with processes := w.db.processes ++ Birth.rows E [b] }) (hr : w'.removals = w.removals)
    (hl : Logs E Call.creating w w') : Created E w w' [b] where
  ids := by simp [hid, List.range'_one]
  nextId := hn
  old id hmem := by
    rw [hc, Function.update_of_ne (by simpa using hmem)]
  new c hmem := by
    obtain rfl := List.mem_singleton.1 hmem
    rw [hc, Function.update_self]
  db := hdb
  removals := hr
  logs := hl

theorem Created.refl (w : World) : Created E w w [] := .nil rfl rfl rfl rfl (Std.Refl.refl w)

end Created

/-- `process::create` gives birth to one container, recorded if nothing fails -/
theorem createProcess_created (kind : ProcessKind) (draw : ℕ) (name kindKey : String) (item : Config) (w : World) :
    ∃ r w' births, createProcess E.alone kind draw name kindKey item w = (r, w') ∧ Created E w w' births ∧
      w'.draws = w.draws ∧
      ((∃ e, r = .error e ∧ ¬ (E.fate (.createContainer draw name) = none ∧
          E.fate (.inspectContainer w.docker.nextId) = none) ∧
          (births = [] ∨ births = [⟨w.docker.nextId, kind, name, kindKey, item, false⟩])) ∨
        (r = .ok (newRow E kind name kindKey item w.docker.nextId) ∧ E.fate (.createContainer draw name) = none ∧
          E.fate (.inspectContainer w.docker.nextId) = none ∧
          births = [⟨w.docker.nextId, kind, name, kindKey, item, true⟩])) := by
  have hlogs : Logs E Call.creating w (createProcess E.alone kind draw name kindKey item w).2 :=
    logs_createProcess (E := E.alone) (fun _ => id) kind draw name kindKey item w
  cases hf : E.fate (.createContainer draw name) with
  | some e =>
    rw [createProcess_refused hf] at hlogs ⊢
    exact ⟨_, _, [], rfl, .nil rfl rfl rfl rfl hlogs, rfl, Or.inl ⟨_, rfl, by simp, Or.inl rfl⟩⟩
  | none =>
    cases hi : E.fate (.inspectContainer w.docker.nextId) with
    | some e =>
      rw [createProcess_orphan hf hi] at hlogs ⊢
      refine ⟨_, _, [⟨w.docker.nextId, kind, name, kindKey, item, false⟩], rfl, .single rfl rfl rfl ?_ rfl hlogs, rfl,
        Or.inl ⟨_, rfl, by simp, Or.inr rfl⟩⟩
      simp [Birth.rows]
    | none =>
      rw [createProcess_ok hf hi] at hlogs ⊢
      exact ⟨_, _, [⟨w.docker.nextId, kind, name, kindKey, item, true⟩], rfl, .single rfl rfl rfl rfl rfl hlogs, rfl,
        Or.inr ⟨rfl, rfl, rfl, rfl⟩⟩

end Nanocl.Runtime
