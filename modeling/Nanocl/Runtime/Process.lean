/-
The operations on the processes of an object (`utils/container/process.rs`) and the event each of them ends with
(`utils/container/generic.rs`).
-/
import Nanocl.Runtime.World

namespace Nanocl.Runtime

open Nanocl.Lib

variable (E : Env)

/-- the actor of an object of the kind -/
def actorKind : ProcessKind → EventActorKind
  | .vm => .vm
  | .cargo => .cargo
  | .job => .job

/-- `generic::emit`; the update of a job's `updated_at` fails where its row is missing -/
def emit (kindKey : String) (kind : ProcessKind) (action : NativeEventAction) : Io Unit :=
  match kind with
  | .vm => do
    let vm ← readVm E kindKey
    emitNormal E .vm vm.key action
  | .cargo => do
    let cargo ← readCargo E kindKey
    emitNormal E .cargo cargo.key action
  | .job => do
    let _ ← readRow E "JobDb" (·.jobs kindKey)
    let job ← readJob E kindKey
    emitNormal E .job job.name action

/-- the reference `process.data.id.unwrap_or_default()` -/
def dataId (p : ProcessDb) : Ref :=
  match p.data.id with
  | some id => .id id
  | none => .name ""

@[simp] theorem dataId_eq (p : ProcessDb) : dataId p = .id p.key := by
  rw [dataId, p.data_id]

/-- `process::create` -/
def createProcess (kind : ProcessKind) (draw : ℕ) (name kindKey : String) (item : Config) : Io ProcessDb := do
  let labels := Labels.insert (Labels.insert (item.labels.getD []) "io.nanocl" "enabled") "io.nanocl.kind" kind.display
  let config := { item with labels := some labels }
  let id ← orThrow "CreateProcess" (createContainer E draw name config)
  let container ← orThrow "CreateProcess" (inspectContainer E id)
  insertProcess E ⟨id, name, kind, kindKey, E.hostname, container.created, container.inspect id,
    container.inspect_id id⟩

/-- `delete_instance`: a container that is gone already counts as removed -/
def deleteInstance (pk : Ref) (force : Bool) : Io Unit := do
  match ← removeContainer E pk force with
  | .ok _ => pure ()
  | .error e =>
    if e.statusCode ≠ some 404 then
      Prog.fail (.interrupted "DeleteProcess" ("Error while deleting container: " ++ e.display))
  deleteProcessByPk E pk

/-- `delete_instances` -/
def deleteInstances (instances : List Ref) : Io Unit := do
  let _ ← Prog.joinAll instances fun pk => deleteInstance E pk true
  return ()

/-- the body of the loop of `kill_by_kind_key` -/
def killProcess (p : ProcessDb) : Io Unit := do
  let _ ← orThrow "KillProcess" (killContainer E (.id p.key))
  return ()

/-- `kill_by_kind_key` -/
def killByKindKey (pk : String) : Io Unit := do
  let processes ← readByKindKey E pk none
  Prog.forEach processes (killProcess E)

/-- the body of the loop of `restart_instances` -/
def restartProcess (p : ProcessDb) : Io Unit := do
  let _ ← orThrow "RestartProcess" (restartContainer E (.id p.key))
  return ()

/-- `restart_instances` -/
def restartInstances (pk : String) (kind : ProcessKind) : Io Unit := do
  let processes ← readByKindKey E pk none
  Prog.forEach processes (restartProcess E)
  emit E pk kind .restart

/-- the body of the loop of `stop_instances` -/
def stopProcess (p : ProcessDb) : Io Unit := do
  let _ ← orThrow "StopProcess" (stopContainer E (dataId p))
  return ()

/-- `stop_instances` -/
def stopInstances (kindPk : String) (kind : ProcessKind) : Io Unit := do
  let processes ← readByKindKey E kindPk none
  Prog.forEach processes (stopProcess E)
  updateActualStatus E kindPk .stop
  emit E kindPk kind .stop

/-- the body of the loop of `start_instances` -/
def startProcess (p : ProcessDb) : Io Unit := do
  let _ ← orThrow "StartProcess" (startContainer E (dataId p))
  return ()

/-- `start_instances` -/
def startInstances (kindKey : String) (kind : ProcessKind) : Io Unit := do
  let processes ← readByKindKey E kindKey (some (ProcessDb.labelFilter ProcessDb.notInitC))
  Prog.forEach processes (startProcess E)
  updateActualStatus E kindKey .start
  emit E kindKey kind .start

/-! ## Running alone -/

section Alone

variable {E}

theorem Docker.call_missing {c : Call} {id : ContainerId} {d : Docker} (h : d.containers id = none) :
    ∃ e, d.call E c (.id id) = (.error e, d.record c none false) := by
  cases hf : E.fate c with
  | none => exact ⟨noSuchContainer, by simp [Docker.call, Docker.find, h, hf]⟩
  | some e => exact ⟨e, by simp [Docker.call, Docker.find, h, hf]⟩

theorem Docker.call_refused {c : Call} {id : ContainerId} {d : Docker} {x : Container} {e : DockerError}
    (h : d.containers id = some x) (hf : E.fate c = some e) :
    d.call E c (.id id) = (.error e, d.record c (some id) false) := by
  simp [Docker.call, Docker.find, h, hf]

theorem Docker.call_ok {c : Call} {ref : Ref} {d : Docker} {id : ContainerId} {x : Container} {code : ℤ}
    {x' : Option Container} (hf : E.fate c = none) (hfind : d.find ref = some (id, x))
    (hon : onContainer E c id x = .ok (code, x')) :
    d.call E c ref = (.ok code, (d.setContainer id x').record c (some id) true) := by
  simp only [Docker.call, hf, hfind, hon]

theorem Docker.find_id {d : Docker} {id : ContainerId} {x : Container} (h : d.containers id = some x) :
    d.find (.id id) = some (id, x) := by
  simp [Docker.find, h]

theorem Docker.containers_of_find {ref : Ref} {d : Docker} {id : ContainerId} {x : Container}
    (h : d.find ref = some (id, x)) : d.containers id = some x := by
  cases ref with
  | id i =>
    obtain ⟨y, hy, heq⟩ := Option.map_eq_some_iff.1 h
    obtain ⟨rfl, rfl⟩ := Prod.mk.inj heq
    exact hy
  | name n =>
    obtain ⟨i, -, hi⟩ := List.exists_of_findSome?_eq_some h
    obtain ⟨y, hy, heq⟩ := Option.map_eq_some_iff.1 hi
    obtain ⟨rfl, rfl⟩ := Prod.mk.inj heq
    exact (Option.filter_eq_some_iff.1 hy).1

/-- a call leaves the containers as they are, or changes the one it is about as docker answers -/
theorem Docker.call_cases (c : Call) (ref : Ref) (d : Docker) :
    (d.call E c ref).2.containers = d.containers ∨
    ∃ id x code x', d.find ref = some (id, x) ∧ onContainer E c id x = .ok (code, x') ∧
      (d.call E c ref).2.containers = Function.update d.containers id x' := by
  unfold Docker.call
  split
  · exact Or.inl rfl
  · exact Or.inl rfl
  · rename_i id x _ hfind
    split
    · exact Or.inl rfl
    · rename_i code x' hon
      exact Or.inr ⟨id, x, code, x', hfind, hon, rfl⟩

theorem callInert_containers (c : Call) (d : Docker) :
    (d.callInert E c).2.containers = d.containers ∧ (d.callInert E c).2.nextId = d.nextId := by
  unfold Docker.callInert
  cases E.fate c <;> exact ⟨rfl, rfl⟩

/-- otherwise it fails -/
theorem waitContainer_error (context : String) {ref : Ref} {w : World}
    (h : (w.docker.call E.alone (.waitContainer ref) ref).1 ≠ .ok 0) :
    ∃ e, (orInterrupted context (waitContainer E.alone ref) w).1 = .error e := by
  rcases hc : w.docker.call E.alone (.waitContainer ref) ref with ⟨e | code, d⟩
  · have hwait : waitContainer E.alone ref w = (.ok (.error e), w.called d) := by
      refine (Prog.bind_of_ok (await_alone E _ w)).trans ?_
      rw [hc]
      rfl
    exact ⟨_, congrArg Prod.fst ((Prog.bind_of_ok hwait).trans rfl)⟩
  · rw [hc] at h
    have hcode : code ≠ 0 := fun h0 => h (congrArg Except.ok h0)
    have hwait : waitContainer E.alone ref w = (.ok (.error ⟨none, "Docker container wait error"⟩), w.called d) := by
      refine (Prog.bind_of_ok (await_alone E _ w)).trans ?_
      rw [hc]
      simp only [if_neg hcode]
      rfl
    exact ⟨_, congrArg Prod.fst ((Prog.bind_of_ok hwait).trans rfl)⟩

/-- a status after the daemon has written its actual status -/
def ObjPsStatus.setActual (s : ObjPsStatus) (status : ObjPsStatusKind) : ObjPsStatus :=
  if s.actual = status then s else { s with actual := status, prevActual := s.actual }

theorem updateActualStatus_alone {key : String} (status : ObjPsStatusKind) {w : World} {s : ObjPsStatus}
    (h : w.db.statuses key = some s) :
    ∃ n, updateActualStatus E.alone key status w = (.ok (), ⟨w.docker,
      { w.db with statuses := Function.update w.db.statuses key (some (s.setActual status)) },
      w.removals, w.draws, n⟩) := by
  have hread : readRow E.alone "ObjPsStatusDb" (·.statuses key) w = (.ok s, w.tick) := by
    rw [readRow_alone, h]
    rfl
  unfold updateActualStatus
  rw [Prog.bind_of_ok hread]
  by_cases hs : s.actual = status
  · have hself : Function.update w.db.statuses key (some s) = w.db.statuses := by rw [← h, Function.update_eq_self]
    refine ⟨w.ticks + 1, ?_⟩
    simp only [hs, if_true, ObjPsStatus.setActual, hself]
    rfl
  · refine ⟨w.ticks + 2, ?_⟩
    simp only [hs, if_false, ObjPsStatus.setActual]
    rfl

/-- the key of the object in the events about it -/
def Database.actor (db : Database) (kind : ProcessKind) (key : String) : Option String :=
  match kind with
  | .vm => (db.readVm key).map Vm.key
  | .cargo => (db.readCargo key).map Cargo.key
  | .job => (db.readJob key).map Job.name

theorem emit_alone {key k : String} {kind : ProcessKind} (action : NativeEventAction) {w : World}
    (h : w.db.actor kind key = some k) :
    ∃ n, emit E.alone key kind action w =
      (.ok (), ⟨w.docker, w.db.emit ⟨.normal, action, actorKind kind, k⟩, w.removals, w.draws, n⟩) := by
  cases kind with
  | vm =>
    obtain ⟨vm, hvm, rfl⟩ := Option.map_eq_some_iff.1 h
    exact ⟨_, (Prog.bind_of_ok (readVm_alone E hvm)).trans rfl⟩
  | cargo =>
    obtain ⟨cargo, hcargo, rfl⟩ := Option.map_eq_some_iff.1 h
    exact ⟨_, (Prog.bind_of_ok (readCargo_alone E hcargo)).trans rfl⟩
  | job =>
    obtain ⟨job, hjob, rfl⟩ := Option.map_eq_some_iff.1 h
    have hrow : readRow E.alone "JobDb" (·.jobs key) w = (.ok job, w.tick) := by
      rw [readRow_alone, (Option.filter_eq_some_iff.1 hjob).1]
      rfl
    exact ⟨_, (Prog.bind_of_ok hrow).trans ((Prog.bind_of_ok (readJob_alone E (w := w.tick) hjob)).trans rfl)⟩

end Alone

end Nanocl.Runtime
