/-
The status row of an object (`models/object_process_status.rs`) and the operations of the daemon that write it.

Each operation reads the row, computes from what it read the columns to change, and then changes them with one update.
Only the restart synchronisation (`utils/system.rs::sync_cargo_status`) writes without reading. The handlers of docker
events read the row once more before that, to decide whether there is something to write.
-/
import Nanocl.Runtime.Process

namespace Nanocl.Status

export Runtime (ObjPsStatus)

/-- the columns an update changes: `ObjPsStatusUpdate` -/
structure ObjPsStatusUpdate where
  wanted : Option ObjPsStatusKind
  prevWanted : Option ObjPsStatusKind
  actual : Option ObjPsStatusKind
  prevActual : Option ObjPsStatusKind
deriving DecidableEq

/-- `update_pk` on the row -/
def ObjPsStatusUpdate.set (u : ObjPsStatusUpdate) (s : ObjPsStatus) : ObjPsStatus where
  wanted := u.wanted.getD s.wanted
  prevWanted := u.prevWanted.getD s.prevWanted
  actual := u.actual.getD s.actual
  prevActual := u.prevActual.getD s.prevActual

/-- the row that the creation of a cargo, a job or a VM stores -/
def created : ObjPsStatus := ⟨.create, .create, .create, .create⟩

/-- the operations that read the row and then write it -/
inductive Writer where
  /-- `generic.rs::emit_starting`: a start request, and the schedule of a job -/
  | emitStarting (kind : ProcessKind)
  /-- `generic.rs::emit_stopping` -/
  | emitStopping
  /-- `fn_del_obj_by_pk` of cargoes, jobs and VMs -/
  | delObjByPk
  /-- `fn_put_obj_by_pk` of cargoes and VMs, to which a patch and a revert lead as well -/
  | putObjByPk
  /-- `update_actual_status`: the tasks, `on_error`, `job_ttl`, the update of a secret, the docker events -/
  | updateActualStatus (status : ObjPsStatusKind)
deriving DecidableEq, Repr

/-- the actual status the operation writes -/
def Writer.actual : Writer → ObjPsStatusKind
  | .emitStarting _ => .starting
  | .emitStopping => .stopping
  | .delObjByPk => .destroying
  | .putObjByPk => .updating
  | .updateActualStatus status => status

/-- the wanted status the operation writes, if it writes one -/
def Writer.wanted : Writer → Option ObjPsStatusKind
  | .emitStarting kind => some (if kind = .job then .finish else .start)
  | .emitStopping => some .stop
  | .delObjByPk => some .destroy
  | .putObjByPk => some .start
  | .updateActualStatus _ => none

/-- the update an operation computes from the row it read; `none` where it returns without writing -/
def Writer.update (w : Writer) (cur : ObjPsStatus) : Option ObjPsStatusUpdate :=
  match w with
  | .emitStarting kind =>
    let wanted := if kind = .job then .finish else .start
    some ⟨some wanted, some cur.wanted, some .starting, some cur.actual⟩
  | .emitStopping =>
    if cur.actual = .stop then none else some ⟨some .stop, some cur.wanted, some .stopping, some cur.actual⟩
  | .delObjByPk => some ⟨some .destroy, some cur.wanted, some .destroying, some cur.actual⟩
  | .putObjByPk => some ⟨some .start, some cur.wanted, some .updating, some cur.actual⟩
  | .updateActualStatus status =>
    if cur.actual = status then none else some ⟨none, none, some status, some cur.actual⟩

/-- what every operation that writes writes: its own actual and wanted status, and as previous ones what it read -/
theorem Writer.update_eq {w : Writer} {cur : ObjPsStatus} {u : ObjPsStatusUpdate} (h : w.update cur = some u) :
    u = ⟨w.wanted, w.wanted.map fun _ => cur.wanted, some w.actual, some cur.actual⟩ := by
  cases w with
  | emitStarting kind =>
    obtain rfl := Option.some.inj h
    rfl
  | emitStopping =>
    by_cases hs : cur.actual = .stop
    · simp [Writer.update, hs] at h
    · obtain rfl : _ = u := by simpa [Writer.update, hs] using h
      rfl
  | delObjByPk =>
    obtain rfl := Option.some.inj h
    rfl
  | putObjByPk =>
    obtain rfl := Option.some.inj h
    rfl
  | updateActualStatus status =>
    by_cases hs : cur.actual = status
    · simp [Writer.update, hs] at h
    · obtain rfl : _ = u := by simpa [Writer.update, hs] using h
      rfl

/-- the status of the main process of a container in docker's inspection -/
inductive ContainerStateStatusEnum where
  | empty | created | running | paused | restarting | removing | exited | dead
deriving DecidableEq, Repr

/-- the actual status `sync_cargo_status` derives from the state of a container -/
def syncStatus : ContainerStateStatusEnum → Option ObjPsStatusKind
  | .running => some .start
  | .restarting => some .fail
  | .dead => some .stop
  | .exited => some .stop
  | _ => none

/-- `sync_cargo_status`: it reads nothing and leaves the previous columns as they are -/
def syncCargoStatus (status : Option ContainerStateStatusEnum) : Option ObjPsStatusUpdate :=
  (status.bind syncStatus).map fun newStatus => ⟨some .start, none, some newStatus, none⟩

/-- the docker events on which `exec_docker` writes the status, for a container of the object -/
inductive DockerEvent where
  | start (kind : ProcessKind)
  | die (kind : ProcessKind) (name : String)
deriving DecidableEq, Repr

/-- `exec_docker`: the actual status it sets, from the row it read -/
def DockerEvent.sets (e : DockerEvent) (cur : ObjPsStatus) : Option ObjPsStatusKind :=
  match e with
  | .start kind => if kind ≠ .job ∧ cur.actual ≠ .start then some .start else none
  | .die kind name =>
    if "tmp-".toList.isPrefixOf name.toList || "init-".toList.isPrefixOf name.toList then none
    else if kind ≠ .job ∧ cur.wanted ≠ .stop then some .fail
    else none

end Nanocl.Status
