/-
The tasks of a job (`utils/container/job.rs`) and the deletion of a VM (`utils/container/vm.rs`).
-/
import Nanocl.Runtime.Image

namespace Nanocl.Runtime

open Nanocl.Lib

variable (E : Env)

/-! ## Jobs -/

/-- the configuration of a container of a job -/
def jobConfig (job : Job) (container : Config) (envSecrets : List String) (secretDir : String) : Config :=
  let hostConfig := container.hostConfig.getD .default
  { container with
    labels := some (Labels.insert (container.labels.getD []) "io.nanocl.j" job.name)
    env := some (container.env.getD [] ++ envSecrets)
    hostConfig := some { hostConfig with
      networkMode := some (hostConfig.networkMode.getD "nanoclbr0")
      binds := some (hostConfig.binds.getD [] ++ [secretDir ++ "/:/opt/nanocl.io/secrets"]) } }

/-- `create_instance` -/
def createJobInstance (job : Job) (index : ℕ) (container : Config) : Io ProcessDb := do
  let envSecrets ← loadEnvSecrets E job.secrets
  let secretDir ← createTlsSecrets E job.name .job job.secrets
  let (draw, shortId) ← generateShortId E
  createProcess E .job draw (job.name ++ "-" ++ toString index ++ "-" ++ shortId ++ ".j") job.name
    (jobConfig job container envSecrets secretDir)

/-- the loop of `create_instances`, from the container of index `index` on -/
def createInstancesFrom (job : Job) (index : ℕ) : List Config → Io (List ProcessDb)
  | [] => return []
  | container :: containers => do
    download E (container.image.getD "") job.imagePullSecret (job.imagePullPolicy.getD .ifNotPresent)
    let p ← createJobInstance E job index container
    let processes ← createInstancesFrom job (index + 1) containers
    return p :: processes

/-- `create_instances` -/
def createInstances (job : Job) : Io (List ProcessDb) := createInstancesFrom E job 0 job.containers

/-- start one container of the job and wait for its end; whether the start succeeds is not looked at -/
def runProcess (p : ProcessDb) : Io Unit := do
  let _ ← startContainer E (.id p.key)
  let _ ← orInterrupted "JobCreate" (waitContainer E (.id p.key))
  return ()

/-- `job::start` -/
def startJob (key : String) : Io Unit := do
  let job ← readJob E key
  let existing ← readByKindKey E job.name none
  let processes ← if existing.isEmpty then createInstances E job else pure existing
  updateActualStatus E key .start
  emitNormal E .job job.name .start
  Prog.forEach processes (runProcess E)

/-- `JobDb::clear_by_pk` -/
def clearJob (key : String) : Io Unit :=
  modifyDb E fun db =>
    { db with jobs := Function.update db.jobs key none, statuses := Function.update db.statuses key none }

/-- `job::delete` -/
def deleteJob (key : String) : Io Unit := do
  let job ← readJob E key
  let processes ← readByKindKey E key none
  deleteInstances E (processes.map fun p => .id p.key)
  clearJob E job.name
  if job.schedule.isSome then
    orThrow "Cron job" (await E (Docker.callInert E (.removeCronRule job.name)))
  emitNormal E .job job.name .destroy

/-! ## VMs -/

/-- `vm_image::delete_by_pk` -/
def deleteVmImage (pk : String) : Io Unit := do
  let image ← readRow E "VmImageDb" fun db => db.vmImages.find? fun i => i.name = pk
  let children ← readRow E "VmImageDb" fun db => some (db.vmImages.filter fun i => i.parent = some pk)
  if !children.isEmpty then
    Prog.fail ⟨"HttpError", .invalidData, "Vm image " ++ pk ++ " has children images please delete them first"⟩
  else
    modifyDb E fun db => { db with vmImages := db.vmImages.filter fun i => i.name ≠ image.name }

/-- `VmDb::clear_by_pk` -/
def clearVm (key : String) : Io Unit :=
  modifyDb E fun db =>
    { db with vms := Function.update db.vms key none, statuses := Function.update db.statuses key none }

/-- `vm::delete` -/
def deleteVm (key : String) : Io Unit := do
  let vm ← readVm E key
  let processes ← readByKindKey E key none
  deleteInstances E (processes.map fun p => .id p.key)
  deleteVmImage E vm.diskImage
  clearVm E vm.key
  emitNormal E .vm vm.key .destroy

end Nanocl.Runtime
