/-
The tasks of a cargo (`utils/container/cargo.rs`): `start`, `update` and `delete`; stopping it is `stop_instances`.
-/
import Nanocl.Runtime.Image

namespace Nanocl.Runtime

open Nanocl.Lib

variable (E : Env)

/-- `create_cargo_env` -/
def createCargoEnv (cargo : Cargo) (secretEnvs : List String) (current : ℕ) : List String :=
  cargo.spec.container.env.getD [] ++ secretEnvs ++
    ["NANOCL_NODE=" ++ E.hostname, "NANOCL_NODE_ADDR=" ++ E.gateway, "NANOCL_CARGO_KEY=" ++ cargo.key,
     "NANOCL_CARGO_NAMESPACE=" ++ cargo.namespaceName, "NANOCL_CARGO_INSTANCE=" ++ toString current]

/-- the labels that tell the containers of a cargo -/
def cargoLabels (cargo : Cargo) (role : String) (labels : Labels) : Labels :=
  Labels.insert (Labels.insert (Labels.insert (Labels.insert labels "io.nanocl.c" cargo.key) "io.nanocl.n"
    cargo.namespaceName) role "true") "com.docker.compose.project" ("nanocl_" ++ cargo.namespaceName)

/-! ## Init container -/

/-- the configuration of the init container -/
def initConfig (cargo : Cargo) (initContainer : Config) (image secretDir : String) (envSecrets : List String) :
    Config :=
  let hostConfig := initContainer.hostConfig.getD .default
  { initContainer with
    image := some image
    hostConfig := some { hostConfig with
      binds := some (hostConfig.binds.getD [] ++ [secretDir ++ ":/opt/nanocl.io/secrets"])
      networkMode := some (hostConfig.networkMode.getD "nanoclbr0") }
    env := some (createCargoEnv E cargo envSecrets 0)
    labels := some (cargoLabels cargo ProcessDb.initC (initContainer.labels.getD [])) }

/-- `create_init_container`; without an image of the cargo the default `unwrap` panics -/
def createInitContainer (cargo : Cargo) (initContainer : Config) : Io ProcessDb := do
  let some cargoImage := cargo.spec.container.image
    | Prog.fail (.interrupted "Panic" "called Option::unwrap() on a None value")
  let image := initContainer.image.getD cargoImage
  let secretDir ← createTlsSecrets E cargo.key .cargo cargo.spec.secrets
  download E image cargo.spec.imagePullSecret (cargo.spec.imagePullPolicy.getD .ifNotPresent)
  let envSecrets ← loadEnvSecrets E cargo.spec.secrets
  let (draw, shortId) ← generateShortId E
  createProcess E .cargo draw ("init-" ++ cargo.spec.name ++ "-" ++ shortId ++ "." ++ cargo.namespaceName ++ ".c")
    cargo.key (initConfig E cargo initContainer image secretDir envSecrets)

/-- `start_init_container` -/
def startInitContainer (p : ProcessDb) : Io Unit := do
  let _ ← orThrow "InitContainer" (startContainer E (.name p.name))
  let _ ← orInterrupted "InitContainer" (waitContainer E (.name p.name))
  return ()

/-! ## Instances -/

/-- the configuration of instance `current` -/
def instanceConfig (cargo : Cargo) (secretDir : String) (envSecrets : List String) (current : ℕ) : Config :=
  let container := cargo.spec.container
  let hostConfig := container.hostConfig.getD .default
  let ordinalIndex := if current > 0 then toString current else ""
  { container with
    attachStderr := some true
    attachStdout := some true
    tty := some true
    hostname := some (ordinalIndex ++ container.hostname.getD cargo.spec.name)
    labels := some (cargoLabels cargo ProcessDb.notInitC (container.labels.getD []))
    env := some (createCargoEnv E cargo envSecrets current)
    hostConfig := some { hostConfig with
      restartPolicy := some (hostConfig.restartPolicy.getD "always")
      networkMode := some "nanoclbr0"
      binds := some (hostConfig.binds.getD [] ++ [secretDir ++ ":/opt/nanocl.io/secrets"]) } }

/-- the host configuration asks docker to remove the container when it ends -/
def Config.autoRemove (c : Config) : Bool := ((c.hostConfig.getD .default).autoRemove).getD false

/-- the future of instance `current` -/
def createInstance (cargo : Cargo) (secretDir : String) (envSecrets : List String) (current : ℕ) : Io ProcessDb := do
  let (draw, shortId) ← generateShortId E
  if cargo.spec.container.autoRemove then
    Prog.fail (.interrupted "CargoCreate" "Auto remove is not allowed for cargo use a job instead")
  else
    createProcess E .cargo draw (cargo.spec.name ++ "-" ++ shortId ++ "." ++ cargo.namespaceName ++ ".c") cargo.key
      (instanceConfig E cargo secretDir envSecrets current)

/-- `create` -/
def create (cargo : Cargo) (number : ℕ) : Io (List ProcessDb) := do
  let cargo ← injectData E cargo
  download E (cargo.spec.container.image.getD "") cargo.spec.imagePullSecret
    (cargo.spec.imagePullPolicy.getD .ifNotPresent)
  let envSecrets ← loadEnvSecrets E cargo.spec.secrets
  let secretDir ← createTlsSecrets E cargo.key .cargo cargo.spec.secrets
  Prog.joinAll (List.range number) (createInstance E cargo secretDir envSecrets)

/-- the number of instances of a spec -/
def CargoSpec.number (spec : CargoSpec) : ℕ :=
  match spec.replication with
  | some (.static replicas) => replicas.number.toNat
  | _ => 1

/-! ## Tasks -/

/-- `start` -/
def start (key : String) : Io Unit := do
  let cargo ← readCargo E key
  let processes ← readByKindKey E cargo.key (some (ProcessDb.labelFilter ProcessDb.notInitC))
  let initProcess ← readByKindKey E cargo.key (some (ProcessDb.labelFilter ProcessDb.initC))
  startInit cargo initProcess
  if processes.isEmpty then
    let _ ← create E cargo cargo.spec.number
  startInstances E cargo.key .cargo
where
  /-- run the init container, created before or now -/
  startInit (cargo : Cargo) (initProcess : List ProcessDb) : Io Unit :=
    match cargo.spec.initContainer with
    | none => return ()
    | some initContainer =>
      match initProcess with
      | [] => do
        let p ← createInitContainer E cargo initContainer
        startInitContainer E p
      | p :: _ => startInitContainer E p

/-- the row says that docker is restarting the container -/
def isRestarting (p : ProcessDb) : Bool := ((p.data.state.getD .default).restarting).getD false

/-- the future that flags an old instance for deletion -/
def flagOld (p : ProcessDb) : Io Unit := do
  if isRestarting p then
    let _ ← orThrow "StopContainer" (stopContainer E (.name p.name))
  let _ ← orThrow "RenameContainer" (renameContainer E (.id p.key) ("tmp-" ++ p.name))
  return ()

/-- the future that gives an old instance its name back -/
def renameBack (p : ProcessDb) : Io Unit := do
  let _ ← orThrow "RenameContainer" (renameContainer E (.id p.key) p.name)
  return ()

/-- `update` -/
def update (key : String) : Io Unit := do
  let cargo ← readCargo E key
  let processes ← readByKindKey E key none
  let _ ← Prog.joinAll processes (flagOld E)
  runInit cargo
  let newInstances ← create E cargo cargo.spec.number
  finish processes newInstances
  updateActualStatus E key .start
  emitNormal E .cargo cargo.key .start
where
  /-- create the init container and run it -/
  runInit (cargo : Cargo) : Io Unit :=
    match cargo.spec.initContainer with
    | none => return ()
    | some initContainer => do
      let p ← createInitContainer E cargo initContainer
      startInitContainer E p
  /-- start the new instances; then remove the old ones in the background, or the new ones now -/
  finish (processes newInstances : List ProcessDb) : Io Unit := do
    match ← Prog.attempt (startInstances E key .cargo) with
    | .error _ =>
      let _ ← (Prog.attempt (deleteInstances E (newInstances.map fun p => .id p.key)) : Io (Except IoError Unit))
      let _ ← (Prog.attempt (Prog.joinAll processes (renameBack E)) : Io (Except IoError (List Unit)))
    | .ok _ => Prog.modify fun w => { w with removals := w.removals ++ processes.map fun p => ⟨p.key, false⟩ }

/-- `CargoDb::clear_by_pk` -/
def clearCargo (key : String) : Io Unit :=
  modifyDb E fun db =>
    { db with cargoes := Function.update db.cargoes key none, statuses := Function.update db.statuses key none }

/-- the body of the loop of `delete`: both results are discarded -/
def dropProcess (p : ProcessDb) : Io Unit := do
  let _ ← stopContainer E (.id p.key)
  let _ ← removeContainer E (.id p.key) false
  return ()

/-- `delete` -/
def delete (key : String) : Io Unit := do
  let processes ← readByKindKey E key none
  Prog.forEach processes (dropProcess E)
  let cargo ← readCargo E key
  clearCargo E key
  emitNormal E .cargo cargo.key .destroy

end Nanocl.Runtime
