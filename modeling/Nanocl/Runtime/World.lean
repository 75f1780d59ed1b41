/-
What the tasks of `utils/container` act on: docker with its containers, the rows of the database, the events they
emit. A task is a program over this world (`Io`).

Docker does what its API documents: an operation on a container that does not exist answers 404, starting a running
container and stopping one that is not running change nothing, removing a running one without force and killing one
that is not running answer 409. On top of that every single call may fail (`Env.fate`), for whatever reason, a name that
is in use included. A call that fails changes nothing. The database answers every query.

The spawned removals of old instances run between the calls of whatever task is running (`Env.interference`); a task
that runs alone is one with `Env.alone`.
-/
import Nanocl.Lib.Prog
import Nanocl.Store.Process
import Nanocl.System.Event

namespace Nanocl.Runtime

open Nanocl.Lib

/-! ## Errors -/

inductive IoErrorKind where
  | notFound | interrupted | invalidData | invalidInput
deriving DecidableEq

structure IoError where
  context : String
  kind : IoErrorKind
  message : String
deriving DecidableEq

def IoError.interrupted (context message : String) : IoError := ⟨context, .interrupted, message⟩

/-- an error of the docker client; only an answer of the server has a status code -/
structure DockerError where
  statusCode : Option ℕ
  message : String
deriving DecidableEq

def DockerError.display (e : DockerError) : String :=
  match e.statusCode with
  | some code => "Docker responded with status code " ++ toString code ++ ": " ++ e.message
  | none => e.message

/-- `map_err_context` on a docker error -/
def DockerError.withContext (e : DockerError) (context : String) : IoError := ⟨context, .invalidData, e.display⟩

/-! ## Docker -/

/-- a device of the host and where the container finds it -/
structure DeviceMapping where
  pathOnHost : String
  pathInContainer : String
  cgroupPermissions : String
deriving DecidableEq

structure HostConfig where
  binds : Option (List String)
  networkMode : Option String
  restartPolicy : Option String
  autoRemove : Option Bool
  devices : Option (List DeviceMapping) := none
  capAdd : Option (List String) := none
  /-- the other fields that are set, by their name -/
  others : List (String × String) := []
deriving DecidableEq

def HostConfig.default : HostConfig := ⟨none, none, none, none, none, none, []⟩

/-- a container's configuration: the fields that the daemon sets, and the others -/
structure Config where
  image : Option String
  env : Option (List String)
  labels : Option Labels
  hostname : Option String
  tty : Option Bool
  attachStderr : Option Bool
  attachStdout : Option Bool
  hostConfig : Option HostConfig
  cmd : Option (List String) := none
  attachStdin : Option Bool := none
  openStdin : Option Bool := none
  /-- the other fields that are set, by their name -/
  others : List (String × String) := []
deriving DecidableEq

def Config.default : Config := ⟨none, none, none, none, none, none, none, none, none, none, none, []⟩

/-- `HashMap::insert` on labels -/
def Labels.insert (l : Labels) (key value : String) : Labels := (l.filter fun p => p.1 ≠ key) ++ [(key, value)]

@[simp] theorem Labels.has_insert (l : Labels) (key value : String) : (Labels.insert l key value).has key value = true := by
  simp [Labels.insert, Labels.has, List.find?_append, List.find?_eq_none.2]

theorem Labels.has_insert_ne (l : Labels) {key key' : String} (h : key ≠ key') (value value' : String) :
    (Labels.insert l key value).has key' value' = l.has key' value' := by
  have hf : (l.filter fun p => p.1 ≠ key).find? (fun p => p.1 = key') = l.find? fun p => p.1 = key' := by
    rw [List.find?_filter]
    refine List.find?_congr fun p _ => ?_
    by_cases hp : p.1 = key' <;> simp [hp, h.symm]
  simp only [Labels.insert, Labels.has, List.find?_append, hf]
  cases l.find? fun p => p.1 = key' <;> simp [h]

structure Container where
  name : String
  config : Config
  running : Bool
  restarting : Bool
  exitCode : ℤ
  /-- zero until the container has run -/
  finishedAt : String
  created : ℤ
deriving DecidableEq

def Container.labels (c : Container) : Labels := c.config.labels.getD []

/-- docker's inspection of a container -/
def Container.inspect (id : ContainerId) (c : Container) : ContainerInspect where
  id := some id
  state := some ⟨some c.running, some c.restarting, some c.finishedAt, some c.exitCode, some ""⟩
  labels := c.labels

theorem Container.inspect_id (c : Container) (id : ContainerId) : (c.inspect id).id = some id := rfl

theorem Container.inspect_key (c : Container) (p : ProcessDb) : (c.inspect p.key).id = some p.key := rfl

/-- the container a call names: by its id or by its name -/
inductive Ref where
  | id (id : ContainerId)
  | name (name : String)
deriving DecidableEq

/-- the fallible steps of the tasks outside the daemon: the calls to docker, and the secrets, the images and the cron
rules it reads and writes -/
inductive Call where
  | inspectNetwork
  /-- the draw tells apart the steps of one task that prepare or create a container -/
  | createImage (draw : ℕ) (fromImage tag : String) (secret : Option String)
  | loadEnvSecrets (draw : ℕ)
  | createTlsSecrets (draw : ℕ)
  | removeCronRule (job : String)
  | createContainer (draw : ℕ) (name : String)
  | inspectContainer (id : ContainerId)
  | startContainer (ref : Ref)
  | waitContainer (ref : Ref)
  | stopContainer (ref : Ref)
  | renameContainer (ref : Ref) (name : String)
  | removeContainer (ref : Ref) (force : Bool)
  | killContainer (ref : Ref)
  | restartContainer (ref : Ref)
deriving DecidableEq

/-- a call that was made: the container it was about, and whether it succeeded -/
structure LogEntry where
  call : Call
  id : Option ContainerId
  ok : Bool
deriving DecidableEq

/-! ## Objects -/

structure ReplicationStatic where
  number : UInt64
deriving DecidableEq

inductive ReplicationMode where
  | auto
  | unique
  | uniqueByNode
  | uniqueByNodeGroups (groups : List String)
  | uniqueByNodeNames (names : List String)
  | static (replicas : ReplicationStatic)
  | staticByNodes (replicas : ReplicationStatic)
  | staticByNodeGroups (groups : List String) (number : Int64)
  | staticByNodeNames (names : List String) (number : Int64)
deriving DecidableEq

inductive ImagePullPolicy where
  | never | always | ifNotPresent
deriving DecidableEq

structure CargoSpec where
  name : String
  initContainer : Option Config
  secrets : Option (List String)
  imagePullSecret : Option String
  imagePullPolicy : Option ImagePullPolicy
  container : Config
  replication : Option ReplicationMode
deriving DecidableEq

/-- a cargo with its current spec; the kind key of the spec is the key of the cargo -/
structure Cargo where
  key : String
  namespaceName : String
  spec : CargoSpec
deriving DecidableEq

structure Job where
  name : String
  containers : List Config
  secrets : Option (List String)
  imagePullSecret : Option String
  imagePullPolicy : Option ImagePullPolicy
  schedule : Option String
  ttl : Option ℕ
deriving DecidableEq

structure VmHostConfig where
  cpu : ℕ
  memory : ℕ
  netIface : Option String
  linkNetIface : Option String
  kvm : Option Bool
  runtime : Option String
  runtimeNetwork : Option String
deriving DecidableEq

/-- `VmHostConfig::default` -/
def VmHostConfig.default : VmHostConfig := ⟨1, 512, none, none, none, none, none⟩

/-- the fields of a VM that its tasks read -/
structure Vm where
  key : String
  namespaceName : String
  diskImage : String
  hostname : Option String
  user : Option String
  password : Option String
  sshKey : Option String
  hostConfig : VmHostConfig
deriving DecidableEq

structure VmImage where
  name : String
  parent : Option String
  path : String
deriving DecidableEq

structure ObjPsStatus where
  wanted : ObjPsStatusKind
  prevWanted : ObjPsStatusKind
  actual : ObjPsStatusKind
  prevActual : ObjPsStatusKind
deriving DecidableEq

/-- an event the daemon emits about one of its objects -/
structure Emitted where
  kind : EventKind
  action : NativeEventAction
  actorKind : EventActorKind
  key : String
deriving DecidableEq

/-! ## World -/

/-- an old instance whose removal was spawned -/
structure Removal where
  id : ContainerId
  /-- docker has answered; the row is still there -/
  removed : Bool
deriving DecidableEq

/-- docker, with the calls it was asked for -/
structure Docker where
  containers : ContainerId → Option Container
  /-- the id of the next container -/
  nextId : ContainerId
  log : List LogEntry

/-- the database, with the events the daemon emitted; the tables other than the processes are read by key -/
structure Database where
  processes : List ProcessDb
  cargoes : String → Option Cargo
  jobs : String → Option Job
  vms : String → Option Vm
  vmImages : List VmImage
  statuses : String → Option ObjPsStatus
  events : List Emitted

structure World where
  docker : Docker
  db : Database
  removals : List Removal
  /-- how many short ids were drawn -/
  draws : ℕ
  /-- how many times a task was suspended -/
  ticks : ℕ

/-- a step of the spawned removals -/
inductive RemovalStep where
  /-- docker removes the container -/
  | remove (id : ContainerId)
  /-- docker refuses; the result is discarded -/
  | refused (id : ContainerId)
  /-- the row is deleted -/
  | deleteRow (id : ContainerId)
deriving DecidableEq

structure Env where
  externals : Externals
  hostname : String
  gateway : String
  stateDir : String
  /-- the gateway of the network `nanoclbr0` -/
  internalGateway : String
  /-- the image is on the node -/
  imagePresent : String → Bool
  /-- the environment variables of the secrets -/
  envSecrets : List String → List String
  /-- the random short ids, in the order they are drawn -/
  shortId : ℕ → String
  /-- the exit code of a container when it ends -/
  exit : ContainerId → ℤ
  /-- when it ends -/
  finishedAt : ContainerId → String
  /-- the calls that fail -/
  fate : Call → Option DockerError
  /-- the steps of the spawned removals at each suspension of a task -/
  interference : ℕ → List RemovalStep

/-- the same environment, with no removal going on -/
def Env.alone (E : Env) : Env := { E with interference := fun _ => [] }

abbrev Io := Prog World IoError

/-- an environment where no call fails and every container ends well -/
def Env.plain : Env where
  externals := plainExternals
  hostname := "node"
  gateway := "10.0.0.1"
  stateDir := "/var/lib/nanocl"
  internalGateway := "10.0.0.2"
  imagePresent _ := true
  envSecrets _ := []
  shortId n := toString n
  exit _ := 0
  finishedAt _ := "2024-01-01T00:00:00Z"
  fate _ := none
  interference _ := []

/-! ### Docker -/

namespace Docker

def setContainer (d : Docker) (id : ContainerId) (c : Option Container) : Docker :=
  { d with containers := Function.update d.containers id c }

/-- the container a reference names; names are unique, so the order of the search does not matter -/
def find (d : Docker) : Ref → Option (ContainerId × Container)
  | .id id => (d.containers id).map fun c => (id, c)
  | .name name => (List.range d.nextId).reverse.findSome? fun id =>
      ((d.containers id).filter fun c => c.name = name).map fun c => (id, c)

def record (d : Docker) (call : Call) (id : Option ContainerId) (ok : Bool) : Docker :=
  { d with log := d.log ++ [⟨call, id, ok⟩] }

end Docker

def noSuchContainer : DockerError := ⟨some 404, "No such container"⟩

/-- the container has ended -/
def Container.ended (c : Container) (finishedAt : String) : Container :=
  if c.running then { c with running := false, restarting := false, finishedAt := finishedAt } else c

@[simp] theorem Container.ended_running (c : Container) (t : String) : (c.ended t).running = false := by
  unfold Container.ended
  split_ifs with h
  · rfl
  · simpa using h

@[simp] theorem Container.ended_name (c : Container) (t : String) : (c.ended t).name = c.name := by
  unfold Container.ended
  split_ifs <;> rfl

@[simp] theorem Container.ended_config (c : Container) (t : String) : (c.ended t).config = c.config := by
  unfold Container.ended
  split_ifs <;> rfl

@[simp] theorem Container.ended_labels (c : Container) (t : String) : (c.ended t).labels = c.labels := by
  rw [Container.labels, ended_config, Container.labels]

/-- what a call on an existing container answers, and the container after it; the number is the exit code for `wait`
and 0 for the others -/
def onContainer (E : Env) (call : Call) (id : ContainerId) (c : Container) :
    Except DockerError (ℤ × Option Container) :=
  match call with
  | .startContainer _ | .restartContainer _ => .ok (0, some { c with running := true })
  | .stopContainer _ => .ok (0, some (c.ended (E.finishedAt id)))
  | .waitContainer _ =>
    if c.running then .ok (E.exit id, some { c.ended (E.finishedAt id) with exitCode := E.exit id })
    else .ok (c.exitCode, some c)
  | .renameContainer _ name => .ok (0, some { c with name := name })
  | .removeContainer _ force =>
    if c.running && !force then .error ⟨some 409, "You cannot remove a running container"⟩ else .ok (0, none)
  | .killContainer _ =>
    if c.running then .ok (0, some (c.ended (E.finishedAt id)))
    else .error ⟨some 409, "Container is not running"⟩
  | _ => .ok (0, some c)

namespace Docker

/-- a call about a container -/
def call (E : Env) (call : Call) (ref : Ref) (d : Docker) : Except DockerError ℤ × Docker :=
  match E.fate call, d.find ref with
  | some e, found => (.error e, d.record call (found.map Prod.fst) false)
  | none, none => (.error noSuchContainer, d.record call none false)
  | none, some (id, c) =>
    match onContainer E call id c with
    | .error e => (.error e, d.record call (some id) false)
    | .ok (code, c') => (.ok code, (d.setContainer id c').record call (some id) true)

/-- a call by id leaves of its container what `after` says, and does not touch the others -/
def after (E : Env) (call : Call) (id : ContainerId) : Option Container → Option Container
  | none => none
  | some c =>
    if (E.fate call).isSome then some c
    else
      match onContainer E call id c with
      | .ok (_, c') => c'
      | .error _ => some c

theorem call_containers (E : Env) (c : Call) (id : ContainerId) (d : Docker) :
    (d.call E c (.id id)).2.containers = Function.update d.containers id (after E c id (d.containers id)) := by
  have hself := Function.update_eq_self id d.containers
  cases hd : d.containers id with
  | none =>
    rw [hd] at hself
    cases hf : E.fate c <;> simp [call, find, hd, hf, record, after, hself]
  | some x =>
    rw [hd] at hself
    cases hf : E.fate c with
    | some e => simp [call, find, hd, hf, record, after, hself]
    | none =>
      rcases ho : onContainer E c id x with _ | ⟨code, x'⟩ <;>
        simp [call, find, hd, hf, ho, record, setContainer, after, hself]

@[simp] theorem call_nextId (E : Env) (c : Call) (ref : Ref) (d : Docker) : (d.call E c ref).2.nextId = d.nextId := by
  unfold call
  split
  · rfl
  · rfl
  · split <;> rfl

/-- a step that touches no container -/
def callInert (E : Env) (call : Call) (d : Docker) : Except DockerError Unit × Docker :=
  match E.fate call with
  | some e => (.error e, d.record call none false)
  | none => (.ok (), d.record call none true)

/-- `create_container`: the id of the new container -/
def createContainer (E : Env) (draw : ℕ) (name : String) (config : Config) (d : Docker) :
    Except DockerError ContainerId × Docker :=
  match E.fate (.createContainer draw name) with
  | some e => (.error e, d.record (.createContainer draw name) none false)
  | none =>
    (.ok d.nextId,
     { (d.setContainer d.nextId (some ⟨name, config, false, false, 0, "0001-01-01T00:00:00Z", d.nextId⟩)).record
         (.createContainer draw name) (some d.nextId) true with nextId := d.nextId + 1 })

/-- `inspect_container`: the container the inspection is made of -/
def inspectContainer (E : Env) (id : ContainerId) (d : Docker) : Except DockerError Container × Docker :=
  match E.fate (.inspectContainer id), d.containers id with
  | some e, _ => (.error e, d.record (.inspectContainer id) (some id) false)
  | none, none => (.error noSuchContainer, d.record (.inspectContainer id) (some id) false)
  | none, some c => (.ok c, d.record (.inspectContainer id) (some id) true)

end Docker

/-! ### Suspension -/

def Database.deleteProcess (db : Database) (id : ContainerId) : Database :=
  { db with processes := db.processes.filter fun p => p.key ≠ id }

def World.removalStep (w : World) : RemovalStep → World
  | .remove id =>
    if ⟨id, false⟩ ∈ w.removals then
      { w with
        docker := w.docker.setContainer id none
        removals := w.removals.map fun r => if r.id = id then ⟨id, true⟩ else r }
    else w
  | .refused id => { w with removals := w.removals.filter fun r => r ≠ ⟨id, false⟩ }
  | .deleteRow id =>
    if ⟨id, true⟩ ∈ w.removals then
      { w with db := w.db.deleteProcess id, removals := w.removals.filter fun r => r ≠ ⟨id, true⟩ }
    else w

/-- a task is suspended: the spawned removals run -/
def suspend (E : Env) : Io Unit := Prog.modify fun w =>
  { (E.interference w.ticks).foldl World.removalStep w with ticks := w.ticks + 1 }

/-- a call to docker -/
def await {α : Type} (E : Env) (call : Docker → α × Docker) : Io α := do
  suspend E
  Prog.lift fun w => ((call w.docker).1, { w with docker := (call w.docker).2 })

/-- a change of the database -/
def modifyDb (E : Env) (f : Database → Database) : Io Unit := do
  suspend E
  Prog.modify fun w => { w with db := f w.db }

/-- a read of the database -/
def readDb {α : Type} (E : Env) (f : Database → Except IoError α) : Io α := do
  suspend E
  let w ← Prog.get
  match f w.db with
  | .ok a => return a
  | .error e => Prog.fail e

/-! ### Calls -/

/-- `?` after `map_err_context` -/
def orThrow {α : Type} (context : String) (m : Io (Except DockerError α)) : Io α := do
  match ← m with
  | .ok a => return a
  | .error e => Prog.fail (e.withContext context)

/-- `?` after a conversion to an interruption -/
def orInterrupted {α : Type} (context : String) (m : Io (Except DockerError α)) : Io α := do
  match ← m with
  | .ok a => return a
  | .error e => Prog.fail (.interrupted context e.display)

def startContainer (E : Env) (ref : Ref) : Io (Except DockerError ℤ) := await E (Docker.call E (.startContainer ref) ref)

def stopContainer (E : Env) (ref : Ref) : Io (Except DockerError ℤ) := await E (Docker.call E (.stopContainer ref) ref)

def renameContainer (E : Env) (ref : Ref) (name : String) : Io (Except DockerError ℤ) :=
  await E (Docker.call E (.renameContainer ref name) ref)

def removeContainer (E : Env) (ref : Ref) (force : Bool) : Io (Except DockerError ℤ) :=
  await E (Docker.call E (.removeContainer ref force) ref)

def killContainer (E : Env) (ref : Ref) : Io (Except DockerError ℤ) := await E (Docker.call E (.killContainer ref) ref)

def restartContainer (E : Env) (ref : Ref) : Io (Except DockerError ℤ) :=
  await E (Docker.call E (.restartContainer ref) ref)

/-- `wait_container`: the client turns an exit code that is not 0 into an error -/
def waitContainer (E : Env) (ref : Ref) : Io (Except DockerError ℤ) := do
  match ← await E (Docker.call E (.waitContainer ref) ref) with
  | .ok code => return if code = 0 then .ok code else .error ⟨none, "Docker container wait error"⟩
  | .error e => return .error e

def createContainer (E : Env) (draw : ℕ) (name : String) (config : Config) : Io (Except DockerError ContainerId) :=
  await E (Docker.createContainer E draw name config)

def inspectContainer (E : Env) (id : ContainerId) : Io (Except DockerError Container) :=
  await E (Docker.inspectContainer E id)

/-- `generate_short_id` -/
def generateShortId (E : Env) : Io (ℕ × String) := do
  let w ← Prog.get
  Prog.modify fun w => { w with draws := w.draws + 1 }
  return (w.draws, E.shortId w.draws)

/-! ### Database -/

def notFound (context : String) : IoError := ⟨context, .notFound, "Record not found"⟩

/-- the result of a query that panics in its blocking thread -/
def canceled : IoError := .interrupted "Future" "Canceled"

/-- `ProcessDb::read_by_kind_key` -/
def readByKindKey (E : Env) (kindKey : String) (filter : Option GenericFilter) : Io (List ProcessDb) :=
  readDb E fun db => (ProcessDb.readByKindKey E.externals kindKey filter db.processes).mapError fun _ => canceled

/-- `ProcessDb::create_from` -/
def insertProcess (E : Env) (p : ProcessDb) : Io ProcessDb := do
  modifyDb E fun db => { db with processes := db.processes ++ [p] }
  return p

/-- `ProcessDb::del_by_pk`; a key that no row has deletes nothing -/
def deleteProcessByPk (E : Env) (pk : Ref) : Io Unit :=
  modifyDb E fun db =>
    match pk with
    | .id id => db.deleteProcess id
    | .name _ => db

/-- an object joined with its status -/
def Database.readCargo (db : Database) (key : String) : Option Cargo :=
  (db.cargoes key).filter fun _ => (db.statuses key).isSome

def Database.readJob (db : Database) (key : String) : Option Job :=
  (db.jobs key).filter fun _ => (db.statuses key).isSome

def Database.readVm (db : Database) (key : String) : Option Vm := (db.vms key).filter fun _ => (db.statuses key).isSome

/-- a read that fails where there is no row -/
def readRow {α : Type} (E : Env) (context : String) (row : Database → Option α) : Io α :=
  readDb E fun db => (row db).elim (.error (notFound context)) .ok

/-- `CargoDb::transform_read_by_pk` -/
def readCargo (E : Env) (key : String) : Io Cargo := readRow E "CargoDb" (·.readCargo key)

/-- `JobDb::transform_read_by_pk` -/
def readJob (E : Env) (key : String) : Io Job := readRow E "JobDb" (·.readJob key)

/-- `VmDb::transform_read_by_pk` -/
def readVm (E : Env) (key : String) : Io Vm := readRow E "VmDb" (·.readVm key)

/-- `ObjPsStatusDb::update_actual_status` -/
def updateActualStatus (E : Env) (key : String) (status : ObjPsStatusKind) : Io Unit := do
  let currStatus ← readRow E "ObjPsStatusDb" (·.statuses key)
  if currStatus.actual = status then
    return ()
  else
    let newStatus := { currStatus with actual := status, prevActual := currStatus.actual }
    modifyDb E fun db => { db with statuses := Function.update db.statuses key (some newStatus) }

/-! ### Events -/

def Database.emit (db : Database) (e : Emitted) : Database := { db with events := db.events ++ [e] }

/-- `emit_normal_native_action_sync`; an error is only logged -/
def emitNormal (E : Env) (actorKind : EventActorKind) (key : String) (action : NativeEventAction) : Io Unit :=
  modifyDb E (·.emit ⟨.normal, action, actorKind, key⟩)

/-! ## Running -/

section Running

variable (E : Env)

theorem suspend_run (w : World) : suspend E w = (.ok (), (suspend E w).2) := rfl

theorem readDb_run {α : Type} (f : Database → Except IoError α) (w : World) :
    readDb E f w = (f (suspend E w).2.db, (suspend E w).2) := by
  rw [readDb, Prog.bind_of_ok (suspend_run E w), Prog.get_bind]
  rcases hf : f (suspend E w).2.db with e | a <;> simp

theorem readRow_run {α : Type} (context : String) (row : Database → Option α) (w : World) :
    readRow E context row w =
      ((row (suspend E w).2.db).elim (.error (notFound context)) .ok, (suspend E w).2) := readDb_run E _ w

/-- the rows a read of the processes of an object returns -/
def Database.processesOf (db : Database) (kindKey : String) : List ProcessDb :=
  ProcessDb.newest100 (db.processes.filter fun p => p.kindKey = kindKey)

/-- the rows a read of the processes with a label returns -/
def Database.labelled (db : Database) (kindKey label : String) : List ProcessDb :=
  ProcessDb.newest100 (db.processes.filter fun p => p.hasLabel label && decide (p.kindKey = kindKey))

theorem readByKindKey_run (kindKey : String) (w : World) :
    readByKindKey E kindKey none w = (.ok ((suspend E w).2.db.processesOf kindKey), (suspend E w).2) := by
  simp only [readByKindKey, readDb_run, ProcessDb.readByKindKey_none, Except.mapError, Database.processesOf]

theorem readByKindKey_run_label (kindKey label : String) (w : World) :
    readByKindKey E kindKey (some (ProcessDb.labelFilter label)) w =
      (.ok ((suspend E w).2.db.labelled kindKey label), (suspend E w).2) := by
  simp only [readByKindKey, readDb_run, ProcessDb.readByKindKey_label, Except.mapError, Database.labelled]

end Running

/-! ## Running alone -/

section Alone

variable (E : Env)

def World.tick (w : World) : World := { w with ticks := w.ticks + 1 }

@[simp] theorem World.tick_docker (w : World) : w.tick.docker = w.docker := rfl

@[simp] theorem World.tick_db (w : World) : w.tick.db = w.db := rfl

@[simp] theorem World.tick_draws (w : World) : w.tick.draws = w.draws := rfl

@[simp] theorem World.tick_removals (w : World) : w.tick.removals = w.removals := rfl

@[simp] theorem suspend_alone (w : World) : suspend E.alone w = (.ok (), w.tick) := rfl

@[simp] theorem modifyDb_alone (f : Database → Database) (w : World) :
    modifyDb E.alone f w = (.ok (), { w.tick with db := f w.db }) := rfl

/-- docker after a call; a call suspends the task once -/
def World.called (w : World) (d : Docker) : World := ⟨d, w.db, w.removals, w.draws, w.ticks + 1⟩

@[simp] theorem World.called_docker (w : World) (d : Docker) : (w.called d).docker = d := rfl

@[simp] theorem World.called_db (w : World) (d : Docker) : (w.called d).db = w.db := rfl

@[simp] theorem World.called_draws (w : World) (d : Docker) : (w.called d).draws = w.draws := rfl

@[simp] theorem World.called_removals (w : World) (d : Docker) : (w.called d).removals = w.removals := rfl

@[simp] theorem await_alone {α : Type} (call : Docker → α × Docker) (w : World) :
    await E.alone call w = (.ok (call w.docker).1, w.called (call w.docker).2) := rfl

theorem orThrow_ok {α : Type} {context : String} {call : Docker → Except DockerError α × Docker} {w : World} {a : α}
    {d : Docker} (h : call w.docker = (.ok a, d)) : orThrow context (await E.alone call) w = (.ok a, w.called d) := by
  refine (Prog.bind_of_ok (await_alone E call w)).trans ?_
  rw [h]
  rfl

theorem orThrow_error {α : Type} {context : String} {call : Docker → Except DockerError α × Docker} {w : World}
    {e : DockerError} {d : Docker} (h : call w.docker = (.error e, d)) :
    orThrow context (await E.alone call) w = (.error (e.withContext context), w.called d) := by
  refine (Prog.bind_of_ok (await_alone E call w)).trans ?_
  rw [h]
  rfl

theorem readDb_alone {α : Type} (f : Database → Except IoError α) (w : World) : readDb E.alone f w = (f w.db, w.tick) :=
  readDb_run E.alone f w

theorem readRow_alone {α : Type} (context : String) (row : Database → Option α) (w : World) :
    readRow E.alone context row w = ((row w.db).elim (.error (notFound context)) .ok, w.tick) :=
  readDb_alone E _ w

theorem readCargo_alone {key : String} {w : World} {cargo : Cargo} (h : w.db.readCargo key = some cargo) :
    readCargo E.alone key w = (.ok cargo, w.tick) := by
  rw [readCargo, readRow_alone, h]
  rfl

theorem readJob_alone {key : String} {w : World} {job : Job} (h : w.db.readJob key = some job) :
    readJob E.alone key w = (.ok job, w.tick) := by
  rw [readJob, readRow_alone, h]
  rfl

theorem readVm_alone {key : String} {w : World} {vm : Vm} (h : w.db.readVm key = some vm) :
    readVm E.alone key w = (.ok vm, w.tick) := by
  rw [readVm, readRow_alone, h]
  rfl

theorem readByKindKey_alone (kindKey : String) (w : World) :
    readByKindKey E.alone kindKey none w = (.ok (w.db.processesOf kindKey), w.tick) := readByKindKey_run E.alone kindKey w

theorem readByKindKey_alone_label (kindKey label : String) (w : World) :
    readByKindKey E.alone kindKey (some (ProcessDb.labelFilter label)) w =
      (.ok (w.db.labelled kindKey label), w.tick) := readByKindKey_run_label E.alone kindKey label w

end Alone

end Nanocl.Runtime
