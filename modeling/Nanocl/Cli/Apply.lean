/-
`state apply` on one state (`nanocl/src/commands/state.rs::state_apply`, `gen_client`), against what the daemon stores.

For each object that the state declares, the command inspects the object of its name, creates it if the inspection fails,
and otherwise compares what it shows with the declaration. Secrets are patched and resources put with an update that has
fewer fields than the comparison; a cargo is put; a VM is patched, and the daemon merges the patch into what it has. The
command talks to the daemon of its own configuration, not to the one that `ApiVersion` designates.

The daemon is here what its inspections show (`Inventory`); it may refuse any request (`ApplyEnv.fault`). What a waiter
returns is computed from the event stream (`Cli.Waiter`). JSON is a parameter δ.
-/
import Nanocl.Cli.Statefile
import Nanocl.Cli.Waiter
import Nanocl.Cli.Orphans
import Nanocl.Lib.Reconcile
import Nanocl.Objects.Vm

namespace Nanocl.Cli

open Nanocl.Lib Nanocl.Objects

deriving instance DecidableEq for Objects.ResourcePartial

/-! ## Clients -/

structure NanocldClient where
  url : String
  version : String
  unixSocket : Option String
deriving DecidableEq

/-- the text is there at the start -/
def startsWith (s p : String) : Bool := p.toList.isPrefixOf s.toList

/-- `trim_start_matches("unix://")` -/
def trimUnix : List Char → List Char
  | 'u' :: 'n' :: 'i' :: 'x' :: ':' :: '/' :: '/' :: rest => trimUnix rest
  | cs => cs

/-- `NanocldClient::connect_to` -/
def connectTo (url : String) (version : Option String) : Except IoError NanocldClient :=
  let version := version.getD "v0.16.0"
  if startsWith url "http://" || startsWith url "https://" then .ok ⟨url, version, none⟩
  else if startsWith url "unix://" then .ok ⟨"http://localhost", version, some (String.ofList (trimUnix url.toList))⟩
  else .error ⟨"Invalid url", url⟩

/-- the configuration of a command; its client is the one of its host -/
structure CliConfig where
  host : String
  client : NanocldClient
  client_eq : connectTo host none = .ok client

/-- `gen_client`: the client that the `ApiVersion` of a Statefile designates -/
def genClient (conf : CliConfig) (apiVersion : String) : Except IoError NanocldClient :=
  let paths := (apiVersion.toList.splitOn '/').map String.ofList
  let version := paths.getLastD ""
  let url := "/".intercalate paths.dropLast
  if startsWith apiVersion "http" then connectTo url (some version)
  else if startsWith apiVersion "v" then connectTo conf.host (some apiVersion)
  else connectTo ("https://" ++ url) (some version)

/-- where a client sends its requests -/
inductive Endpoint where
  | unix (path : String)
  | url (url : String)
deriving DecidableEq

def NanocldClient.endpoint (c : NanocldClient) : Endpoint :=
  match c.unixSocket with
  | some path => .unix path
  | none => .url c.url

/-! ## The daemon -/

variable {δ : Type}

/-- a cargo or a VM: its specification and its actual status -/
structure Process (π : Type) where
  spec : π
  actual : ObjPsStatusKind
deriving DecidableEq

/-- what a daemon stores: secrets, jobs and resources by their name, cargoes and VMs by their key -/
structure Inventory (δ : Type) where
  secrets : String → Option (SecretPartial δ)
  jobs : String → Option (JobPartial δ)
  cargoes : String → Option (Process (CargoSpecPartial δ))
  vms : String → Option (Process (VmSpecPartial δ))
  resources : String → Option (ResourcePartial δ)

/-- one table of the daemon -/
structure Shelf (δ V : Type) where
  kind : ObjKind
  table : String
  get : Inventory δ → String → Option V
  set : Inventory δ → (String → Option V) → Inventory δ
  get_set : ∀ i t, get (set i t) = t
  set_get : ∀ i, set i (get i) = i
  set_set : ∀ i t t', set (set i t) t' = set i t'

def secretShelf : Shelf δ (SecretPartial δ) :=
  ⟨.secret, "SecretDb", Inventory.secrets, fun i t => { i with secrets := t }, fun _ _ => rfl, fun _ => rfl, fun _ _ _ => rfl⟩

def jobShelf : Shelf δ (JobPartial δ) :=
  ⟨.job, "JobDb", Inventory.jobs, fun i t => { i with jobs := t }, fun _ _ => rfl, fun _ => rfl, fun _ _ _ => rfl⟩

def cargoShelf : Shelf δ (Process (CargoSpecPartial δ)) :=
  ⟨.cargo, "CargoDb", Inventory.cargoes, fun i t => { i with cargoes := t }, fun _ _ => rfl, fun _ => rfl, fun _ _ _ => rfl⟩

def vmShelf : Shelf δ (Process (VmSpecPartial δ)) :=
  ⟨.vm, "VmDb", Inventory.vms, fun i t => { i with vms := t }, fun _ _ => rfl, fun _ => rfl, fun _ _ _ => rfl⟩

def resourceShelf : Shelf δ (ResourcePartial δ) :=
  ⟨.resource, "ResourceDb", Inventory.resources, fun i t => { i with resources := t }, fun _ _ => rfl, fun _ => rfl,
    fun _ _ _ => rfl⟩

/-- the table with another value under a key -/
def Shelf.store {V : Type} (T : Shelf δ V) (i : Inventory δ) (key : String) (v : V) : Inventory δ :=
  T.set i (Function.update (T.get i) key (some v))

/-- what the inspection of a VM shows: its host configuration is always there -/
def shownVm (p : VmSpecPartial δ) : VmSpecPartial δ := { p with hostConfig := some (p.hostConfig.getD .default) }

/-- a VM as its creation stores it: its disk is a snapshot of the image -/
def createdVm (key : String) (vm : VmSpecPartial δ) : VmSpecPartial δ :=
  { vm with disk := ⟨vm.disk.image ++ "." ++ key, some (vm.disk.size.getD 20)⟩ }

/-- a VM as a patch stores it; the patch does not read the other columns of its spec -/
def patchedVm (p : VmSpecPartial δ) (u : VmSpecUpdate δ) : VmSpecPartial δ :=
  patchVmSpec p.name { shownVm p with key := 0, vmKey := "", version := "" } u

/-- the kind that `parse_kind` finds, without its version -/
def bareKind (kind : String) : String :=
  match splitKind kind with
  | domain :: name :: _ :: _ => domain ++ "/" ++ name
  | _ => kind

/-! ## Requests -/

inductive Verb where
  | inspect | create | put | patch | delete | start
  | watch (action : NativeEventAction)
deriving DecidableEq

/-- a request about an object that the state declares -/
structure Sent where
  kind : ObjKind
  name : String
  verb : Verb
deriving DecidableEq

structure ApplyEnv (δ : Type) where
  /-- the request about the object at this place of its section fails, for whatever reason -/
  fault : ObjKind → ℕ → Verb → Option HttpError
  /-- what happens on the event stream from the watch of an operation on -/
  watched : Operation → List Step
  /-- the url of the controller of a kind and the version of the kind, for the kinds that have one -/
  controllers : String → Option (String × String)
  /-- what a controller answers to a rule -/
  applyRule : RuleRequest → δ → Except HttpError δ
  /-- `as_object_mut().unwrap().insert` of a text; nothing for a value that is no object -/
  insert : δ → String → String → Option δ
  /-- `json!` with a text under a name -/
  object : String → String → δ

/-- why the command does not go on -/
inductive Halt where
  | error (e : HttpError)
  | waiter (e : WaitError)
  | panic
  /-- a waiter has not returned -/
  | waits
deriving DecidableEq

structure Session (δ : Type) where
  inventory : Inventory δ
  sent : List Sent

abbrev ApplyIo (δ α : Type) := Prog (Session δ) Halt α

variable (E : ApplyEnv δ)

/-- a request that is answered from what the daemon stores -/
def send {α : Type} (slot : ℕ) (r : Sent) (answer : Inventory δ → Except HttpError (α × Inventory δ)) : ApplyIo δ α := fun s =>
  let sent := s.sent ++ [r]
  match E.fault r.kind slot r.verb with
  | some e => (.error (.error e), ⟨s.inventory, sent⟩)
  | none =>
    match answer s.inventory with
    | .error e => (.error (.error e), ⟨s.inventory, sent⟩)
    | .ok (a, i) => (.ok a, ⟨i, sent⟩)

section Requests

variable {V : Type} (T : Shelf δ V) (slot : ℕ) (name key : String)

/-- `GET /{object}/{name}/inspect` -/
def inspectObj : ApplyIo δ V := send E slot ⟨T.kind, name, .inspect⟩ fun i =>
  match T.get i key with
  | some v => .ok (v, i)
  | none => .error (notFound T.table)

/-- `POST /{object}` -/
def createObj (new : Except HttpError V) : ApplyIo δ Unit := send E slot ⟨T.kind, name, .create⟩ fun i =>
  match T.get i key with
  | some _ => .error (conflict (T.table ++ ": " ++ name ++ " already exists"))
  | none => do
    let v ← new
    return ((), T.store i key v)

/-- a request that rewrites an object -/
def rewriteObj (verb : Verb) (f : V → Except HttpError V) : ApplyIo δ Unit := send E slot ⟨T.kind, name, verb⟩ fun i =>
  match T.get i key with
  | none => .error (notFound T.table)
  | some v => do
    let v ← f v
    return ((), T.store i key v)

/-- `wait_process_state` up to its subscription -/
def watch (op : Operation) : ApplyIo δ Unit := send E slot ⟨T.kind, name, .watch op.waited.action⟩ fun i => .ok ((), i)

/-- `waiter.await??` -/
def awaitOp (op : Operation) : ApplyIo δ Unit :=
  match result op (E.watched op) with
  | none => Prog.fail .waits
  | some (.ok ()) => pure ()
  | some (.error e) => Prog.fail (.waiter e)

/-- the task of the operation reports that it is done -/
def Step.isDone : Step → Bool
  | .report (.ok ()) _ => true
  | _ => false

/-- the task of the operation reports that it failed -/
def Step.isFailed : Step → Bool
  | .report (.error _) _ => true
  | _ => false

/-- the actual status once the task of the operation has got as far as it gets -/
def ApplyEnv.statusAfter (op : Operation) (pending : ObjPsStatusKind) : ObjPsStatusKind :=
  if (E.watched op).any Step.isDone then .start
  else if (E.watched op).any Step.isFailed then .fail
  else pending

/-- one round of the loops: inspect, and create or bring up to date -/
def applyObj (create : ApplyIo δ Unit) (unchanged : V → Bool) (update : ApplyIo δ Unit) : ApplyIo δ Unit := do
  match ← Prog.attempt (inspectObj E T slot name key) with
  | .error _ => create
  | .ok v => if unchanged v then pure () else update

end Requests

/-! ## The command -/

section Command

variable [DecidableEq δ]

/-- `insert_nanocl_group`; nothing if it panics -/
def insertNanoclGroup (metadata : Option δ) (group : String) : Option δ :=
  match metadata with
  | some metadata => E.insert metadata "io.nanocl.group" group
  | none => some (E.object "io.nanocl.group" group)

/-- the metadata with the group, where the code does not panic -/
def labelled (metadata : Option δ) (group : String) : ApplyIo δ δ :=
  match insertNanoclGroup E metadata group with
  | some metadata => pure metadata
  | none => Prog.fail .panic

variable (group : String) (reload : Bool) (ns : String)

def applySecret (slot : ℕ) (secret : SecretPartial δ) : ApplyIo δ Unit := do
  let metadata ← labelled E secret.metadata group
  let secret := { secret with metadata := some metadata }
  let update : SecretUpdate δ := ⟨secret.metadata, secret.data⟩
  applyObj E secretShelf slot secret.name secret.name
    (createObj E secretShelf slot secret.name secret.name (.ok secret))
    (fun inspect => inspect = secret)
    (rewriteObj E secretShelf slot secret.name secret.name .patch fun s =>
      .ok { s with data := update.data, metadata := update.metadata <|> s.metadata })

def applyJob (slot : ℕ) (job : JobPartial δ) : ApplyIo δ Unit := do
  let metadata ← labelled E job.metadata group
  let job := { job with metadata := some metadata }
  match ← Prog.attempt (inspectObj E jobShelf slot job.name job.name) with
  | .error _ => pure ()
  | .ok _ => do
    watch E jobShelf slot job.name (.clearJob job.name)
    send E slot ⟨.job, job.name, .delete⟩ fun i => .ok ((), { i with jobs := Function.update i.jobs job.name none })
    awaitOp E (.clearJob job.name)
  createObj E jobShelf slot job.name job.name (.ok job)
  watch E jobShelf slot job.name (.applyJob job.name)
  rewriteObj E jobShelf slot job.name job.name .start fun j => .ok j
  awaitOp E (.applyJob job.name)

def applyCargo (slot : ℕ) (cargo : CargoSpecPartial δ) : ApplyIo δ Unit := do
  let metadata ← labelled E cargo.metadata group
  let cargo := { cargo with metadata := some metadata }
  let key := genKey cargo.name (some ns)
  let created := Operation.createCargo cargo.name ns
  let updated := Operation.putCargo cargo.name ns
  applyObj E cargoShelf slot cargo.name key
    (do
      createObj E cargoShelf slot cargo.name key (.ok ⟨cargo, .create⟩)
      watch E cargoShelf slot cargo.name created
      rewriteObj E cargoShelf slot cargo.name key .start fun c => .ok { c with actual := E.statusAfter created .starting }
      awaitOp E created)
    (fun inspect => decide (inspect.spec = cargo) && !reload)
    (do
      watch E cargoShelf slot cargo.name updated
      rewriteObj E cargoShelf slot cargo.name key .put fun _ => .ok ⟨cargo, E.statusAfter updated .updating⟩
      awaitOp E updated)

/-- `From<VmSpecPartial> for VmSpecUpdate` -/
def vmUpdate (vm : VmSpecPartial δ) : VmSpecUpdate δ where
  name := some vm.name
  metadata := vm.metadata
  hostname := vm.hostname
  user := vm.user
  password := vm.password
  sshKey := vm.sshKey
  labels := vm.labels
  hostConfig := vm.hostConfig

def applyVm (slot : ℕ) (vm : VmSpecPartial δ) : ApplyIo δ Unit := do
  let metadata ← labelled E vm.metadata group
  let vm := { vm with metadata := some metadata }
  let key := genKey vm.name (some ns)
  let created := Operation.createVm vm.name ns
  let updated := Operation.patchVm vm.name ns
  applyObj E vmShelf slot vm.name key
    (do
      createObj E vmShelf slot vm.name key (.ok ⟨createdVm key vm, .create⟩)
      watch E vmShelf slot vm.name created
      rewriteObj E vmShelf slot vm.name key .start fun v => .ok { v with actual := E.statusAfter created .starting }
      awaitOp E created)
    (fun inspect => decide (shownVm inspect.spec = vm) && !reload)
    (do
      watch E vmShelf slot vm.name updated
      rewriteObj E vmShelf slot vm.name key .patch fun v =>
        .ok ⟨patchedVm v.spec (vmUpdate vm), E.statusAfter updated .updating⟩
      awaitOp E updated)

/-- the data of a resource once its controller has seen it; the version is that in the kind, or the current one -/
def hookData (kind name : String) (data : δ) : Except HttpError δ :=
  match E.controllers kind with
  | some (url, version) => E.applyRule ⟨url, version, name⟩ data
  | none => .ok data

def applyResource (slot : ℕ) (resource : ResourcePartial δ) : ApplyIo δ Unit := do
  let metadata ← labelled E resource.metadata group
  let resource := { resource with metadata := some metadata }
  let update : ResourceUpdate δ := ⟨resource.data, resource.metadata⟩
  applyObj E resourceShelf slot resource.name resource.name
    (createObj E resourceShelf slot resource.name resource.name do
      let data ← hookData E resource.kind resource.name resource.data
      return { resource with kind := bareKind resource.kind, data := data })
    (fun inspect => decide (inspect = resource) && !reload)
    (rewriteObj E resourceShelf slot resource.name resource.name .put fun r => do
      let data ← hookData E r.kind resource.name update.data
      return ⟨resource.name, r.kind, data, update.metadata⟩)

/-- a loop over a section -/
def applyAll {α : Type} (section_ : Option (List α)) (f : ℕ → α → ApplyIo δ Unit) : ApplyIo δ Unit :=
  Prog.forEach (section_.getD []).zipIdx fun p => f p.2 p.1

/-- `state_apply` on the daemon it talks to -/
def applyState (state : StateRef δ) : ApplyIo δ Unit := do
  let ns := state.data.namespace_.getD "global"
  let group := getNanoclGroup state
  applyAll state.data.secrets (applySecret E group)
  applyAll state.data.jobs (applyJob E group)
  applyAll state.data.cargoes (applyCargo E group reload ns)
  applyAll state.data.virtualMachines (applyVm E group reload ns)
  applyAll state.data.resources (applyResource E group reload)

/-- the daemons, by where they listen -/
structure Network (δ : Type) where
  daemonAt : Endpoint → String
  inventory : String → Inventory δ

/-- `state_apply`: how it ends, the daemons afterwards and the requests it made -/
def stateApply (conf : CliConfig) (state : StateRef δ) (net : Network δ) : Except Halt Unit × Network δ × List Sent :=
  let daemon := net.daemonAt conf.client.endpoint
  let (r, s) := applyState E reload state ⟨net.inventory daemon, []⟩
  (r, { net with inventory := Function.update net.inventory daemon s.inventory }, s.sent)

end Command

end Nanocl.Cli
