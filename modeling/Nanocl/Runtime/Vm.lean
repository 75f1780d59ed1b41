/-
The tasks of a VM (`utils/container/vm.rs`): the creation of its container, its start and its update. The deletion is in
`Job`.
-/
import Nanocl.Runtime.Job

namespace Nanocl.Runtime

open Nanocl.Lib

variable (E : Env)

/-- `vars::VM_RUNTIME` -/
def vmRuntime : String := "ghcr.io/next-hat/nanocl-qemu:8.0.2.0"

/-- the arguments of qemu -/
def vmArgs (vm : Vm) (image : VmImage) : List String :=
  ["-hda", image.path, "--nographic"] ++ (if vm.hostConfig.kvm.getD false then ["-accel", "kvm"] else []) ++
    ["-smp", if vm.hostConfig.cpu > 0 then toString vm.hostConfig.cpu else "1"] ++
    ["-m", if vm.hostConfig.memory > 0 then toString vm.hostConfig.memory ++ "M" else "512M"]

def vmDevices (vm : Vm) : List DeviceMapping :=
  [⟨"/dev/net/tun", "/dev/net/tun", "rwm"⟩] ++
    if vm.hostConfig.kvm.getD false then [⟨"/dev/kvm", "/dev/kvm", "rwm"⟩] else []

def vmEnv (vm : Vm) (disableKeygen : Bool) : List String :=
  ["DEFAULT_INTERFACE=" ++ vm.hostConfig.linkNetIface.getD "eth0", "FROM_NETWORK=" ++ vm.hostConfig.netIface.getD "ens3",
    "DELETE_SSH_KEY=" ++ toString disableKeygen] ++
    (vm.user.map fun user => "USER=" ++ user).toList ++ (vm.password.map fun password => "PASSWORD=" ++ password).toList ++
    (vm.sshKey.map fun sshKey => "SSH_KEY=" ++ sshKey).toList

/-- the labels of the container; those of the spec are not among them -/
def vmLabels (vm : Vm) : Labels :=
  Labels.insert (Labels.insert [] "io.nanocl.v" vm.key) "io.nanocl.n" vm.namespaceName

/-- the configuration of the container -/
def vmConfig (vm : Vm) (image : VmImage) (disableKeygen : Bool) : Config :=
  let imgPath := E.stateDir ++ "/vms/images"
  { image := some (vm.hostConfig.runtime.getD vmRuntime)
    tty := some true
    hostname := vm.hostname
    env := some (vmEnv vm disableKeygen)
    labels := some (vmLabels vm)
    cmd := some (vmArgs vm image)
    attachStderr := some true
    attachStdin := some true
    attachStdout := some true
    openStdin := some true
    hostConfig := some
      { HostConfig.default with
        networkMode := some (vm.hostConfig.runtimeNetwork.getD "nanoclbr0")
        binds := some [imgPath ++ ":" ++ imgPath]
        devices := some (vmDevices vm)
        capAdd := some ["NET_ADMIN"] } }

/-- `vm::create_instance`; a VM has one container, so no short id is drawn for its name -/
def createVmInstance (vm : Vm) (image : VmImage) (disableKeygen : Bool) : Io ProcessDb := do
  download E (vm.hostConfig.runtime.getD vmRuntime) none .ifNotPresent
  createProcess E .vm 0 (vm.key ++ ".v") vm.key (vmConfig E vm image disableKeygen)

/-- `VmImageDb::read_by_pk` -/
def readVmImage (name : String) : Io VmImage := readRow E "VmImageDb" fun db => db.vmImages.find? fun i => i.name = name

/-- `vm::start` -/
def startVm (key : String) : Io Unit := do
  let vm ← readVm E key
  let image ← readVmImage E vm.diskImage
  let processes ← readByKindKey E vm.key none
  if processes.isEmpty then
    let _ ← createVmInstance E vm image true
  startInstances E vm.key .vm

/-- `vm::update` -/
def updateVm (key : String) : Io Unit := do
  let vm ← readVm E key
  let image ← readVmImage E vm.diskImage
  deleteInstances E [.name (vm.key ++ ".v")]
  let _ ← createVmInstance E vm image false
  startInstances E key .vm

end Nanocl.Runtime
