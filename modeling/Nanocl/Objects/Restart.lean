/-
What the daemon does to the store when it starts (`utils/system.rs::sync_processes`): each container with the labels of a
cargo makes sure of its cargo. The cargo is created from the configuration of the container where it cannot be read, and
updated where its container differs.

The pass is that of `Sync.SyncCalls`, on the tables of the objects, of which each call may fail. The rows of the processes
are not among them: to read and write them is one call.
-/
import Nanocl.Objects.Cargo

namespace Nanocl.Objects

open Nanocl.Lib Nanocl.Status

variable {δ : Type} (E : Env δ)

/-- docker's inspection of a container: its configuration, with that of the host, and `state.status` -/
structure Inspected where
  config : Runtime.Config
  status : Option ContainerStateStatusEnum

/-- `register_namespace` -/
def registerNamespace (name : String) : Io δ Unit := do
  match ← Prog.attempt (readNamespace E name) with
  | .ok _ => return ()
  | .error _ => createNamespace E ⟨name⟩

/-- `sync_cargo_status` -/
def syncStatus (cargo : Cargo δ) (container : Inspected) : Io δ Unit :=
  match syncCargoStatus container.status with
  | some update => updateStatus E cargo.spec.cargoKey update
  | none => return ()

/-- the specification that the pass makes of a container -/
def specOf (name : String) (container : Inspected) : CargoSpecPartial δ where
  name := name
  metadata := none
  initContainer := none
  secrets := none
  imagePullSecret := none
  imagePullPolicy := none
  container := container.config
  replication := none

/-- the calls of the pass on this store; a cargo that cannot be read is one that is not there -/
def syncCalls : Sync.SyncCalls (World δ) HttpError (Sync.ContainerSummary × Inspected) Inspected (Cargo δ) where
  summary c := c.1
  inspectContainer c := do
    query E fun _ => .ok ()
    return c.2
  syncProcess _ _ _ _ := query E fun _ => .ok ()
  readCargo key := do
    match ← Prog.attempt (readCargo E key) with
    | .ok cargo => return some cargo
    | .error _ => return none
  registerNamespace nsp := do
    match ← Prog.attempt (registerNamespace E nsp) with
    | .ok _ => return true
    | .error _ => return false
  createObj nsp name container := createCargo E ⟨nsp, specOf name container, "v" ++ E.version⟩
  syncCargoStatus := syncStatus E
  sameContainer cargo container := cargo.spec.container = container.config
  updateFromSpec key name container := do
    let _ ← updateCargoFromSpec E key (specOf name container) ("v" ++ E.version)
    return ()

/-- `sync_processes` -/
def syncProcesses (containers : List (Sync.ContainerSummary × Inspected)) : Io δ Unit := do
  query E fun _ => .ok ()
  let _ ← (syncCalls E).syncContainers containers [] []
  query E fun _ => .ok ()

/-! ## What the pass keeps -/

section Keeps

variable {E} {R : World δ → World δ → Prop}

/-- the steps of the pass keep `R`; an update is made under the name that its key begins with -/
structure SyncKeeps (E : Env δ) (R : World δ → World δ → Prop) : Prop where
  query : ∀ {α : Type} (f : Tables δ → Except HttpError α), Prog.Keeps R (query E f)
  status : ∀ pk u, Prog.Keeps R (updateStatus E pk u)
  namespace_ : ∀ row, Prog.Keeps R (createNamespace E row)
  create : ∀ obj, Prog.Keeps R (createCargo E obj)
  update : ∀ key name nsp, Sync.splitKey key = some (name, nsp) → ∀ container version,
    Prog.Keeps R (updateCargoFromSpec E key (specOf name container) version)

variable [IsPreorder (World δ) R]

theorem SyncKeeps.syncStatus (h : SyncKeeps E R) (cargo : Cargo δ) (container : Inspected) :
    Prog.Keeps R (syncStatus E cargo container) := by
  unfold Objects.syncStatus
  split
  · exact h.status _ _
  · exact Prog.keeps_pure ()

theorem SyncKeeps.registerNamespace (h : SyncKeeps E R) (name : String) : Prog.Keeps R (registerNamespace E name) := by
  refine Prog.keeps_bind (Prog.keeps_attempt (h.query _)) fun r => ?_
  cases r with
  | ok _ => exact Prog.keeps_pure ()
  | error _ => exact h.namespace_ _

theorem SyncKeeps.readCargo (h : SyncKeeps E R) (key : String) : Prog.Keeps R (readCargo E key) :=
  Prog.keeps_bind (h.query _) fun _ => fun w => Std.Refl.refl w

theorem SyncKeeps.keep (h : SyncKeeps E R) : (syncCalls E).Keep R where
  inspectContainer _ := Prog.keeps_bind (h.query _) fun _ => Prog.keeps_pure _
  syncProcess _ _ _ _ := h.query _
  readCargo key := Prog.keeps_bind (Prog.keeps_attempt (h.readCargo key)) fun r => by
    cases r <;> exact Prog.keeps_pure _
  registerNamespace nsp := Prog.keeps_bind (Prog.keeps_attempt (h.registerNamespace nsp)) fun r => by
    cases r <;> exact Prog.keeps_pure _
  createObj _ _ _ := h.create _
  syncCargoStatus := h.syncStatus
  updateFromSpec key name nsp hkey container :=
    Prog.keeps_bind (h.update key name nsp hkey container _) fun _ => Prog.keeps_pure _

/-- what its steps keep, the pass keeps -/
theorem SyncKeeps.syncProcesses (h : SyncKeeps E R) (containers : List (Sync.ContainerSummary × Inspected)) :
    Prog.Keeps R (syncProcesses E containers) :=
  Prog.keeps_bind (h.query _) fun _ => Prog.keeps_bind (h.keep.syncContainers containers [] []) fun _ => h.query _

end Keeps

end Nanocl.Objects
