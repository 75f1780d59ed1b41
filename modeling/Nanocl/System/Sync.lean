/-
The synchronisation of the store with docker when the daemon starts (`utils/system.rs::sync_processes`).

Docker lists its containers in some order. The loop inspects each one with the labels of an object and stores its
process row. The first one of each cargo that it meets decides the spec and the status of the cargo: an init container
or an old instance as well as a current one. An error ends the whole pass.

What the daemon does not look into is a parameter of the types: κ stands for the fields of a container's configuration,
η for those of its host configuration, ν for those of its network configuration. The database answers every query.

- `syncContainers_eq`, `syncProcesses_eq`: up to the first container that fails, the first container of each cargo decides
  what the store has about it, and nothing else does.
-/
import Nanocl.Lib.FirstWins
import Nanocl.Lib.Prog
import Nanocl.Status.Row

namespace Nanocl.Sync

open Nanocl.Lib Nanocl.Status

/-! ## State -/

section

variable (κ η ν : Type)

/-- `bollard::container::Config`: the fields of a `ContainerConfig` and two more -/
structure Config where
  base : κ
  hostConfig : Option η
  networkingConfig : Option ν
deriving DecidableEq

structure CargoSpecPartial where
  name : String
  metadata : Option Json
  initContainer : Option (Config κ η ν)
  secrets : Option (List String)
  container : Config κ η ν
  replication : Option Runtime.ReplicationMode
  imagePullSecret : Option String
  imagePullPolicy : Option Runtime.ImagePullPolicy

/-- a row of `specs` -/
structure SpecDb where
  version : String
  data : CargoSpecPartial κ η ν

/-- a row of `cargoes` with its current spec -/
structure CargoDb where
  name : String
  namespaceName : String
  spec : SpecDb κ η ν

/-- docker's inspection of a container -/
structure ContainerInspectResponse where
  created : Option String
  name : Option String
  /-- `state.status` -/
  status : Option ContainerStateStatusEnum
  config : Option κ
  hostConfig : Option η
deriving DecidableEq

structure ProcessDb where
  key : String
  name : String
  kind : ProcessKind
  kindKey : String
  nodeName : String
  createdAt : ℤ
  data : ContainerInspectResponse κ η

structure Store where
  cargoes : String → Option (CargoDb κ η ν)
  /-- the rows of `specs` by their kind key, oldest first; the current spec of a cargo is among them -/
  history : String → List (SpecDb κ η ν)
  statuses : String → Option ObjPsStatus
  namespaces : List String
  processes : List (ProcessDb κ η)
  /-- a cargo refers to its status row -/
  status_of_cargo : ∀ key, (cargoes key).isSome → (statuses key).isSome

/-- one entry of docker's list -/
structure ContainerSummary where
  id : Option String
  labels : Option Labels

structure Env where
  hostname : String
  /-- `v` and the version of the daemon -/
  version : String
  /-- docker's answer to an inspection -/
  inspect : String → Except String (ContainerInspectResponse κ η)
  /-- `NaiveDateTime::parse_from_str` -/
  parseCreated : String → Option ℤ
  /-- `char::is_alphanumeric` -/
  isAlphanumeric : Char → Bool

end

variable {κ η ν : Type}

def Store.setStatus (s : Store κ η ν) (key : String) (status : ObjPsStatus) : Store κ η ν where
  cargoes := s.cargoes
  history := s.history
  statuses := Function.update s.statuses key (some status)
  namespaces := s.namespaces
  processes := s.processes
  status_of_cargo k hk := by
    by_cases h : k = key
    · simp [h]
    · simpa [h] using s.status_of_cargo k hk

def Store.setCargo (s : Store κ η ν) (key : String) (cargo : CargoDb κ η ν) (h : (s.statuses key).isSome) :
    Store κ η ν where
  cargoes := Function.update s.cargoes key (some cargo)
  history := s.history
  statuses := s.statuses
  namespaces := s.namespaces
  processes := s.processes
  status_of_cargo k hk := by
    by_cases hkey : k = key
    · exact hkey ▸ h
    · exact s.status_of_cargo k (by simpa [hkey] using hk)

/-- `CargoDb::update_pk` -/
def Store.modifyCargo (s : Store κ η ν) (key : String) (f : CargoDb κ η ν → CargoDb κ η ν) : Store κ η ν where
  cargoes := Function.update s.cargoes key ((s.cargoes key).map f)
  history := s.history
  statuses := s.statuses
  namespaces := s.namespaces
  processes := s.processes
  status_of_cargo k hk := by
    by_cases hkey : k = key
    · subst hkey
      exact s.status_of_cargo k (by simpa using hk)
    · exact s.status_of_cargo k (by simpa [hkey] using hk)

/-- the status row of a new cargo and its own row -/
def Store.insertCargo (s : Store κ η ν) (key : String) (cargo : CargoDb κ η ν) : Store κ η ν :=
  (s.setStatus key created).setCargo key cargo (by simp [Store.setStatus])

/-- `SpecDb::create_from` -/
def Store.addSpec (s : Store κ η ν) (key : String) (spec : SpecDb κ η ν) : Store κ η ν :=
  { s with history := Function.update s.history key (s.history key ++ [spec]) }

/-- what the store has about a cargo -/
structure Entry (κ η ν : Type) where
  cargo : Option (CargoDb κ η ν)
  status : Option ObjPsStatus
  history : List (SpecDb κ η ν)

def Store.entry (s : Store κ η ν) (key : String) : Entry κ η ν := ⟨s.cargoes key, s.statuses key, s.history key⟩

theorem entry_setStatus (s : Store κ η ν) (key : String) (status : ObjPsStatus) :
    (s.setStatus key status).entry = Function.update s.entry key { s.entry key with status := some status } := by
  funext k
  by_cases hk : k = key
  · subst hk
    simp [Store.entry, Store.setStatus]
  · simp [Store.entry, Store.setStatus, hk]

theorem entry_setCargo (s : Store κ η ν) (key : String) (cargo : CargoDb κ η ν) (h : (s.statuses key).isSome) :
    (s.setCargo key cargo h).entry = Function.update s.entry key { s.entry key with cargo := some cargo } := by
  funext k
  by_cases hk : k = key
  · subst hk
    simp [Store.entry, Store.setCargo]
  · simp [Store.entry, Store.setCargo, hk]

theorem entry_modifyCargo (s : Store κ η ν) (key : String) (f : CargoDb κ η ν → CargoDb κ η ν) :
    (s.modifyCargo key f).entry =
      Function.update s.entry key { s.entry key with cargo := (s.cargoes key).map f } := by
  funext k
  by_cases hk : k = key
  · subst hk
    simp [Store.entry, Store.modifyCargo]
  · simp [Store.entry, Store.modifyCargo, hk]

theorem entry_addSpec (s : Store κ η ν) (key : String) (spec : SpecDb κ η ν) :
    (s.addSpec key spec).entry = Function.update s.entry key { s.entry key with history := s.history key ++ [spec] } := by
  funext k
  by_cases hk : k = key
  · subst hk
    simp [Store.entry, Store.addSpec]
  · simp [Store.entry, Store.addSpec, hk]

/-- the process rows do not matter to an entry -/
theorem entry_ext {s s' : Store κ η ν} (hc : s'.cargoes = s.cargoes) (hs : s'.statuses = s.statuses)
    (hh : s'.history = s.history) : s'.entry = s.entry := by
  funext k
  simp [Store.entry, hc, hs, hh]

variable [DecidableEq κ] [DecidableEq η] [DecidableEq ν] [Inhabited κ] (E : Env κ η)

abbrev Io (κ η ν α : Type) := Prog (Store κ η ν) String α

/-! ## The pass -/

/-- the value of a label -/
def labelOf (labels : Labels) (label : String) : Option String := (labels.find? fun p => p.1 = label).map Prod.snd

/-- the object a container belongs to -/
def processKey (c : ContainerSummary) : Option (ProcessKind × String) :=
  let labels := c.labels.getD []
  match labelOf labels "io.nanocl.kind" with
  | some "cargo" => (labelOf labels "io.nanocl.c").map (.cargo, ·)
  | some "job" => (labelOf labels "io.nanocl.j").map (.job, ·)
  | some "vm" => (labelOf labels "io.nanocl.v").map (.vm, ·)
  | _ => none

/-- `key.split('.')`, where it has exactly two parts -/
def splitKey (key : String) : Option (String × String) :=
  match key.toList.splitOn '.' with
  | [name, nsp] => some (String.ofList name, String.ofList nsp)
  | _ => none

/-- `gen_key` -/
def genKey (nsp name : String) : String := name ++ "." ++ nsp

omit [DecidableEq κ] [DecidableEq η] [DecidableEq ν] [Inhabited κ] in
theorem genKey_inj {nsp name name' : String} (h : genKey nsp name = genKey nsp name') : name = name' := by
  have hlist := congrArg String.toList h
  simp only [genKey, String.toList_append] at hlist
  exact String.toList_injective (List.append_cancel_right (List.append_cancel_right hlist))

/-! ### The pass over any store -/

section Calls

variable {σ ε α ρ γ : Type}

/-- the calls of the pass on a store: `α` is an entry of docker's list, `ρ` the inspection of a container, `γ` a cargo -/
structure SyncCalls (σ ε α ρ γ : Type) where
  summary : α → ContainerSummary
  inspectContainer : α → Prog σ ε ρ
  /-- `sync_process` -/
  syncProcess : String → ProcessKind → α → ρ → Prog σ ε Unit
  /-- `CargoDb::transform_read_by_pk`, if it succeeds -/
  readCargo : String → Prog σ ε (Option γ)
  /-- `register_namespace`, and whether it succeeds -/
  registerNamespace : String → Prog σ ε Bool
  /-- `CargoDb::create_obj` of the namespace, the name and the container -/
  createObj : String → String → ρ → Prog σ ε γ
  /-- `sync_cargo_status` -/
  syncCargoStatus : γ → ρ → Prog σ ε Unit
  /-- the container of the cargo's spec is the one that docker reports -/
  sameContainer : γ → ρ → Bool
  /-- `CargoDb::update_from_spec` of the key, the name and the container -/
  updateFromSpec : String → String → ρ → Prog σ ε Unit

namespace SyncCalls

variable (C : SyncCalls σ ε α ρ γ)

/-- the body of the loop for the first container of a cargo -/
def syncCargo (key name nsp : String) (container : ρ) : Prog σ ε Unit := do
  match ← C.readCargo key with
  | none =>
    match ← C.registerNamespace nsp with
    | false => return ()
    | true => do
      let cargo ← C.createObj nsp name container
      C.syncCargoStatus cargo container
  | some cargo => do
    C.syncCargoStatus cargo container
    if C.sameContainer cargo container then return ()
    C.updateFromSpec key name container

/-- the loop over the containers; `inspected` are the cargoes met so far, `ids` the containers -/
def syncContainers : List α → List String → List String → Prog σ ε (List String)
  | [], _, ids => return ids
  | c :: l, inspected, ids =>
    match processKey (C.summary c) with
    | none => syncContainers l inspected ids
    | some (kind, key) => do
      let id := (C.summary c).id.getD ""
      let container ← C.inspectContainer c
      C.syncProcess key kind c container
      match if kind = .cargo then splitKey key else none with
      | none => syncContainers l inspected (ids ++ [id])
      | some (name, nsp) =>
        if key ∈ inspected then syncContainers l inspected (ids ++ [id])
        else do
          C.syncCargo key name nsp container
          syncContainers l (key :: inspected) (ids ++ [id])

/-- the calls keep `R`; an update is made under the name that its key begins with -/
structure Keep (R : σ → σ → Prop) : Prop where
  inspectContainer : ∀ c, Prog.Keeps R (C.inspectContainer c)
  syncProcess : ∀ key kind c container, Prog.Keeps R (C.syncProcess key kind c container)
  readCargo : ∀ key, Prog.Keeps R (C.readCargo key)
  registerNamespace : ∀ nsp, Prog.Keeps R (C.registerNamespace nsp)
  createObj : ∀ nsp name container, Prog.Keeps R (C.createObj nsp name container)
  syncCargoStatus : ∀ cargo container, Prog.Keeps R (C.syncCargoStatus cargo container)
  updateFromSpec : ∀ key name nsp, splitKey key = some (name, nsp) → ∀ container,
    Prog.Keeps R (C.updateFromSpec key name container)

variable {C} {R : σ → σ → Prop} [IsPreorder σ R]

theorem Keep.syncCargo (h : C.Keep R) {key name nsp : String} (hkey : splitKey key = some (name, nsp)) (container : ρ) :
    Prog.Keeps R (C.syncCargo key name nsp container) := by
  refine Prog.keeps_bind (h.readCargo key) fun cargo => ?_
  cases cargo with
  | none =>
    refine Prog.keeps_bind (h.registerNamespace nsp) fun registered => ?_
    cases registered with
    | false => exact Prog.keeps_pure ()
    | true => exact Prog.keeps_bind (h.createObj nsp name container) fun cargo => h.syncCargoStatus cargo container
  | some cargo =>
    refine Prog.keeps_bind (h.syncCargoStatus cargo container) fun _ => ?_
    cases hsame : C.sameContainer cargo container with
    | false => exact h.updateFromSpec key name nsp hkey container
    | true => exact Prog.keeps_pure ()

/-- **What its calls keep, the loop keeps.** -/
theorem Keep.syncContainers (h : C.Keep R) (l : List α) (inspected ids : List String) :
    Prog.Keeps R (C.syncContainers l inspected ids) := by
  induction l generalizing inspected ids with
  | nil => exact Prog.keeps_pure ids
  | cons c l ih =>
    unfold SyncCalls.syncContainers
    cases processKey (C.summary c) with
    | none => exact ih inspected ids
    | some kindKey =>
      obtain ⟨kind, key⟩ := kindKey
      refine Prog.keeps_bind (h.inspectContainer c) fun container =>
        Prog.keeps_bind (h.syncProcess key kind c container) fun _ => ?_
      cases hsplit : (if kind = .cargo then splitKey key else none) with
      | none => exact ih inspected _
      | some parts =>
        obtain ⟨name, nsp⟩ := parts
        have hkey : splitKey key = some (name, nsp) := by
          by_cases hcargo : kind = .cargo
          · rwa [if_pos hcargo] at hsplit
          · rw [if_neg hcargo] at hsplit
            cases hsplit
        by_cases hmet : key ∈ inspected
        · simp only [if_pos hmet]
          exact ih inspected _
        · simp only [if_neg hmet]
          exact Prog.keeps_bind (h.syncCargo hkey container) fun _ => ih (key :: inspected) _

end SyncCalls

end Calls

/-! ### The pass over this store -/

/-- `sync_process` -/
def syncProcess (key : String) (kind : ProcessKind) (id : String) (instance_ : ContainerInspectResponse κ η) :
    Io κ η ν Unit := do
  let name := String.ofList ((instance_.name.getD "").toList.filter (· ≠ '/'))
  let s ← Prog.get
  match s.processes.find? fun p => p.key = id with
  | some current =>
    if current.data = instance_ then
      return ()
    Prog.modify fun s => { s with
      processes := s.processes.map fun p => if p.key = id then { p with name := name, data := instance_ } else p }
  | none =>
    match E.parseCreated (instance_.created.getD "") with
    | none => Prog.fail "invalid data"
    | some createdAt =>
      Prog.modify fun s => { s with
        processes := s.processes ++ [⟨id, name, kind, key, E.hostname, createdAt, instance_⟩] }

/-- `register_namespace` -/
def registerNamespace (name : String) : Io κ η ν Unit :=
  Prog.modify fun s => { s with namespaces := if name ∈ s.namespaces then s.namespaces else s.namespaces ++ [name] }

/-- what `fn_create_obj` accepts as a name -/
def validName (name : String) : Bool := name.toList.all fun c => E.isAlphanumeric c || c = '_' || c = '-'

/-- `CargoDb::fn_create_obj`: the spec is stored before the status row, which fails if there is one -/
def createObj (nsp : String) (spec : CargoSpecPartial κ η ν) : Io κ η ν Unit :=
  if validName E spec.name then do
    let key := genKey nsp spec.name
    let new : SpecDb κ η ν := ⟨E.version, spec⟩
    Prog.modify fun s => s.addSpec key new
    let s ← Prog.get
    if (s.statuses key).isSome then
      Prog.fail "duplicate key"
    else
      Prog.modify fun s => s.insertCargo key ⟨spec.name, nsp, new⟩
  else Prog.fail "Cargo name can only contain a-z, A-Z, 0-9, and -_"

/-- `sync_cargo_status` -/
def syncStatusOf (key : String) (container : ContainerInspectResponse κ η) : Io κ η ν Unit :=
  match syncCargoStatus container.status with
  | none => return ()
  | some update => do
    let s ← Prog.get
    match s.statuses key with
    | none => Prog.fail "ObjPsStatusDb not found"
    | some status => Prog.modify fun s => s.setStatus key (update.set status)

/-- `CargoDb::update_from_spec` -/
def updateFromSpec (key : String) (item : CargoSpecPartial κ η ν) : Io κ η ν Unit := do
  let s ← Prog.get
  match s.cargoes key with
  | none => Prog.fail "CargoDb not found"
  | some _ =>
    let new : SpecDb κ η ν := ⟨E.version, item⟩
    Prog.modify fun s => (s.addSpec key new).modifyCargo key fun cargo => { cargo with name := item.name, spec := new }

/-- the configuration of a container as docker reports it -/
def configOf (container : ContainerInspectResponse κ η) : Config κ η ν := ⟨container.config.getD default, container.hostConfig, none⟩

/-- the spec that the pass makes of a container: a name and a configuration -/
def specOf (name : String) (container : ContainerInspectResponse κ η) : CargoSpecPartial κ η ν where
  name := name
  metadata := none
  initContainer := none
  secrets := none
  container := configOf container
  replication := none
  imagePullSecret := none
  imagePullPolicy := none

/-- `inspect_container` -/
def inspectContainer (id : String) : Io κ η ν (ContainerInspectResponse κ η) :=
  match E.inspect id with
  | .ok container => return container
  | .error message => Prog.fail message

/-- the calls on this store; a cargo is its key and its row, if it was there before -/
def calls : SyncCalls (Store κ η ν) String ContainerSummary (ContainerInspectResponse κ η) (String × Option (CargoDb κ η ν)) where
  summary c := c
  inspectContainer c := inspectContainer E (c.id.getD "")
  syncProcess key kind c container := syncProcess E key kind (c.id.getD "") container
  readCargo key := do
    let s ← Prog.get
    return (s.cargoes key).map fun cargo => (key, some cargo)
  registerNamespace nsp := do
    registerNamespace nsp
    return true
  createObj nsp name container := do
    createObj E nsp (specOf name container)
    return (genKey nsp name, none)
  syncCargoStatus cargo container := syncStatusOf cargo.1 container
  sameContainer cargo container := cargo.2.any fun row => row.spec.data.container = configOf container
  updateFromSpec key name container := updateFromSpec E key (specOf name container)

/-- the body of the loop for the first container of a cargo -/
def syncCargo (key name nsp : String) (container : ContainerInspectResponse κ η) : Io κ η ν Unit :=
  (calls E).syncCargo key name nsp container

/-- the loop over the containers -/
def syncContainers (l : List ContainerSummary) (inspected ids : List String) : Io κ η ν (List String) :=
  (calls E).syncContainers l inspected ids

/-- `sync_processes`; the rows of this node whose container is gone are deleted at the end -/
def syncProcesses (containers : List ContainerSummary) : Io κ η ν Unit := do
  let ids ← syncContainers E containers [] []
  Prog.modify fun s => { s with
    processes := s.processes.filter fun p => ¬ (p.key ∉ ids ∧ p.nodeName = E.hostname) }

/-! ## What a container decides -/

/-- the cargo a container may decide -/
def subject (c : ContainerSummary) : Option String :=
  match processKey c with
  | some (.cargo, key) => if (splitKey key).isSome then some key else none
  | _ => none

theorem subject_eq_some {c : ContainerSummary} {key : String} :
    subject c = some key ↔ processKey c = some (.cargo, key) ∧ (splitKey key).isSome := by
  unfold subject
  split
  · rename_i key' hkey
    rw [hkey]
    constructor
    · intro h
      split_ifs at h with hs
      obtain rfl := Option.some.inj h
      exact ⟨rfl, hs⟩
    · rintro ⟨h, hs⟩
      obtain rfl : key' = key := (Prod.mk.inj (Option.some.inj h)).2
      rw [if_pos hs]
  · rename_i hne
    exact iff_of_false (by simp) fun h => hne key h.1

/-- the status row after `sync_cargo_status` -/
def applyStatus (container : ContainerInspectResponse κ η) (status : ObjPsStatus) : ObjPsStatus :=
  ((syncCargoStatus container.status).map (·.set status)).getD status

/-- the first container of a cargo, on what the store has about it -/
def decide_ (name nsp : String) (container : ContainerInspectResponse κ η) (e : Entry κ η ν) : Entry κ η ν :=
  let new : SpecDb κ η ν := ⟨E.version, specOf name container⟩
  match e.cargo with
  | none => ⟨some ⟨name, nsp, new⟩, some (applyStatus container created), e.history ++ [new]⟩
  | some cargo =>
    if cargo.spec.data.container = configOf container then { e with status := e.status.map (applyStatus container) }
    else ⟨some { cargo with name := name, spec := new }, e.status.map (applyStatus container), e.history ++ [new]⟩

/-- the cargo does not exist, and its creation would succeed -/
def Store.creatable (s : Store κ η ν) (key : String) : Bool :=
  validName E (((splitKey key).map Prod.fst).getD "") && (s.statuses key).isNone

theorem genKey_of_splitKey {key name nsp : String} (h : splitKey key = some (name, nsp)) : genKey nsp name = key := by
  unfold splitKey at h
  split at h
  · rename_i a b hsplit
    obtain ⟨rfl, rfl⟩ := Prod.mk.inj (Option.some.inj h)
    apply String.toList_injective
    have hjoin : ['.'].intercalate (key.toList.splitOn '.') = key.toList := List.intercalate_splitOn '.'
    rw [hsplit] at hjoin
    simp [genKey, ← hjoin, List.intercalate]
  · cases h

/-! ### The functions of the pass -/

@[simp] theorem calls_summary (c : ContainerSummary) : (calls E (ν := ν)).summary c = c := rfl

/-- the first container of a cargo that is not there -/
theorem syncCargo_new {key : String} (name nsp : String) (container : ContainerInspectResponse κ η) {s : Store κ η ν}
    (h : s.cargoes key = none) : syncCargo E key name nsp container s = (do
      registerNamespace nsp
      createObj E nsp (specOf name container)
      syncStatusOf (genKey nsp name) container : Io κ η ν Unit) s := by
  unfold syncCargo SyncCalls.syncCargo
  simp only [calls, bind_assoc, pure_bind, Prog.get_bind, h, Option.map_none]

/-- and of one that is -/
theorem syncCargo_known {key : String} (name nsp : String) (container : ContainerInspectResponse κ η) {s : Store κ η ν}
    {cargo : CargoDb κ η ν} (h : s.cargoes key = some cargo) : syncCargo E key name nsp container s = (do
      syncStatusOf key container
      if cargo.spec.data.container = configOf container then
        return ()
      updateFromSpec E key (specOf name container) : Io κ η ν Unit) s := by
  unfold syncCargo SyncCalls.syncCargo
  simp only [calls, bind_assoc, pure_bind, Prog.get_bind, h, Option.map_some, Option.any_some, decide_eq_true_eq]

/-- the store has a process row of the container, or the one it is about to add has a date -/
def recordable (s : Store κ η ν) (id : String) (container : ContainerInspectResponse κ η) : Bool :=
  (s.processes.any fun p => p.key = id) || (E.parseCreated (container.created.getD "")).isSome

omit [DecidableEq κ] [DecidableEq η] [DecidableEq ν] [Inhabited κ] in
theorem inspectContainer_run {id : String} {r : Except String (ContainerInspectResponse κ η)} (h : E.inspect id = r)
    (s : Store κ η ν) : inspectContainer E id s = (r, s) := by
  subst h
  unfold inspectContainer
  cases E.inspect id with
  | ok container => rfl
  | error message => rfl

omit [DecidableEq ν] [Inhabited κ] in
/-- the row of the container is stored, or the pass ends -/
theorem syncProcess_cases (key : String) (kind : ProcessKind) (id : String) (container : ContainerInspectResponse κ η)
    (s : Store κ η ν) :
    (recordable E s id container = true ∧ ∃ s', syncProcess E key kind id container s = (.ok (), s') ∧
      s'.entry = s.entry ∧ ∀ i, (s'.processes.any fun p => p.key = i) = ((s.processes.any fun p => p.key = i) || i == id)) ∨
    (recordable E s id container = false ∧ ∃ message, syncProcess E key kind id container s = (.error message, s)) := by
  unfold syncProcess recordable
  simp only [Prog.get_bind]
  cases hf : s.processes.find? fun p => p.key = id with
  | some current =>
    have hknown : (s.processes.any fun p => decide (p.key = id)) = true :=
      List.any_eq_true.2 ⟨current, List.mem_of_find?_eq_some hf, by simpa using List.find?_some hf⟩
    refine Or.inl ⟨by simp [hknown], ?_⟩
    have hsame : ∀ i, (s.processes.any fun p => decide (p.key = i)) =
        ((s.processes.any fun p => decide (p.key = i)) || i == id) := by
      intro i
      by_cases hi : i = id
      · simp [hi, hknown]
      · simp [hi]
    simp only []
    split_ifs
    · exact ⟨s, rfl, rfl, hsame⟩
    · refine ⟨_, rfl, entry_ext rfl rfl rfl, fun i => ?_⟩
      rw [← hsame i, List.any_map]
      congr 1
      funext p
      simp only [Function.comp]
      split_ifs <;> rfl
  | none =>
    have hunknown : (s.processes.any fun p => decide (p.key = id)) = false := by
      simpa using hf
    cases hp : E.parseCreated (container.created.getD "") with
    | none => exact Or.inr ⟨by simp [hunknown], _, rfl⟩
    | some createdAt =>
      refine Or.inl ⟨by simp, _, rfl, entry_ext rfl rfl rfl, fun i => ?_⟩
      simp [List.any_append, eq_comm, beq_eq_decide]

omit [DecidableEq κ] [DecidableEq η] [DecidableEq ν] [Inhabited κ] in
theorem syncStatusOf_spec {key : String} (container : ContainerInspectResponse κ η) {s : Store κ η ν} {status : ObjPsStatus}
    (h : s.statuses key = some status) :
    ∃ s', syncStatusOf key container s = (.ok (), s') ∧ s'.processes = s.processes ∧
      s'.entry = Function.update s.entry key { s.entry key with status := some (applyStatus container status) } := by
  unfold syncStatusOf applyStatus
  cases hu : syncCargoStatus container.status with
  | none =>
    refine ⟨s, rfl, rfl, ?_⟩
    have : ({ s.entry key with status := some status } : Entry κ η ν) = s.entry key := by
      simp [Store.entry, h]
    simp [this]
  | some update =>
    refine ⟨_, ?_, ?_, entry_setStatus s key _⟩
    · simp only [Prog.get_bind, h]
      rfl
    · rfl

omit [DecidableEq κ] [DecidableEq η] [DecidableEq ν] in
/-- a creation succeeds exactly if the cargo is creatable; one that fails may leave a spec -/
theorem createObj_cases {key name nsp : String} (hkey : splitKey key = some (name, nsp))
    (container : ContainerInspectResponse κ η) (s : Store κ η ν) :
    (s.creatable E key = true ∧ ∃ s', createObj E nsp (specOf name container) s = (.ok (), s') ∧ s'.processes = s.processes ∧
      s'.entry = Function.update s.entry key ⟨some ⟨name, nsp, ⟨E.version, specOf name container⟩⟩, some created,
        s.history key ++ [⟨E.version, specOf name container⟩]⟩) ∨
    (s.creatable E key = false ∧ ∃ message s', createObj E nsp (specOf name container) s = (.error message, s') ∧
      ∀ k, s'.cargoes k = s.cargoes k ∧ s'.statuses k = s.statuses k ∧ (k ≠ key → s'.history k = s.history k)) := by
  have hgen : genKey nsp name = key := genKey_of_splitKey hkey
  have hname : (specOf (ν := ν) name container).name = name := rfl
  unfold createObj Store.creatable
  rw [hkey, hname]
  simp only [Option.map_some, Option.getD_some]
  cases hv : validName E name with
  | false =>
    refine Or.inr ⟨rfl, _, s, rfl, fun k => ⟨rfl, rfl, fun _ => rfl⟩⟩
  | true =>
    simp only [if_true, Prog.modify_bind, Prog.get_bind, hgen, Bool.true_and]
    cases hst : s.statuses key with
    | some status =>
      have hst' : ((s.addSpec key ⟨E.version, specOf name container⟩).statuses key).isSome := by
        simp [Store.addSpec, hst]
      rw [if_pos hst']
      refine Or.inr ⟨rfl, _, _, rfl, fun k => ⟨rfl, rfl, fun hk => ?_⟩⟩
      simp [Store.addSpec, hk]
    | none =>
      have hst' : ¬ ((s.addSpec key ⟨E.version, specOf name container⟩).statuses key).isSome := by
        simp [Store.addSpec, hst]
      rw [if_neg hst']
      refine Or.inl ⟨rfl, _, rfl, rfl, ?_⟩
      unfold Store.insertCargo
      rw [entry_setCargo, entry_setStatus, entry_addSpec]
      simp [Store.entry]

omit [DecidableEq κ] [DecidableEq η] [DecidableEq ν] [Inhabited κ] in
theorem updateFromSpec_spec {key : String} (item : CargoSpecPartial κ η ν) {s : Store κ η ν} {cargo : CargoDb κ η ν}
    (h : s.cargoes key = some cargo) :
    ∃ s', updateFromSpec E key item s = (.ok (), s') ∧ s'.processes = s.processes ∧
      s'.entry = Function.update s.entry key ⟨some { cargo with name := item.name, spec := ⟨E.version, item⟩ },
        s.statuses key, s.history key ++ [⟨E.version, item⟩]⟩ := by
  refine ⟨(s.addSpec key ⟨E.version, item⟩).modifyCargo key fun cargo =>
    { cargo with name := item.name, spec := ⟨E.version, item⟩ }, ?_, rfl, ?_⟩
  · simp only [updateFromSpec, Prog.get_bind, h]
    rfl
  · have hc : (s.addSpec key ⟨E.version, item⟩).cargoes key = some cargo := h
    rw [entry_modifyCargo, entry_addSpec, hc]
    simp [Store.entry]

/-- the first container of a cargo decides it, or the cargo cannot be created and the pass ends -/
theorem syncCargo_cases {key name nsp : String} (hkey : splitKey key = some (name, nsp))
    (container : ContainerInspectResponse κ η) (s : Store κ η ν) :
    (((s.cargoes key).isSome ∨ s.creatable E key = true) ∧ ∃ s', syncCargo E key name nsp container s = (.ok (), s') ∧
      s'.processes = s.processes ∧ s'.entry = Function.update s.entry key (decide_ E name nsp container (s.entry key))) ∨
    ((s.cargoes key = none ∧ s.creatable E key = false) ∧ ∃ message s', syncCargo E key name nsp container s =
      (.error message, s') ∧ ∀ k, s'.cargoes k = s.cargoes k ∧ s'.statuses k = s.statuses k ∧
        (k ≠ key → s'.history k = s.history k)) := by
  have hgen : genKey nsp name = key := genKey_of_splitKey hkey
  cases hc : s.cargoes key with
  | none =>
    rw [syncCargo_new E name nsp container hc]
    simp only [registerNamespace, Prog.modify_bind]
    generalize hs0 : ({ s with namespaces := if nsp ∈ s.namespaces then s.namespaces else s.namespaces ++ [nsp] } :
      Store κ η ν) = s0
    have hentry : s0.entry = s.entry := by subst hs0; rfl
    have hproc : s0.processes = s.processes := by subst hs0; rfl
    have hcreat : s0.creatable E key = s.creatable E key := by subst hs0; rfl
    rcases createObj_cases E hkey container s0 with ⟨hok, s1, h1, hp1, he1⟩ | ⟨hno, message, s1, h1, hsame⟩
    · refine Or.inl ⟨Or.inr (hcreat ▸ hok), ?_⟩
      have hst1 : s1.statuses key = some created := by
        have := congrArg Entry.status (congrFun he1 key)
        simpa [Store.entry] using this
      obtain ⟨s2, h2, hp2, he2⟩ := syncStatusOf_spec container hst1
      refine ⟨s2, ?_, hp2.trans (hp1.trans hproc), ?_⟩
      · rw [Prog.bind_of_ok h1, hgen]
        exact h2
      · rw [he2, he1, hentry]
        have hh : s0.history key = s.history key := congrArg Entry.history (congrFun hentry key)
        simp [decide_, Store.entry, hc, hh]
    · refine Or.inr ⟨⟨trivial, hcreat ▸ hno⟩, message, s1, ?_, ?_⟩
      · rw [Prog.bind_of_error h1]
      · subst hs0
        exact hsame
  | some cargo =>
    refine Or.inl ⟨Or.inl (by simp), ?_⟩
    obtain ⟨status, hst⟩ := Option.isSome_iff_exists.1 (s.status_of_cargo key (by rw [hc]; rfl))
    obtain ⟨s1, h1, hp1, he1⟩ := syncStatusOf_spec container hst
    rw [syncCargo_known E name nsp container hc, Prog.bind_of_ok h1]
    by_cases hcfg : cargo.spec.data.container = configOf container
    · rw [if_pos hcfg]
      refine ⟨s1, rfl, hp1, ?_⟩
      rw [he1]
      simp [decide_, Store.entry, hc, hst, hcfg]
    · rw [if_neg hcfg]
      have hc1 : s1.cargoes key = some cargo := by
        have := congrArg Entry.cargo (congrFun he1 key)
        simpa [Store.entry, hc] using this
      obtain ⟨s2, h2, hp2, he2⟩ := updateFromSpec_spec E (specOf name container) hc1
      refine ⟨s2, h2, hp2.trans hp1, ?_⟩
      have hst1 : s1.statuses key = some (applyStatus container status) := by
        have := congrArg Entry.status (congrFun he1 key)
        simpa [Store.entry] using this
      have hh1 : s1.history key = s.history key := by
        have := congrArg Entry.history (congrFun he1 key)
        simpa [Store.entry] using this
      rw [he2, he1]
      simp [decide_, Store.entry, hc, hst, hcfg, hst1, hh1, specOf]

/-! ### The whole pass -/

/-- the cargo exists or can be created -/
def settled (s : Store κ η ν) (key : String) : Bool := (s.cargoes key).isSome || s.creatable E key

/-- the pass gets past the container -/
def syncable (s : Store κ η ν) (c : ContainerSummary) : Bool :=
  match processKey c with
  | none => true
  | some _ =>
    match E.inspect (c.id.getD "") with
    | .error _ => false
    | .ok container =>
      recordable E s (c.id.getD "") container && match subject c with
        | none => true
        | some key => settled E s key

/-- a container on what the store has about its cargo -/
def act (c : ContainerSummary) (e : Entry κ η ν) : Entry κ η ν :=
  match subject c, E.inspect (c.id.getD "") with
  | some key, .ok container =>
    match splitKey key with
    | some (name, nsp) => decide_ E name nsp container e
    | none => e
  | _, _ => e

omit [DecidableEq κ] [DecidableEq η] [DecidableEq ν] [Inhabited κ] in
/-- the pass gets past the same containers in two stores with the same settled cargoes, once the row of one more
container is there -/
theorem syncable_congr {s s' : Store κ η ν} {id : String} {container : ContainerInspectResponse κ η}
    (hid : E.inspect id = .ok container) (hrec : recordable E s id container = true)
    (hp : ∀ i, (s'.processes.any fun p => p.key = i) = ((s.processes.any fun p => p.key = i) || i == id))
    (hc : ∀ k, settled E s' k = settled E s k) : syncable E s' = syncable E s := by
  funext c
  have hrecord : ∀ container', E.inspect (c.id.getD "") = .ok container' →
      recordable E s' (c.id.getD "") container' = recordable E s (c.id.getD "") container' := by
    intro container' h
    by_cases hi : c.id.getD "" = id
    · rw [hi] at h ⊢
      obtain rfl : container = container' := Except.ok.inj (hid.symm.trans h)
      rw [hrec]
      simp [recordable, hp]
    · have hne : (c.id.getD "" == id) = false := by simpa using hi
      simp [recordable, hp, hne]
  unfold syncable
  cases processKey c with
  | none => rfl
  | some kindKey =>
    cases hin : E.inspect (c.id.getD "") with
    | error message => rfl
    | ok container' =>
      simp only [hrecord container' hin]
      cases subject c with
      | none => rfl
      | some key => simp only [hc key]

omit [DecidableEq κ] [DecidableEq η] [DecidableEq ν] [Inhabited κ] in
theorem settled_of_entry {s s' : Store κ η ν} {k : String} (h : s'.entry k = s.entry k) :
    settled E s' k = settled E s k := by
  have hcargo : s'.cargoes k = s.cargoes k := congrArg Entry.cargo h
  have hstatus : s'.statuses k = s.statuses k := congrArg Entry.status h
  simp [settled, Store.creatable, hcargo, hstatus]

/-- a container that decides a cargo leaves it stored -/
theorem decide_isSome (name nsp : String) (container : ContainerInspectResponse κ η) (e : Entry κ η ν) :
    (decide_ E name nsp container e).cargo.isSome := by
  cases hc : e.cargo with
  | none => simp [decide_, hc]
  | some cargo =>
    simp only [decide_, hc]
    split_ifs
    · simp
    · rfl

/-- the store agrees with the values of the pass; the history counts for cargoes that exist or can be created -/
def Agrees (s s' : Store κ η ν) (v : String → Entry κ η ν) : Prop :=
  ∀ k, s'.cargoes k = (v k).cargo ∧ s'.statuses k = (v k).status ∧ (settled E s k = true → s'.history k = (v k).history)

omit [DecidableEq κ] [DecidableEq η] [DecidableEq ν] [Inhabited κ] in
theorem agrees_refl (s : Store κ η ν) : Agrees E s s s.entry := fun _ => ⟨rfl, rfl, fun _ => rfl⟩

omit [DecidableEq κ] [DecidableEq η] [DecidableEq ν] [Inhabited κ] in
theorem Agrees.of_settled {s s1 s' : Store κ η ν} {v : String → Entry κ η ν} (h : Agrees E s1 s' v)
    (hset : ∀ k, settled E s1 k = settled E s k) : Agrees E s s' v :=
  fun k => ⟨(h k).1, (h k).2.1, fun hk => (h k).2.2 ((hset k).trans hk)⟩

/-- a key that is settled stays so when its cargo is decided -/
theorem settled_of_update {s s' : Store κ η ν} {key name nsp : String} {container : ContainerInspectResponse κ η}
    (hent : s'.entry = Function.update s.entry key (decide_ E name nsp container (s.entry key)))
    (hkey : settled E s key = true) (k : String) : settled E s' k = settled E s k := by
  by_cases hk : k = key
  · subst hk
    have he : s'.entry k = decide_ E name nsp container (s.entry k) := by rw [hent, Function.update_self]
    have hc : s'.cargoes k = (decide_ E name nsp container (s.entry k)).cargo := congrArg Entry.cargo he
    rw [hkey, settled, hc, decide_isSome]
    rfl
  · exact settled_of_entry E (by rw [hent, Function.update_of_ne hk])

/-! ### One container of the loop -/

section Loop

variable {c : ContainerSummary} {kind : ProcessKind} {key name nsp message : String}
  {container : ContainerInspectResponse κ η} {s s₁ : Store κ η ν} (l : List ContainerSummary) (inspected ids : List String)

/-- a container that is no process is passed over -/
theorem syncContainers_skip (hkey : processKey c = none) :
    syncContainers E (c :: l) inspected ids s = syncContainers E l inspected ids s := by
  simp only [syncContainers, SyncCalls.syncContainers, calls_summary, hkey]

/-- one that cannot be inspected ends the loop -/
theorem syncContainers_unread (hkey : processKey c = some (kind, key)) (hin : E.inspect (c.id.getD "") = .error message) :
    syncContainers E (c :: l) inspected ids s = (.error message, s) := by
  simp only [syncContainers, SyncCalls.syncContainers, calls_summary, hkey]
  exact Prog.bind_of_error (inspectContainer_run E hin s)

/-- and so does one whose row is not written -/
theorem syncContainers_unwritten (hkey : processKey c = some (kind, key))
    (hin : E.inspect (c.id.getD "") = .ok container)
    (hrow : syncProcess E key kind (c.id.getD "") container s = (.error message, s₁)) :
    syncContainers E (c :: l) inspected ids s = (.error message, s₁) := by
  simp only [syncContainers, SyncCalls.syncContainers, calls_summary, hkey]
  exact (Prog.bind_of_ok (inspectContainer_run E hin s)).trans (Prog.bind_of_error hrow)

/-- a process of no cargo, or of one that was met before, is done with its row -/
theorem syncContainers_row (hkey : processKey c = some (kind, key)) (hin : E.inspect (c.id.getD "") = .ok container)
    (hrow : syncProcess E key kind (c.id.getD "") container s = (.ok (), s₁))
    (hmet : (if kind = .cargo then splitKey key else none) = none ∨ key ∈ inspected) :
    syncContainers E (c :: l) inspected ids s = syncContainers E l inspected (ids ++ [c.id.getD ""]) s₁ := by
  simp only [syncContainers, SyncCalls.syncContainers, calls_summary, hkey]
  refine (Prog.bind_of_ok (inspectContainer_run E hin s)).trans ((Prog.bind_of_ok hrow).trans ?_)
  cases hsplit : (if kind = .cargo then splitKey key else none) with
  | none => rfl
  | some nameNsp =>
    obtain hnone | hmem := hmet
    · cases hnone.symm.trans hsplit
    · simp only [hmem, if_true]

/-- the first one of a cargo decides what becomes of the cargo -/
theorem syncContainers_first (hkey : processKey c = some (.cargo, key)) (hin : E.inspect (c.id.getD "") = .ok container)
    (hrow : syncProcess E key .cargo (c.id.getD "") container s = (.ok (), s₁)) (hsplit : splitKey key = some (name, nsp))
    (hmet : key ∉ inspected) :
    syncContainers E (c :: l) inspected ids s = (do
      syncCargo E key name nsp container
      syncContainers E l (key :: inspected) (ids ++ [c.id.getD ""]) : Io κ η ν (List String)) s₁ := by
  simp only [syncContainers, SyncCalls.syncContainers, calls_summary, hkey]
  refine (Prog.bind_of_ok (inspectContainer_run E hin s)).trans ((Prog.bind_of_ok hrow).trans ?_)
  simp only [if_true, hsplit, hmet, if_false]
  rfl

end Loop

/-- up to the first container that fails, the pass is that of the first container of each cargo -/
theorem syncContainers_eq (l : List ContainerSummary) (inspected ids : List String) (s : Store κ η ν)
    (hI : ∀ k ∈ inspected, (s.cargoes k).isSome) :
    Agrees E s (syncContainers E l inspected ids s).2 (passes subject (act E) (l.takeWhile (syncable E s)) inspected s.entry) := by
  induction l generalizing inspected ids s with
  | nil => exact agrees_refl E s
  | cons c l ih =>
    cases hkey : processKey c with
    | none =>
      have hsub : subject c = none := by simp [subject, hkey]
      have hok : syncable E s c = true := by simp [syncable, hkey]
      rw [List.takeWhile_cons_of_pos hok, syncContainers_skip E l inspected ids hkey]
      simp only [passes, hsub]
      exact ih inspected ids s hI
    | some kindKey =>
      obtain ⟨kind, key⟩ := kindKey
      cases hin : E.inspect (c.id.getD "") with
      | error message =>
        have hno : syncable E s c = false := by simp [syncable, hkey, hin]
        rw [List.takeWhile_cons_of_neg (by simp [hno]), syncContainers_unread E l inspected ids hkey hin]
        exact agrees_refl E s
      | ok container =>
        rcases syncProcess_cases E key kind (c.id.getD "") container s with ⟨hrec, s1, hs1, hent, hproc⟩ | ⟨hno, message, hs1⟩
        · have hset : ∀ k, settled E s1 k = settled E s k := fun k => settled_of_entry E (congrFun hent k)
          have hsync : syncable E s1 = syncable E s := syncable_congr E hin hrec hproc hset
          have hI1 : ∀ k ∈ inspected, (s1.cargoes k).isSome := by
            intro k hk
            have hc : s1.cargoes k = s.cargoes k := congrArg Entry.cargo (congrFun hent k)
            rw [hc]
            exact hI k hk
          have hrest := ih inspected (ids ++ [c.id.getD ""]) s1 hI1
          rw [hsync, hent] at hrest
          cases hsplit : (if kind = .cargo then splitKey key else none) with
          | none =>
            have hsub : subject c = none := by
              cases kind <;> simp_all [subject]
            have hok : syncable E s c = true := by simp [syncable, hkey, hin, hrec, hsub]
            rw [List.takeWhile_cons_of_pos hok, syncContainers_row E l inspected ids hkey hin hs1 (.inl hsplit)]
            simp only [passes, hsub]
            exact hrest.of_settled E hset
          | some nameNsp =>
            obtain ⟨name, nsp⟩ := nameNsp
            obtain rfl : kind = .cargo := by
              by_contra hne
              simp [hne] at hsplit
            rw [if_pos rfl] at hsplit
            have hsub : subject c = some key := by simp [subject, hkey, hsplit]
            by_cases hmem : key ∈ inspected
            · have hok : syncable E s c = true := by
                simp [syncable, hkey, hin, hrec, hsub, settled, hI key hmem]
              rw [List.takeWhile_cons_of_pos hok, syncContainers_row E l inspected ids hkey hin hs1 (.inr hmem)]
              simp only [passes, hsub, hmem, if_true]
              exact hrest.of_settled E hset
            · rw [syncContainers_first E l inspected ids hkey hin hs1 hsplit hmem]
              rcases syncCargo_cases E hsplit container s1 with ⟨hsettled, s2, hs2, hproc2, hent2⟩ | ⟨hno, message, s2, hs2, hsame⟩
              · have hkey1 : settled E s1 key = true := by simpa [settled] using hsettled
                have hok : syncable E s c = true := by
                  simp [syncable, hkey, hin, hrec, hsub, ← hset key, hkey1]
                rw [List.takeWhile_cons_of_pos hok, Prog.bind_of_ok hs2]
                simp only [passes, hsub, hmem, if_false]
                have hset2 : ∀ k, settled E s2 k = settled E s k := fun k =>
                  (settled_of_update E hent2 hkey1 k).trans (hset k)
                have hsync2 : syncable E s2 = syncable E s :=
                  syncable_congr E hin hrec (fun i => by rw [hproc2]; exact hproc i) hset2
                have hI2 : ∀ k ∈ key :: inspected, (s2.cargoes k).isSome := by
                  intro k hk
                  by_cases hkk : k = key
                  · have he : s2.entry k = decide_ E name nsp container (s1.entry key) := by
                      rw [hent2, hkk, Function.update_self]
                    rw [show s2.cargoes k = _ from congrArg Entry.cargo he]
                    exact decide_isSome E _ _ _ _
                  · have he : s2.entry k = s1.entry k := by rw [hent2, Function.update_of_ne hkk]
                    rw [show s2.cargoes k = s1.cargoes k from congrArg Entry.cargo he]
                    exact hI1 k ((List.mem_cons.1 hk).resolve_left hkk)
                have hrest2 := ih (key :: inspected) (ids ++ [c.id.getD ""]) s2 hI2
                have hact : act E c (s.entry key) = decide_ E name nsp container (s.entry key) := by
                  simp [act, hsub, hin, hsplit]
                rw [hsync2, hent2, hent, ← hact] at hrest2
                exact hrest2.of_settled E hset2
              · have hkey1 : settled E s1 key = false := by simpa [settled] using hno
                have hbad : syncable E s c = false := by
                  simp [syncable, hkey, hin, hsub, ← hset key, hkey1]
                rw [List.takeWhile_cons_of_neg (by simp [hbad]), Prog.bind_of_error hs2]
                intro k
                obtain ⟨hc, hst, hh⟩ := hsame k
                have he : s1.entry k = s.entry k := congrFun hent k
                refine ⟨hc.trans (congrArg Entry.cargo he), hst.trans (congrArg Entry.status he), fun hk => ?_⟩
                refine (hh ?_).trans (congrArg Entry.history he)
                rintro rfl
                rw [← hset k, hkey1] at hk
                cases hk
        · have hbad : syncable E s c = false := by simp [syncable, hkey, hin, hno]
          rw [List.takeWhile_cons_of_neg (by simp [hbad]), syncContainers_unwritten E l inspected ids hkey hin hs1]
          exact agrees_refl E s

/-- the store after a whole pass -/
theorem syncProcesses_eq (l : List ContainerSummary) (s : Store κ η ν) :
    Agrees E s (syncProcesses E l s).2 (applyFirsts subject (act E) (l.takeWhile (syncable E s)) s.entry) := by
  have hpass := syncContainers_eq E l [] [] s (by simp)
  have hfirst : passes subject (act E) (l.takeWhile (syncable E s)) [] s.entry =
      applyFirsts subject (act E) (l.takeWhile (syncable E s)) s.entry := by
    funext k
    simp [passes_eq]
  rw [hfirst] at hpass
  unfold syncProcesses
  rcases hr : syncContainers E l [] [] s with ⟨e | ids, s'⟩
  · rw [Prog.bind_of_error hr]
    rw [hr] at hpass
    exact hpass
  · rw [Prog.bind_of_ok hr]
    rw [hr] at hpass
    exact hpass

end Nanocl.Sync
