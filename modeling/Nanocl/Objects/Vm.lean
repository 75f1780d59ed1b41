/-
The requests on VMs (`objects/vm.rs`, `services/vm`): create, put, patch, delete and the listing of the history, and
the task that deletes a VM (`utils/container/vm.rs`). The disk of a VM is a snapshot of its own; a patch keeps it.
-/
import Nanocl.Objects.Cargo
import Nanocl.Objects.VmImage

namespace Nanocl.Objects

open Nanocl.Lib Nanocl.Status

variable {δ : Type} (E : Env δ)

abbrev Vm (δ : Type) := Object (VmSpec δ)

/-! ## Specifications -/

/-- `try_from_vm_partial` -/
def tryFromVmPartial (key version : String) (item : VmSpecPartial δ) (uuid : Uuid) : SpecDb δ where
  key := uuid
  kindName := .vm
  kindKey := key
  version := version
  data := E.vmSpec.toValue item
  metadata := item.metadata

/-- `try_to_vm_spec`: the metadata is that of the column, and the host configuration is there -/
def tryToVmSpec (s : SpecDb δ) : Except HttpError (VmSpec δ) := do
  let p ← serde (E.vmSpec.fromValue s.data)
  return { p with
    metadata := s.metadata
    hostConfig := some (p.hostConfig.getD .default)
    key := s.key
    vmKey := s.kindKey
    version := s.version }

@[simp] theorem tryToVmSpec_tryFrom (key version : String) (item : VmSpecPartial δ) (uuid : Uuid) :
    tryToVmSpec E (tryFromVmPartial E key version item uuid) =
      .ok { item with
        hostConfig := some (item.hostConfig.getD .default)
        key := uuid
        vmKey := key
        version := version } := by
  simp [tryToVmSpec, tryFromVmPartial, serde, E.vmSpec.fromValue_toValue, Except.mapError]

theorem columns_of_tryToVmSpec {s : SpecDb δ} {spec : VmSpec δ} (h : tryToVmSpec E s = .ok spec) :
    spec.key = s.key ∧ spec.vmKey = s.kindKey := by
  unfold tryToVmSpec at h
  cases hp : serde (E.vmSpec.fromValue s.data) with
  | error e => simp [hp, bind, Except.bind] at h
  | ok p =>
    simp only [hp, bind, Except.bind, pure, Except.pure, Except.ok.injEq] at h
    exact ⟨by rw [← h], by rw [← h]⟩

/-- the specifications of VMs; `update_from_spec` takes the key from the current spec -/
def vmFormat : Format δ (VmSpec δ) (VmSpecPartial δ) where
  kind := .vm
  specKind := .vm
  write := tryFromVmPartial E
  read := tryToVmSpec E
  name item := item.name
  specKey spec := spec.key
  ownerKey spec := spec.vmKey
  specName spec := spec.name
  updateKey _ spec := spec.vmKey
  key_write _ _ _ _ := rfl
  kindName_write _ _ _ _ := rfl
  kindKey_write _ _ _ _ := rfl
  readBack key version item uuid := { item with
    hostConfig := some (item.hostConfig.getD .default)
    key := uuid
    vmKey := key
    version := version }
  read_write := tryToVmSpec_tryFrom E
  specKey_readBack _ _ _ _ := rfl
  specName_readBack _ _ _ _ := rfl
  specKey_read _ _ h := (columns_of_tryToVmSpec E h).1
  ownerKey_read _ _ h := (columns_of_tryToVmSpec E h).2

/-- `VmDb::transform_read_by_pk` -/
def readVm (pk : String) : Io δ (Vm δ) := readObj E (vmFormat E) pk

/-! ## Create -/

structure VmObjCreateIn (δ : Type) where
  namespace_ : String
  spec : VmSpecPartial δ
  version : String

/-- `VmDb::fn_create_obj` -/
def createVm (obj : VmObjCreateIn δ) : Io δ (Vm δ) := do
  let name := obj.spec.name
  let vmKey := genKey obj.namespace_ name
  match ← Prog.attempt (readObject E .vm vmKey) with
  | .ok _ =>
    Prog.fail (conflict ("VM with name " ++ name ++ " already exists in namespace " ++ obj.namespace_))
  | .error _ =>
    if '.' ∈ name.toList then
      Prog.fail (badRequest "VM name cannot contain '.'")
    else do
      let image ← readVmImage E obj.spec.disk.image
      if image.kind ≠ .base then
        Prog.fail (badRequest ("Image " ++ obj.spec.disk.image ++
          " is not a base image please convert the snapshot into a base image first"))
      else do
        let size := obj.spec.disk.size.getD 20
        let snap ← createSnap E (image.name ++ "." ++ vmKey) size image
        let vm := { obj.spec with disk := ⟨snap.name, some size⟩ }
        let status ← createStatus E ⟨vmKey, created⟩
        let row ← createSpec E (tryFromVmPartial E vmKey obj.version vm)
        let spec ← ofExcept (tryToVmSpec E row)
        let item ← createObject E .vm ⟨vmKey, vm.name, spec.key, vmKey, obj.namespace_⟩
        return ⟨item.namespaceName, spec, status⟩

namespace VmObjCreateIn

/-- the key of the new VM -/
def key (obj : VmObjCreateIn δ) : String := genKey obj.namespace_ obj.spec.name

/-- the size of its disk -/
def size (obj : VmObjCreateIn δ) : ℕ := obj.spec.disk.size.getD 20

/-- the name of its disk, a snapshot of the image -/
def snapName (obj : VmObjCreateIn δ) (image : VmImageDb) : String := image.name ++ "." ++ obj.key

/-- its specification with that disk -/
def vm (obj : VmObjCreateIn δ) (image : VmImageDb) : VmSpecPartial δ :=
  { obj.spec with disk := ⟨obj.snapName image, some obj.size⟩ }

/-- its row -/
def row (obj : VmObjCreateIn δ) (uuid : Uuid) : ObjectDb := ⟨obj.key, obj.spec.name, uuid, obj.key, obj.namespace_⟩

end VmObjCreateIn

/-- the spec of the new VM -/
def vmSpecRow (obj : VmObjCreateIn δ) (image : VmImageDb) (uuid : Uuid) : SpecDb δ :=
  tryFromVmPartial E obj.key obj.version (obj.vm image) uuid

/-- a creation gets as far as the snapshot of its image -/
structure VmPrepared (w : World δ) (obj : VmObjCreateIn δ) (image : VmImageDb) : Prop where
  absent : E.fault w.calls ≠ none ∨ w.db.joined .vm obj.key = none
  dotless : '.' ∉ obj.spec.name.toList
  answers : E.fault (w.calls + 1) = none
  found : w.db.vmImages.find obj.spec.disk.image = some image
  base : image.kind = .base

/-- nothing goes wrong once the snapshot is stored -/
structure VmCompletes (w : World δ) (obj : VmObjCreateIn δ) : Prop where
  answers : E.fault (w.calls + 7) = none ∧ E.fault (w.calls + 8) = none ∧ E.fault (w.calls + 9) = none
  status : w.db.statuses.find obj.key = none
  uuid : w.db.specs.find (E.uuid (w.calls + 8)) = none
  row : w.db.vms.find obj.key = none
  namespace_ : (w.db.namespaces.find obj.namespace_).isSome

section Create

variable {E}

/-- what a creation does up to the snapshot -/
theorem createVm_prepared (obj : VmObjCreateIn δ) (w : World δ) :
    (∃ e k, createVm E obj w = (.error e, w.after k w.db) ∧ ∀ image, ¬ VmPrepared E w obj image) ∨
    ∃ image, VmPrepared E w obj image ∧ createVm E obj w = (do
      let _ ← createSnap E (obj.snapName image) obj.size image
      let status ← createStatus E ⟨obj.key, created⟩
      let row ← createSpec E (vmSpecRow E obj image)
      let spec ← ofExcept (tryToVmSpec E row)
      let item ← createObject E .vm (obj.row spec.key)
      return ⟨item.namespaceName, spec, status⟩ : Io δ (Vm δ)) (w.after 2 w.db) := by
  have hobj : createVm E obj w = (do
      match (readObject E .vm obj.key w).1 with
      | .ok _ =>
        Prog.fail (conflict ("VM with name " ++ obj.spec.name ++ " already exists in namespace " ++ obj.namespace_))
      | .error _ =>
        if '.' ∈ obj.spec.name.toList then
          Prog.fail (badRequest "VM name cannot contain '.'")
        else do
          let image ← readVmImage E obj.spec.disk.image
          if image.kind ≠ .base then
            Prog.fail (badRequest ("Image " ++ obj.spec.disk.image ++
              " is not a base image please convert the snapshot into a base image first"))
          else do
            let snap ← createSnap E (obj.snapName image) obj.size image
            let vm := { obj.spec with disk := ⟨snap.name, some obj.size⟩ }
            let status ← createStatus E ⟨obj.key, created⟩
            let row ← createSpec E (tryFromVmPartial E obj.key obj.version vm)
            let spec ← ofExcept (tryToVmSpec E row)
            let item ← createObject E .vm (obj.row spec.key)
            return ⟨item.namespaceName, spec, status⟩ : Io δ (Vm δ)) w.tick := by
    have hw : (readObject E .vm obj.key w).2 = w.tick := query_world _ w
    rw [← hw]
    rfl
  rw [hobj]
  have habsent : (∃ e, (readObject E .vm obj.key w).1 = .error e) ↔
      (E.fault w.calls ≠ none ∨ w.db.joined .vm obj.key = none) := by
    cases hf : E.fault w.calls with
    | some e => exact iff_of_true ⟨e, by rw [readObject, query, call_of_fault hf]⟩ (.inl (Option.some_ne_none e))
    | none =>
      rw [readObject, query_of_answer hf]
      cases hj : w.db.joined .vm obj.key with
      | none => exact iff_of_true ⟨_, rfl⟩ (.inr rfl)
      | some row =>
        refine iff_of_false (fun h => ?_) fun h => h.elim (fun h => h rfl) (Option.some_ne_none row)
        obtain ⟨e, he⟩ := h
        cases he
  cases hread : (readObject E .vm obj.key w).1 with
  | ok row =>
    refine .inl ⟨_, 1, rfl, fun image hp => ?_⟩
    obtain ⟨e, he⟩ := habsent.2 hp.absent
    rw [hread] at he
    cases he
  | error e =>
    have habs := habsent.1 ⟨e, hread⟩
    by_cases hdot : '.' ∈ obj.spec.name.toList
    · refine .inl ⟨badRequest "VM name cannot contain '.'", 1, ?_, fun image hp => hp.dotless hdot⟩
      exact congrFun (if_pos hdot) w.tick
    · simp only [if_neg hdot]
      cases hf : E.fault (w.calls + 1) with
      | some e =>
        refine .inl ⟨e, 2, ?_, fun image hp => by rw [hp.answers] at hf; cases hf⟩
        exact Prog.bind_of_error (by rw [readVmImage, query, call_of_fault hf]; rfl)
      | none =>
        have hget : readVmImage E obj.spec.disk.image w.tick =
            (orNotFound "VmImageDb" (w.db.vmImages.find obj.spec.disk.image), w.tick.tick) := query_of_answer hf
        cases himage : w.db.vmImages.find obj.spec.disk.image with
        | none =>
          rw [himage] at hget
          refine .inl ⟨_, 2, Prog.bind_of_error hget, fun image hp => ?_⟩
          rw [hp.found] at himage
          cases himage
        | some image =>
          rw [himage] at hget
          rw [Prog.bind_of_ok hget]
          by_cases hbase : image.kind = .base
          · refine .inr ⟨image, ⟨habs, hdot, hf, himage, hbase⟩, ?_⟩
            refine (congrFun (if_neg (not_not.2 hbase)) _).trans ?_
            rcases hsnap : createSnap E (obj.snapName image) obj.size image (w.after 2 w.db) with ⟨e | snap, w'⟩
            · exact (Prog.bind_of_error hsnap).trans (Prog.bind_of_error hsnap).symm
            · have hname : snap.name = obj.snapName image := by
                rcases createSnap_cases hsnap with ⟨e, k, hr, -⟩ | ⟨-, ⟨e, k, hr, -⟩ | ⟨t, hr, -⟩⟩
                · cases hr
                · cases hr
                · rw [Except.ok.inj hr]
                  rfl
              refine (Prog.bind_of_ok hsnap).trans (Eq.trans ?_ (Prog.bind_of_ok hsnap).symm)
              rw [hname]
              rfl
          · refine .inl ⟨_, 2, congrFun (if_pos hbase) _, fun image' hp => hbase ?_⟩
            rw [Option.some.inj (himage.symm.trans hp.found)]
            exact hp.base

/-- **What a creation does**: nothing; or it writes the file of the disk, without a row; or it stores the disk, and
perhaps the status, and perhaps the spec; or all rows. -/
theorem createVm_cases {obj : VmObjCreateIn δ} {w w' : World δ} {r : Except HttpError (Vm δ)}
    (h : createVm E obj w = (r, w')) :
    (∃ e k, r = .error e ∧ w' = w.after k w.db ∧
      ∀ image, ¬ (VmPrepared E w obj image ∧ SnapBegins E (w.after 2 w.db) (obj.snapName image) image)) ∨
    ∃ image, VmPrepared E w obj image ∧ SnapBegins E (w.after 2 w.db) (obj.snapName image) image ∧
      let disk := w.setFile (imagePath E (obj.snapName image)) (snapContent E (w.after 2 w.db) (obj.snapName image) obj.size image)
      ((∃ e k, r = .error e ∧ ¬ SnapStored E (w.after 2 w.db) (obj.snapName image) obj.size image ∧
          w' = disk.after k w.db) ∨
        ∃ t st sp, SnapStored E (w.after 2 w.db) (obj.snapName image) obj.size image ∧
          (snapContent E (w.after 2 w.db) (obj.snapName image) obj.size image).isSome ∧
          w.db.vmImages.insert (snapRow E (w.after 2 w.db) (obj.snapName image) image) = some t ∧
          ((∃ e k, r = .error e ∧ ¬ VmCompletes E w obj ∧
              (sp = w.db.specs ∨ w.db.specs.insert (vmSpecRow E obj image (E.uuid (w.calls + 8))) = some sp) ∧
              w' = disk.after k { w.db with vmImages := t, statuses := st, specs := sp }) ∨
            ∃ vm vt, r = .ok vm ∧ VmCompletes E w obj ∧
              w.db.statuses.insert ⟨obj.key, created⟩ = some st ∧
              w.db.specs.insert (vmSpecRow E obj image (E.uuid (w.calls + 8))) = some sp ∧
              w.db.vms.insert (obj.row (E.uuid (w.calls + 8))) = some vt ∧
              w' = disk.after 10 { w.db with vmImages := t, statuses := st, specs := sp, vms := vt })) := by
  rcases createVm_prepared (E := E) obj w with ⟨e, k, hrun, hno⟩ | ⟨image, hprep, hrun⟩
  · rw [hrun] at h
    obtain ⟨rfl, rfl⟩ := Prod.mk.inj h
    exact .inl ⟨e, k, rfl, rfl, fun image hp => hno image hp.1⟩
  · rw [hrun] at h
    rcases hsnap : createSnap E (obj.snapName image) obj.size image (w.after 2 w.db) with ⟨r₁, w₁⟩
    rcases createSnap_cases hsnap with ⟨e, k, rfl, rfl, hno⟩ | ⟨hbegins, ⟨e, k, rfl, hno, rfl⟩ |
      ⟨t, rfl, hstored, ht, hsome, rfl⟩⟩
    · rw [Prog.bind_of_error hsnap] at h
      obtain ⟨rfl, rfl⟩ := Prod.mk.inj h
      refine .inl ⟨e, 2 + k, rfl, by rw [World.after_after]; rfl, fun image' hp => hno ?_⟩
      rw [Option.some.inj (hprep.found.symm.trans hp.1.found)]
      exact hp.2
    · rw [Prog.bind_of_error hsnap] at h
      obtain ⟨rfl, rfl⟩ := Prod.mk.inj h
      exact .inr ⟨image, hprep, hbegins, .inl ⟨e, 2 + k, rfl, hno, by rw [World.setFile_after, World.after_after]; rfl⟩⟩
    · rw [Prog.bind_of_ok hsnap] at h
      refine .inr ⟨image, hprep, hbegins, ?_⟩
      intro disk
      refine .inr ?_
      set w₇ := disk.after 7 { w.db with vmImages := t } with hw₇
      change (createStatus E ⟨obj.key, created⟩ >>= _) w₇ = _ at h
      by_cases hst : E.fault (w.calls + 7) = none ∧ w.db.statuses.find obj.key = none
      · obtain ⟨st, hsti, hrun⟩ := createStatus_ok (E := E) (w := w₇) ⟨obj.key, created⟩ hst.1 hst.2
        rw [Prog.bind_of_ok hrun] at h
        set w₈ := disk.after 8 { w.db with vmImages := t, statuses := st } with hw₈
        change (createSpec E (vmSpecRow E obj image) >>= _) w₈ = _ at h
        by_cases hsp : E.fault (w.calls + 8) = none ∧ w.db.specs.find (E.uuid (w.calls + 8)) = none
        · obtain ⟨sp, hspi, hrun⟩ := createSpec_ok (E := E) (w := w₈) (vmSpecRow E obj image) hsp.1 hsp.2
          rw [Prog.bind_of_ok hrun] at h
          have hread : tryToVmSpec E (vmSpecRow E obj image (E.uuid w₈.calls)) = .ok _ :=
            tryToVmSpec_tryFrom E obj.key obj.version (obj.vm image) (E.uuid w₈.calls)
          rw [Prog.bind_of_ok (by rw [run_ofExcept, hread])] at h
          set w₉ := disk.after 9 { w.db with vmImages := t, statuses := st, specs := sp } with hw₉
          change (createObject E .vm (obj.row (E.uuid (w.calls + 8))) >>= _) w₉ = _ at h
          have hnew : (sp.find (E.uuid (w.calls + 8))).isSome := Option.isSome_iff_exists.2 ⟨_, Table.find_insert_self hspi⟩
          have hkey : (st.find obj.key).isSome := Option.isSome_iff_exists.2 ⟨_, Table.find_insert_self hsti⟩
          by_cases hvm : E.fault (w.calls + 9) = none ∧ w.db.vms.find obj.key = none ∧
              (w.db.namespaces.find obj.namespace_).isSome
          · obtain ⟨vt, hvti, hrun⟩ := createObject_ok (E := E) .vm (obj.row (E.uuid (w.calls + 8)))
              (w := w₉) hvm.1 hvm.2.1 ⟨hnew, hkey, hvm.2.2⟩
            rw [Prog.bind_of_ok hrun] at h
            obtain ⟨rfl, rfl⟩ := Prod.mk.inj h
            exact ⟨t, st, sp, hstored, hsome, ht, .inr ⟨_, vt, rfl,
              ⟨⟨hst.1, hsp.1, hvm.1⟩, hst.2, hsp.2, hvm.2.1, hvm.2.2⟩, hsti, hspi, hvti, rfl⟩⟩
          · obtain ⟨e, hrun⟩ := createObject_error (E := E) .vm (obj.row (E.uuid (w.calls + 8)))
              (w := w₉) fun hc => hvm ⟨hc.1, hc.2.1, hc.2.2.2.2⟩
            rw [Prog.bind_of_error hrun] at h
            obtain ⟨rfl, rfl⟩ := Prod.mk.inj h
            exact ⟨t, st, sp, hstored, hsome, ht, .inl ⟨e, 10, rfl,
              fun hc => hvm ⟨hc.answers.2.2, hc.row, hc.namespace_⟩, .inr hspi, rfl⟩⟩
        · obtain ⟨e, hrun⟩ := createSpec_error (E := E) (w := w₈) (vmSpecRow E obj image) hsp
          rw [Prog.bind_of_error hrun] at h
          obtain ⟨rfl, rfl⟩ := Prod.mk.inj h
          exact ⟨t, st, w.db.specs, hstored, hsome, ht, .inl ⟨e, 9, rfl, fun hc => hsp ⟨hc.answers.2.1, hc.uuid⟩,
            .inl rfl, rfl⟩⟩
      · obtain ⟨e, hrun⟩ := createStatus_error (E := E) (w := w₇) ⟨obj.key, created⟩ hst
        rw [Prog.bind_of_error hrun] at h
        obtain ⟨rfl, rfl⟩ := Prod.mk.inj h
        exact ⟨t, w.db.statuses, w.db.specs, hstored, hsome, ht, .inl ⟨e, 8, rfl,
          fun hc => hst ⟨hc.answers.1, hc.status⟩, .inl rfl, rfl⟩⟩

end Create

/-! ## Put and patch -/

structure VmObjPutIn (δ : Type) where
  spec : VmSpecPartial δ
  version : String

/-- `VmDb::fn_put_obj_by_pk` -/
def putVm (pk : String) (obj : VmObjPutIn δ) : Io δ (Vm δ) := do
  let vm ← readVm E pk
  putFrom E (vmFormat E) pk vm.spec.vmKey obj.spec obj.version

structure VmSpecUpdate (δ : Type) where
  name : Option String
  metadata : Option δ
  hostname : Option String
  user : Option String
  password : Option String
  sshKey : Option String
  labels : Option Labels
  hostConfig : Option Runtime.VmHostConfig

structure VmObjPatchIn (δ : Type) where
  spec : VmSpecUpdate δ
  version : String

/-- the specification a patch makes of the current one -/
def patchVmSpec (name : String) (old : VmSpec δ) (spec : VmSpecUpdate δ) : VmSpecPartial δ where
  name := spec.name.getD name
  disk := old.disk
  hostConfig := some (spec.hostConfig.getD (old.hostConfig.getD .default))
  hostname := spec.hostname.or old.hostname
  user := spec.user.or old.user
  password := spec.password.or old.password
  sshKey := spec.sshKey.or old.sshKey
  macAddress := old.macAddress
  labels := spec.labels.or old.labels
  metadata := spec.metadata.or old.metadata

/-- `VmDb::fn_patch_obj_by_pk`; a VM has no other route to `putVm` -/
def patchVm (pk : String) (obj : VmObjPatchIn δ) : Io δ (Vm δ) := do
  let vm ← readVm E pk
  let row ← readSpec E vm.spec.key
  let old ← ofExcept (tryToVmSpec E row)
  putVm E pk ⟨patchVmSpec vm.spec.name old obj.spec, obj.version⟩

/-! ## Delete and history -/

/-- `VmDb::fn_del_obj_by_pk` -/
def delVm (pk : String) : Io δ (Vm δ) := do
  let vm ← readVm E pk
  let status ← readStatus E pk
  updateStatus E pk (destroyStatus status)
  return vm

/-- `vm::delete`, the task of the Destroying event: the read of the processes and their deletion are calls about docker
and the process rows -/
def deleteVmTask (key : String) : Io δ Unit := do
  let vm ← readVm E key
  query E fun _ => .ok ()
  call E fun w => (.ok (), w)
  deleteVmImage E vm.spec.disk.image
  clearObject E .vm vm.spec.vmKey

/-- `list_vm_history` -/
def listVmHistory (key : String) : Io δ (List (VmSpec δ)) := do
  let rows ← readSpecsByKindKey E key
  ofExcept (rows.mapM (tryToVmSpec E))

/-! ## What the task of a deletion does -/

section Delete

variable {E}

/-- `vm::delete` up to the row of the VM -/
def dropVm (E : Env δ) (key : String) : Io δ (Vm δ) := do
  let vm ← readVm E key
  query E fun _ => .ok ()
  call E fun w => (.ok (), w)
  deleteVmImage E vm.spec.disk.image
  delObject E .vm vm.spec.vmKey
  return vm

theorem deleteVmTask_eq (key : String) :
    deleteVmTask E key = (do
      let vm ← dropVm E key
      delSpecsByKindKey E vm.spec.vmKey
      delStatus E vm.spec.vmKey) := by
  simp only [deleteVmTask, dropVm, clearObject, bind_assoc, pure_bind]

/-- the tables without an image and without the row of a VM -/
def withoutVm (db : Tables δ) (vm : Vm δ) : Tables δ :=
  { db with vmImages := db.vmImages.delete vm.spec.disk.image, vms := db.vms.delete vm.spec.vmKey }

/-- the world once the file of a VM's image is removed: the sixth call of the task -/
def withoutDisk (E : Env δ) (w : World δ) (image : VmImageDb) : World δ := (removeFile E image.path (w.after 5 w.db)).2

@[simp] theorem withoutDisk_db (w : World δ) (image : VmImageDb) : (withoutDisk E w image).db = w.db := removeFile_db _ _

@[simp] theorem withoutDisk_calls (w : World δ) (image : VmImageDb) : (withoutDisk E w image).calls = w.calls + 6 :=
  removeFile_calls _ _

/-- **What happens up to the row of the VM**: nothing; or the file of the image is removed, and the row of the image
may be; or all is done. -/
theorem dropVm_cases {key : String} {w w' : World δ} {r : Except HttpError (Vm δ)} (h : dropVm E key w = (r, w')) :
    (∃ e k, r = .error e ∧ w' = w.after k w.db ∧ ¬ (E.Answers w 5 ∧
      ∃ vm, objectOf (vmFormat E) w.db key = .ok vm ∧ (w.db.vmImages.find vm.spec.disk.image).isSome ∧
        Leaf w.db vm.spec.disk.image)) ∨
    ∃ vm image, E.Answers w 5 ∧ objectOf (vmFormat E) w.db key = .ok vm ∧
      w.db.vmImages.find vm.spec.disk.image = some image ∧ Leaf w.db vm.spec.disk.image ∧
      ((∃ e, r = .error e ∧ E.fault (w.calls + 6) ≠ none ∧ w' = (withoutDisk E w image).tick) ∨
        (∃ e, r = .error e ∧ E.fault (w.calls + 6) = none ∧ E.fault (w.calls + 7) ≠ none ∧
          w' = (withoutDisk E w image).after 2 { w.db with vmImages := w.db.vmImages.delete vm.spec.disk.image }) ∨
        (r = .ok vm ∧ E.fault (w.calls + 6) = none ∧ E.fault (w.calls + 7) = none ∧
          w' = (withoutDisk E w image).after 2 (withoutVm w.db vm))) := by
  have hcall : Reads E (call E fun w => ((.ok () : Except HttpError Unit), w)) 1 fun _ => .ok () :=
    reads_query fun _ => .ok ()
  have hvm : Reads E (readVm E key) 1 fun db => objectOf (vmFormat E) db key := reads_readObj key
  have hreads : Reads E (do
      let vm ← readVm E key
      query E fun _ => .ok ()
      call E fun w => (.ok (), w)
      return vm : Io δ (Vm δ)) 3 _ :=
    reads_bind hvm fun vm => reads_bind (reads_query _) fun _ => reads_bind hcall fun _ => reads_pure vm
  have hfound : ∀ vm, (do
      let vm ← objectOf (vmFormat E) w.db key
      let _ ← (.ok () : Except HttpError Unit)
      let _ ← (.ok () : Except HttpError Unit)
      return vm) = Except.ok vm ↔ objectOf (vmFormat E) w.db key = .ok vm := by
    intro vm
    cases objectOf (vmFormat E) w.db key <;> rfl
  have hrun : dropVm E key = (do
      let vm ← (do
        let vm ← readVm E key
        query E fun _ => .ok ()
        call E fun w => (.ok (), w)
        return vm : Io δ (Vm δ))
      deleteVmImage E vm.spec.disk.image
      delObject E .vm vm.spec.vmKey
      return vm) := by
    simp only [dropVm, bind_assoc, pure_bind]
  rw [hrun] at h
  by_cases hok : E.Answers w 3 ∧ ∃ vm, objectOf (vmFormat E) w.db key = .ok vm
  · obtain ⟨h3, vm, hvm⟩ := hok
    rw [Prog.bind_of_ok (hreads.ok w vm h3 ((hfound vm).2 hvm))] at h
    rcases hdel : deleteVmImage E vm.spec.disk.image (w.after 3 w.db) with ⟨r₁, w₁⟩
    rcases deleteVmImage_cases hdel with ⟨e, k, rfl, rfl, hno⟩ | ⟨image, h2, himage, hleaf, hend⟩
    · rw [Prog.bind_of_error hdel, World.after_after] at h
      obtain ⟨rfl, rfl⟩ := Prod.mk.inj h
      refine .inl ⟨e, _, rfl, rfl, ?_⟩
      rintro ⟨h5, vm', hvm', himage, hleaf⟩
      obtain rfl := Except.ok.inj (hvm.symm.trans hvm')
      exact hno ⟨((Env.answers_add (m := 3) w.db).1 h5).2, himage, hleaf⟩
    · refine .inr ⟨vm, image, (Env.answers_add (m := 3) w.db).2 ⟨h3, h2⟩, hvm, himage, hleaf, ?_⟩
      have hdisk : (removeFile E image.path ((w.after 3 w.db).after 2 w.db)).2 = withoutDisk E w image := by
        rw [World.after_after]
        rfl
      rw [World.after_db, hdisk, World.after_calls] at hend
      rcases hend with ⟨e, rfl, hf, rfl⟩ | ⟨rfl, hf, rfl⟩
      · rw [Prog.bind_of_error hdel] at h
        obtain ⟨rfl, rfl⟩ := Prod.mk.inj h
        exact .inl ⟨e, rfl, hf, rfl⟩
      · rw [Prog.bind_of_ok hdel] at h
        refine .inr ?_
        cases hf7 : E.fault (w.calls + 7) with
        | some e =>
          rw [Prog.bind_of_error (by rw [delObject, exec, call_of_fault (by simpa using hf7)])] at h
          obtain ⟨rfl, rfl⟩ := Prod.mk.inj h
          refine .inl ⟨e, rfl, hf, Option.some_ne_none _, ?_⟩
          rw [World.tick, World.after_after, World.after_db]
        | none =>
          rw [Prog.bind_of_ok (delObject_of_answer (by simpa using hf7))] at h
          obtain ⟨rfl, rfl⟩ := Prod.mk.inj h
          refine .inr ⟨rfl, hf, rfl, ?_⟩
          rw [World.after_after]
          rfl
  · obtain ⟨e, k, hfail⟩ := hreads.error w fun h3 => hok ⟨h3.1, h3.2.imp fun vm => (hfound vm).1⟩
    rw [Prog.bind_of_error hfail] at h
    obtain ⟨rfl, rfl⟩ := Prod.mk.inj h
    refine .inl ⟨e, k, rfl, rfl, ?_⟩
    rintro ⟨h5, vm, hvm, -⟩
    exact hok ⟨((Env.answers_add (m := 3) (n := 2) w.db).1 h5).1, vm, hvm⟩

end Delete

end Nanocl.Objects
