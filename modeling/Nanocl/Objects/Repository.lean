/-
The repositories of the requests (`repositories/`): one call of the database each. `read` finds a row by its key,
`readBy` the 100 newest rows that meet a condition; `create` inserts, `update` changes the columns of one row, `delete`
removes rows. What the database refuses is spelled out in each: a key that is taken, a reference that is missing, a row
that is still referred to.
-/
import Nanocl.Objects.Tables

namespace Nanocl.Objects

open Nanocl.Lib Nanocl.Status

variable {δ : Type} (E : Env δ)

/-- the rows of a read without a limit: newest first, 100 at most -/
def newest {α : Type} (rows : List α) : List α := rows.reverse.take 100

theorem mem_of_mem_newest {α : Type} {rows : List α} {r : α} (h : r ∈ newest rows) : r ∈ rows :=
  List.mem_reverse.1 (List.mem_of_mem_take h)

theorem mem_newest_of_le {α : Type} {rows : List α} (hlen : rows.length ≤ 100) {r : α} :
    r ∈ newest rows ↔ r ∈ rows := by
  rw [newest, List.take_of_length_le (by simpa using hlen), List.mem_reverse]

/-! ## Specs -/

/-- `SpecDb::read_by_pk` -/
def readSpec (pk : Uuid) : Io δ (SpecDb δ) := query E fun db => orNotFound "SpecDb" (db.specs.find pk)

def insertSpec (spec : SpecDb δ) (db : Tables δ) : Except HttpError (Tables δ) :=
  match db.specs.insert spec with
  | some t => .ok { db with specs := t }
  | none => .error (uniqueViolation E "SpecDb")

/-- `SpecDb::create_from`, with the uuid drawn for the new row -/
def createSpec (new : Uuid → SpecDb δ) : Io δ (SpecDb δ) := do
  let w ← Prog.get
  let spec := new (E.uuid w.calls)
  exec E (insertSpec E spec)
  return spec

def specsOf (db : Tables δ) (key : String) : List (SpecDb δ) := db.specs.rows.filter fun s => s.kindKey = key

/-- `read_by_kind_key` -/
def readSpecsByKindKey (key : String) : Io δ (List (SpecDb δ)) := query E fun db => .ok (newest (specsOf db key))

/-- `get_version`: the newest of the rows -/
def getVersion (name version : String) : Io δ (SpecDb δ) := query E fun db =>
  orNotFound "SpecDb" ((newest ((specsOf db name).filter fun s => s.version = version)).head?)

def deleteSpecs (key : String) (db : Tables δ) : Except HttpError (Tables δ) :=
  if (specsOf db key).any fun s => db.refersToSpec s.key then .error (invalidData E "SpecDb")
  else .ok { db with specs := db.specs.deleteWhere fun s => s.kindKey = key }

variable {E} in
theorem deleteSpecs_ok {key : String} {db db' : Tables δ} (h : deleteSpecs E key db = .ok db') :
    db' = { db with specs := db.specs.deleteWhere fun s => s.kindKey = key } := by
  unfold deleteSpecs at h
  split at h
  · cases h
  · exact (Except.ok.inj h).symm

/-- `del_by_kind_key` -/
def delSpecsByKindKey (key : String) : Io δ Unit := exec E (deleteSpecs E key)

/-! ## Statuses -/

/-- `ObjPsStatusDb::read_by_pk` -/
def readStatus (pk : String) : Io δ ObjPsStatus := query E fun db =>
  orNotFound "ObjPsStatusDb" ((db.statuses.find pk).map (·.status))

def insertStatus (row : ObjPsStatusDb) (db : Tables δ) : Except HttpError (Tables δ) :=
  match db.statuses.insert row with
  | some t => .ok { db with statuses := t }
  | none => .error (uniqueViolation E "ObjPsStatusDb")

/-- `ObjPsStatusDb::create_from` -/
def createStatus (row : ObjPsStatusDb) : Io δ ObjPsStatus := do
  exec E (insertStatus E row)
  return row.status

theorem key_withStatus (u : ObjPsStatusUpdate) (r : ObjPsStatusDb) : { r with status := u.set r.status }.key = r.key := rfl

def setStatus (pk : String) (u : ObjPsStatusUpdate) (db : Tables δ) : Except HttpError (Tables δ) :=
  match db.statuses.find pk with
  | some _ =>
    .ok { db with statuses := db.statuses.update pk (fun r => { r with status := u.set r.status }) (key_withStatus u) }
  | none => .error (notFound "ObjPsStatusDb")

/-- `ObjPsStatusDb::update_pk` -/
def updateStatus (pk : String) (u : ObjPsStatusUpdate) : Io δ Unit := exec E (setStatus pk u)

def deleteStatus (pk : String) (db : Tables δ) : Except HttpError (Tables δ) :=
  if db.cargoes.rows.any (·.statusKey = pk) || db.vms.rows.any (·.statusKey = pk) ||
      db.jobs.rows.any (·.statusKey = pk) then .error (invalidData E "ObjPsStatusDb")
  else .ok { db with statuses := db.statuses.delete pk }

variable {E} in
theorem deleteStatus_ok {key : String} {db db' : Tables δ} (h : deleteStatus E key db = .ok db') :
    db' = { db with statuses := db.statuses.delete key } := by
  unfold deleteStatus at h
  split at h
  · cases h
  · exact (Except.ok.inj h).symm

/-- `ObjPsStatusDb::del_by_pk` -/
def delStatus (pk : String) : Io δ Unit := exec E (deleteStatus E pk)

/-! ## Cargoes and VMs -/

def ObjectKind.table : ObjectKind → String
  | .cargo => "CargoDb"
  | .vm => "VmDb"

/-- `read_by_pk` of `CargoDb` and of `VmDb` -/
def readObject (kind : ObjectKind) (pk : String) : Io δ (ObjectDb × SpecDb δ × ObjPsStatusDb) :=
  query E fun db => orNotFound kind.table (db.joined kind pk)

def insertObject (kind : ObjectKind) (row : ObjectDb) (db : Tables δ) : Except HttpError (Tables δ) :=
  match (db.objects kind).insert row with
  | none => .error (uniqueViolation E kind.table)
  | some t =>
    if (db.specs.find row.specKey).isSome ∧ (db.statuses.find row.statusKey).isSome ∧
        (db.namespaces.find row.namespaceName).isSome then .ok (db.setObjects kind t)
    else .error (invalidData E kind.table)

/-- `create_from` of `CargoDb` and of `VmDb` -/
def createObject (kind : ObjectKind) (row : ObjectDb) : Io δ ObjectDb := do
  exec E (insertObject E kind row)
  return row

def setObject (kind : ObjectKind) (pk name : String) (specKey : Uuid) (db : Tables δ) : Except HttpError (Tables δ) :=
  match (db.objects kind).find pk with
  | none => .error (notFound kind.table)
  | some _ =>
    if (db.specs.find specKey).isSome then
      .ok (db.setObjects kind ((db.objects kind).update pk (fun r => { r with name := name, specKey := specKey })
        (ObjectDb.key_repointed name specKey)))
    else .error (invalidData E kind.table)

/-- `update_pk` of `CargoDb` and of `VmDb`, with the columns that `update_from_spec` changes -/
def updateObject (kind : ObjectKind) (pk name : String) (specKey : Uuid) : Io δ Unit :=
  exec E (setObject E kind pk name specKey)

/-- `del_by_pk` of `CargoDb` and of `VmDb` -/
def delObject (kind : ObjectKind) (pk : String) : Io δ Unit :=
  exec E fun db => .ok (db.setObjects kind ((db.objects kind).delete pk))

variable {E} in
theorem delObject_of_answer {kind : ObjectKind} {pk : String} {w : World δ} (h : E.fault w.calls = none) :
    delObject E kind pk w = (.ok (), w.after 1 (w.db.setObjects kind ((w.db.objects kind).delete pk))) := exec_of_ok h rfl

/-- `clear_by_pk` of `CargoDb` and of `VmDb` -/
def clearObject (kind : ObjectKind) (pk : String) : Io δ Unit := do
  delObject E kind pk
  delSpecsByKindKey E pk
  delStatus E pk

/-! ## Jobs -/

def insertJob (row : JobDb δ) (db : Tables δ) : Except HttpError (Tables δ) :=
  match db.jobs.insert row with
  | none => .error (uniqueViolation E "JobDb")
  | some t =>
    if (db.statuses.find row.statusKey).isSome then .ok { db with jobs := t } else .error (invalidData E "JobDb")

/-- `JobDb::create_from` -/
def createJob (row : JobDb δ) : Io δ (JobDb δ) := do
  exec E (insertJob E row)
  return row

/-! ## Namespaces -/

/-- `NamespaceDb::read_by_pk` -/
def readNamespace (name : String) : Io δ NamespaceDb := query E fun db => orNotFound "NamespaceDb" (db.namespaces.find name)

def insertNamespace (row : NamespaceDb) (db : Tables δ) : Except HttpError (Tables δ) :=
  match db.namespaces.insert row with
  | some t => .ok { db with namespaces := t }
  | none => .error (uniqueViolation E "NamespaceDb")

/-- `NamespaceDb::create_from` -/
def createNamespace (row : NamespaceDb) : Io δ Unit := exec E (insertNamespace E row)

def deleteNamespace (name : String) (db : Tables δ) : Except HttpError (Tables δ) :=
  if db.cargoes.rows.any (·.namespaceName = name) || db.vms.rows.any (·.namespaceName = name) then
    .error (invalidData E "NamespaceDb")
  else .ok { db with namespaces := db.namespaces.delete name }

/-- `NamespaceDb::del_by_pk` -/
def delNamespace (name : String) : Io δ Unit := exec E (deleteNamespace E name)

/-! ## Resources -/

/-- `ResourceDb::read_by_pk`: the row with its spec -/
def readResource (pk : String) : Io δ (ResourceDb × SpecDb δ) := query E fun db =>
  orNotFound "ResourceDb" do
    let row ← db.resources.find pk
    let spec ← db.specs.find row.specKey
    return (row, spec)

def insertResource (row : ResourceDb) (db : Tables δ) : Except HttpError (Tables δ) :=
  match db.resources.insert row with
  | none => .error (uniqueViolation E "ResourceDb")
  | some t =>
    if (db.specs.find row.specKey).isSome then .ok { db with resources := t } else .error (invalidData E "ResourceDb")

/-- `ResourceDb::create_from` -/
def createResource (row : ResourceDb) : Io δ ResourceDb := do
  exec E (insertResource E row)
  return row

def setResource (pk : String) (specKey : Uuid) (db : Tables δ) : Except HttpError (Tables δ) :=
  match db.resources.find pk with
  | none => .error (notFound "ResourceDb")
  | some _ =>
    if (db.specs.find specKey).isSome then
      .ok { db with
        resources := db.resources.update pk (fun r => { r with specKey := specKey }) (ResourceDb.key_repointed specKey) }
    else .error (invalidData E "ResourceDb")

/-- `ResourceDb::update_pk` -/
def updateResource (pk : String) (specKey : Uuid) : Io δ Unit := exec E (setResource E pk specKey)

/-- `ResourceDb::del_by_pk` -/
def delResource (pk : String) : Io δ Unit := exec E fun db => .ok { db with resources := db.resources.delete pk }

/-! ## Resource kinds -/

/-- `ResourceKindDb::read_by_pk`: the row with its spec -/
def readResourceKind (pk : String) : Io δ (ResourceKindDb × SpecDb δ) := query E fun db =>
  orNotFound "ResourceKindDb" do
    let row ← db.resourceKinds.find pk
    let spec ← db.specs.find row.specKey
    return (row, spec)

def insertResourceKind (row : ResourceKindDb) (db : Tables δ) : Except HttpError (Tables δ) :=
  match db.resourceKinds.insert row with
  | none => .error (uniqueViolation E "ResourceKindDb")
  | some t =>
    if (db.specs.find row.specKey).isSome then .ok { db with resourceKinds := t }
    else .error (invalidData E "ResourceKindDb")

/-- `ResourceKindDb::create_from` -/
def createResourceKindRow (row : ResourceKindDb) : Io δ Unit := exec E (insertResourceKind E row)

def setResourceKind (pk : String) (specKey : Uuid) (db : Tables δ) : Except HttpError (Tables δ) :=
  match db.resourceKinds.find pk with
  | none => .error (notFound "ResourceKindDb")
  | some _ =>
    if (db.specs.find specKey).isSome then
      .ok { db with resourceKinds := db.resourceKinds.update pk (fun r => { r with specKey := specKey }) fun _ => rfl }
    else .error (invalidData E "ResourceKindDb")

/-- `ResourceKindDb::update_pk` -/
def updateResourceKind (pk : String) (specKey : Uuid) : Io δ Unit := exec E (setResourceKind E pk specKey)

/-- `ResourceKindDb::del_by_pk` -/
def delResourceKind (pk : String) : Io δ Unit :=
  exec E fun db => .ok { db with resourceKinds := db.resourceKinds.delete pk }

/-! ## VM images -/

/-- `VmImageDb::read_by_pk` -/
def readVmImage (name : String) : Io δ VmImageDb := query E fun db => orNotFound "VmImageDb" (db.vmImages.find name)

/-- `VmImageDb::read_by_parent` -/
def readVmImagesByParent (name : String) : Io δ (List VmImageDb) := query E fun db =>
  .ok (newest (db.vmImages.rows.filter fun i => i.parent = some name))

def insertVmImage (row : VmImageDb) (db : Tables δ) : Except HttpError (Tables δ) :=
  match db.vmImages.insert row with
  | none => .error (uniqueViolation E "VmImageDb")
  | some t =>
    if row.parent.all fun p => (db.vmImages.find p).isSome then .ok { db with vmImages := t }
    else .error (invalidData E "VmImageDb")

/-- `VmImageDb::create_from` -/
def createVmImage (row : VmImageDb) : Io δ VmImageDb := do
  exec E (insertVmImage E row)
  return row

def deleteVmImageRow (name : String) (db : Tables δ) : Except HttpError (Tables δ) :=
  if db.vmImages.rows.any fun i => i.parent = some name then .error (invalidData E "VmImageDb")
  else .ok { db with vmImages := db.vmImages.delete name }

/-- `VmImageDb::del_by_pk` -/
def delVmImage (name : String) : Io δ Unit := exec E (deleteVmImageRow E name)

end Nanocl.Objects
