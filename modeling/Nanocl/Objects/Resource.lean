/-
Resources and their kinds (`repositories/resource.rs`, `resource_kind.rs`, `objects/resource.rs`, `services/resource`,
`services/resource_kind`).

A kind has versions; each is a spec whose data is the schema of its resources, the url of their controller, or both. A
resource whose kind has an url is a rule of the controller there: its creation and its updates hand the data over
(`apply_rule`), its deletion takes the rule back (`delete_rule`). The row of a resource keeps the name of its kind, not
the version; the version is that of its current spec.
-/
import Nanocl.Objects.Repository

namespace Nanocl.Objects

open Nanocl.Lib

variable {δ : Type} (E : Env δ)

/-! ## Kinds -/

structure ResourceKindPartial (δ : Type) where
  name : String
  version : String
  metadata : Option δ
  data : ResourceKindSpec δ

/-- `ResourceKind`: a version of a kind -/
structure ResourceKind (δ : Type) where
  name : String
  version : String
  metadata : Option δ
  data : ResourceKindSpec δ

/-- `ResourceKindVersion` -/
structure ResourceKindVersion (δ : Type) where
  key : Uuid
  version : String
  kindKey : String
  metadata : Option δ
  data : ResourceKindSpec δ

/-- the data of a spec read as that of a kind -/
def resourceKindData (s : SpecDb δ) : Except HttpError (ResourceKindSpec δ) :=
  (E.resourceKind.fromValue s.data).mapError fun e => ⟨400, "ResourceKind: " ++ e⟩

/-- `TryFrom<SpecDb> for ResourceKind` -/
def toResourceKind (s : SpecDb δ) : Except HttpError (ResourceKind δ) := do
  let data ← resourceKindData E s
  return ⟨s.kindKey, s.version, s.metadata, data⟩

/-- `TryFrom<SpecDb> for ResourceKindVersion` -/
def toResourceKindVersion (s : SpecDb δ) : Except HttpError (ResourceKindVersion δ) := do
  let data ← resourceKindData E s
  return ⟨s.key, s.version, s.kindKey, s.metadata, data⟩

/-- `kind.split('/')` -/
def splitKind (kind : String) : List String := (kind.toList.splitOn '/').map String.ofList

/-- `ensure_kind` -/
def ensureKind (kind : String) : Except HttpError Unit :=
  if (splitKind kind).length ≠ 2 then .error (badRequest "Kind: Must be of the form `domain.tld/kind`") else .ok ()

/-- `TryFrom<&ResourceKindPartial> for SpecDb` -/
def tryFromResourceKind (p : ResourceKindPartial δ) : Except HttpError (Uuid → SpecDb δ) := do
  ensureKind p.name
  if p.data.url = none ∧ p.data.schema.isNone then
    .error (badRequest "ResourceKind: Invalid data nor url or schema defined")
  else .ok fun uuid => ⟨uuid, .resourceKind, p.name, p.version, E.resourceKind.toValue p.data, p.metadata⟩

/-- `ResourceKindDb::transform_read_by_pk` -/
def readKind (pk : String) : Io δ (ResourceKind δ) := do
  let r ← readResourceKind E pk
  ofExcept (toResourceKind E r.2)

/-- `ResourceKindDb::create_from_spec` -/
def createResourceKind (item : ResourceKindPartial δ) : Io δ (ResourceKind δ) := do
  match ← Prog.attempt (getVersion E item.name item.version) with
  | .ok _ => Prog.fail (conflict ("Version " ++ item.version ++ " of " ++ item.name ++ " already exists"))
  | .error _ => do
    let new ← ofExcept (tryFromResourceKind E item)
    let version ← createSpec E new
    match ← Prog.attempt (readKind E item.name) with
    | .ok resourceKind => updateResourceKind E resourceKind.name version.key
    | .error _ => createResourceKindRow E ⟨item.name, version.key⟩
    ofExcept (toResourceKind E version)

/-- `delete_resource_kind` -/
def deleteResourceKind (domain name : String) : Io δ Unit := do
  let key := domain ++ "/" ++ name
  let _ ← readResourceKind E key
  delResourceKind E key
  delSpecsByKindKey E key

/-- `ResourceKindDb::inspect_by_pk`: the versions of a kind -/
def inspectResourceKind (pk : String) : Io δ (List (ResourceKindVersion δ)) := do
  let item ← readKind E pk
  let rows ← readSpecsByKindKey E item.name
  ofExcept (rows.mapM (toResourceKindVersion E))

/-! ## Resources -/

structure ResourcePartial (δ : Type) where
  name : String
  kind : String
  data : δ
  metadata : Option δ

structure ResourceSpec (δ : Type) where
  key : Uuid
  version : String
  resourceKey : String
  data : δ
  metadata : Option δ

structure Resource (δ : Type) where
  kind : String
  spec : ResourceSpec δ

/-- `From<SpecDb> for ResourceSpec` -/
def toResourceSpec (s : SpecDb δ) : ResourceSpec δ := ⟨s.key, s.version, s.kindKey, s.data, s.metadata⟩

/-- `ResourceDb::transform_read_by_pk` -/
def readResourceObj (pk : String) : Io δ (Resource δ) := do
  let r ← readResource E pk
  return ⟨r.1.kind, toResourceSpec r.2⟩

/-- `parse_kind`: the version in the kind, or the current one of the kind -/
def parseKind (kind : String) : Io δ (String × String) :=
  match splitKind kind with
  | domain :: name :: version :: _ => pure (domain ++ "/" ++ name, version)
  | _ => do
    let kind ← readKind E kind
    return (kind.name, kind.version)

/-- the spec of a resource -/
def resourceRow (key version : String) (data : δ) (metadata : Option δ) (uuid : Uuid) : SpecDb δ :=
  ⟨uuid, .resource, key, version, data, metadata⟩

/-- `ResourceDb::create_from_spec` -/
def createResourceFromSpec (item : ResourcePartial δ) : Io δ (Resource δ) := do
  let (kind, version) ← parseKind E item.kind
  let spec ← createSpec E (resourceRow item.name version item.data item.metadata)
  let row ← createResource E ⟨item.name, kind, spec.key⟩
  return ⟨row.kind, toResourceSpec spec⟩

/-- `ResourceDb::update_from_spec` -/
def updateResourceFromSpec (item : ResourcePartial δ) : Io δ (Resource δ) := do
  let resource ← readResourceObj E item.name
  let (_, version) ← parseKind E item.kind
  let spec ← createSpec E (resourceRow resource.spec.resourceKey version item.data item.metadata)
  updateResource E item.name spec.key
  return ⟨resource.kind, toResourceSpec spec⟩

/-! ## Controllers -/

/-- the urls that `CtrlClient::new` takes -/
def validUrl (url : String) : Bool :=
  ["unix://", "http://", "https://"].any fun p => p.toList.isPrefixOf url.toList

/-- `CtrlClient::new`: it panics on any other url, and the request ends there -/
def ctrlClient (url : String) : Io δ Unit :=
  if validUrl url then pure () else Prog.fail (internalServerError ("Invalid url: " ++ url))

/-- `CtrlClient::apply_rule` -/
def applyRule (request : RuleRequest) (data : δ) : Io δ δ := call E fun w =>
  match E.applyRule w.calls request data with
  | .ok data => (.ok data, { w with rules := request.rule :: w.rules.filter fun r => r ≠ request.rule })
  | .error e => (.error e, w)

/-- `CtrlClient::delete_rule` -/
def deleteRule (request : RuleRequest) : Io δ Unit := call E fun w =>
  match E.deleteRule w.calls request with
  | .ok () => (.ok (), { w with rules := w.rules.filter fun r => r ≠ request.rule })
  | .error e => (.error e, w)

/-- the version of a kind that a resource is checked against -/
def kindOf (kind : String) : Io δ (ResourceKind δ × String) := do
  let (kind, version) ← parseKind E kind
  let row ← getVersion E kind version
  let kind ← ofExcept (toResourceKind E row)
  return (kind, version)

/-- the schema of a kind, if it has one, accepts the data of a resource -/
def validateData (kind : ResourceKind δ) (data : δ) : Except HttpError Unit :=
  match kind.data.schema with
  | some schema => (E.validate schema data).mapError fun e => badRequest ("Invalid schema " ++ e)
  | none => .ok ()

/-- `hook_create`: the data becomes what the controller answers -/
def hookCreate (resource : ResourcePartial δ) : Io δ (ResourcePartial δ) := do
  let (kind, version) ← kindOf E resource.kind
  ofExcept (validateData E kind resource.data)
  match kind.data.url with
  | some url => do
    ctrlClient url
    let config ← applyRule E ⟨url, version, resource.name⟩ resource.data
    return { resource with data := config }
  | none => return resource

/-- `hook_delete`: the error that it hands back, if it does not panic -/
def hookDelete (resource : Resource δ) : Io δ (Except HttpError Unit) := do
  match ← Prog.attempt (kindOf E resource.kind) with
  | .error e => return .error e
  | .ok (kind, _) =>
    match kind.data.url with
    | some url => do
      ctrlClient url
      Prog.attempt (deleteRule E ⟨url, resource.spec.version, resource.spec.resourceKey⟩)
    | none => return .ok ()

/-! ## Requests -/

/-- `ResourceDb::fn_create_obj` -/
def createResourceObj (obj : ResourcePartial δ) : Io δ (Resource δ) := do
  match ← Prog.attempt (readResourceObj E obj.name) with
  | .ok _ => Prog.fail (conflict ("Resource " ++ obj.name ++ " already exists"))
  | .error _ => do
    let obj ← hookCreate E obj
    createResourceFromSpec E obj

/-- `ResourceDb::fn_put_obj_by_pk` -/
def putResourceObj (pk : String) (obj : ResourcePartial δ) : Io δ (Resource δ) := do
  let _ ← readResource E pk
  let resource ← hookCreate E obj
  updateResourceFromSpec E resource

structure ResourceUpdate (δ : Type) where
  data : δ
  metadata : Option δ

/-- `put_resource` -/
def putResource (name : String) (payload : ResourceUpdate δ) : Io δ (Resource δ) := do
  let resource ← readResourceObj E name
  putResourceObj E name ⟨name, resource.kind, payload.data, payload.metadata⟩

/-- `revert_resource`: the spec of the given uuid, put on the resource -/
def revertResource (name : String) (history : Uuid) : Io δ (Resource δ) := do
  let history ← readSpec E history
  let resource ← readResourceObj E name
  putResourceObj E name ⟨resource.spec.resourceKey, resource.kind, history.data, history.metadata⟩

/-- `ResourceDb::fn_del_obj_by_pk`: whether the rule could be taken back does not matter -/
def deleteResource (key : String) : Io δ (Resource δ) := do
  let resource ← readResourceObj E key
  let _ ← hookDelete E resource
  delResource E resource.spec.resourceKey
  delSpecsByKindKey E resource.spec.resourceKey
  return resource

/-- `list_resource_history` -/
def listResourceHistory (key : String) : Io δ (List (ResourceSpec δ)) := do
  let rows ← readSpecsByKindKey E key
  return rows.map toResourceSpec

/-! ## What the hooks find -/

/-- what `transform_read_by_pk` of a kind answers, if the call does -/
def currentKind (db : Tables δ) (pk : String) : Except HttpError (ResourceKind δ) := do
  let r ← orNotFound "ResourceKindDb" (do
    let row ← db.resourceKinds.find pk
    let spec ← db.specs.find row.specKey
    return (row, spec))
  toResourceKind E r.2

def parsedKind (db : Tables δ) (kind : String) : Except HttpError (String × String) :=
  match splitKind kind with
  | domain :: name :: version :: _ => .ok (domain ++ "/" ++ name, version)
  | _ => do
    let kind ← currentKind E db kind
    return (kind.name, kind.version)

/-- the calls of `parse_kind` -/
def parseCalls (kind : String) : ℕ :=
  match splitKind kind with
  | _ :: _ :: _ :: _ => 0
  | _ => 1

/-- the newest spec of a version -/
def versionOf (db : Tables δ) (name version : String) : Except HttpError (SpecDb δ) :=
  orNotFound "SpecDb" (newest ((specsOf db name).filter fun s => s.version = version)).head?

/-- the version of a kind that a resource is checked against, with the version it is called by -/
def foundKind (db : Tables δ) (kind : String) : Except HttpError (ResourceKind δ × String) := do
  let p ← parsedKind E db kind
  let row ← versionOf db p.1 p.2
  let kind ← toResourceKind E row
  return (kind, p.2)

/-- what `transform_read_by_pk` of a resource answers, if the call does -/
def resourceOf (db : Tables δ) (pk : String) : Except HttpError (Resource δ) := do
  let r ← orNotFound "ResourceDb" (do
    let row ← db.resources.find pk
    let spec ← db.specs.find row.specKey
    return (row, spec))
  return ⟨r.1.kind, toResourceSpec r.2⟩

variable {E}

theorem reads_readKind (pk : String) : Reads E (readKind E pk) 1 fun db => currentKind E db pk :=
  reads_bind (reads_query _) fun _ => reads_ofExcept _

theorem reads_readResourceObj (pk : String) : Reads E (readResourceObj E pk) 1 fun db => resourceOf db pk :=
  reads_bind (reads_query _) fun _ => reads_pure _

theorem reads_parseKind (kind : String) : Reads E (parseKind E kind) (parseCalls kind) fun db => parsedKind E db kind := by
  unfold parseKind parseCalls parsedKind
  split
  · exact reads_pure _
  · exact reads_bind (reads_readKind kind) fun _ => reads_pure _

theorem reads_kindOf (kind : String) : Reads E (kindOf E kind) (parseCalls kind + 1) fun db => foundKind E db kind :=
  reads_bind (reads_parseKind kind) fun _ => reads_bind (reads_query _) fun _ => reads_bind (reads_ofExcept _) fun _ =>
    reads_pure _

end Nanocl.Objects
