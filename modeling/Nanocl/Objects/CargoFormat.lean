/-
The specification of a cargo in the store: the row that is written of it (`try_from_cargo_partial`), the specification that
is read of the row (`try_to_cargo_spec`), and what the user gave (`From<CargoSpec> for CargoSpecPartial`).

The specification is written as an object of its fields under their names in Pascal case, less those that are `None`; the
mode of replication is tagged inside. The store may move the fields of an object. The metadata is written twice: with the
other fields in `data`, where a metadata of `null` is not read back, and in a column of its own, which is the one that is
read. The format of the container's configuration is a parameter, of which it is assumed that it reads what it writes.

- `fromValue_toValue_iff`: `data` alone gives the specification back unless its metadata is `null`.
- `cargo_spec_round_trip`: the row gives it back in any case.
- `storedRow_tryFromCargoPartial`, `tryToCargoSpec_storedRow`: the rows of the requests are these rows. A request has no
  metadata that is `null`, so the format is a codec of its specifications (`cargoCodec`).
-/
import Nanocl.Lib.Serde
import Nanocl.Objects.Cargo

namespace Nanocl.CargoFormat

open Lib Lib.Json Lib.Codec Lib.Field Lib.Record
open Objects (Uuid)
open Nanocl.Runtime (ImagePullPolicy ReplicationMode ReplicationStatic)

/-! ## Specifications -/

structure CargoSpecPartial (γ : Type) where
  name : String
  metadata : Option Lib.Json
  initContainer : Option γ
  secrets : Option (List String)
  imagePullSecret : Option String
  imagePullPolicy : Option ImagePullPolicy
  container : γ
  replication : Option ReplicationMode

structure CargoSpec (γ : Type) where
  key : Uuid
  cargoKey : String
  version : String
  createdAt : ℕ
  name : String
  metadata : Option Lib.Json
  initContainer : Option γ
  secrets : Option (List String)
  imagePullSecret : Option String
  imagePullPolicy : Option ImagePullPolicy
  container : γ
  replication : Option ReplicationMode

/-- a row of `specs` -/
structure SpecDb where
  key : Uuid
  createdAt : ℕ
  kindName : String
  kindKey : String
  version : String
  data : Lib.Json
  metadata : Option Lib.Json

variable {γ : Type} (config : Codec γ)

/-! ## Enumerations -/

def imagePullPolicy : Codec ImagePullPolicy :=
  variants
    (fun
      | .never => "Never"
      | .always => "Always"
      | .ifNotPresent => "IfNotPresent")
    (fun
      | "Never" => some .never
      | "Always" => some .always
      | "IfNotPresent" => some .ifNotPresent
      | _ => none)
    (fun p => by cases p <;> rfl)

/-! ## Modes of replication -/

def replicationStatic : Record ReplicationStatic :=
  (cons (required "Number" u64) nil).map (fun (n, ()) => ⟨n⟩) (fun s => (s.number, ())) fun _ => rfl

/-- the fields of the variants keep their names -/
def listOf (name : String) : Record (List String) :=
  (cons (required name text.list) nil).map (fun (l, ()) => l) (fun l => (l, ())) fun _ => rfl

def listAndNumber (name : String) (h : name ≠ "number" := by decide) : Record (List String × Int64) :=
  (cons (required name text.list) (cons (required "number" i64) nil) (by simpa using h)).map
    (fun (l, n, ()) => (l, n)) (fun p => (p.1, p.2, ())) fun _ => rfl

def replicationTag : ReplicationMode → String
  | .auto => "Auto"
  | .unique => "Unique"
  | .uniqueByNode => "UniqueByNode"
  | .uniqueByNodeGroups _ => "UniqueByNodeGroups"
  | .uniqueByNodeNames _ => "UniqueByNodeNames"
  | .static _ => "Static"
  | .staticByNodes _ => "StaticByNodes"
  | .staticByNodeGroups _ _ => "StaticByNodeGroups"
  | .staticByNodeNames _ _ => "StaticByNodeNames"

/-- the fields beside the tag -/
def replicationContent : ReplicationMode → List (String × Lib.Json)
  | .auto | .unique | .uniqueByNode => []
  | .uniqueByNodeGroups l => (listOf "groups").write l
  | .uniqueByNodeNames l => (listOf "names").write l
  | .static s | .staticByNodes s => replicationStatic.write s
  | .staticByNodeGroups l n => (listAndNumber "groups").write (l, n)
  | .staticByNodeNames l n => (listAndNumber "names").write (l, n)

@[simp] theorem replicationStatic_names : replicationStatic.names = ["Number"] := rfl

@[simp] theorem listOf_names (name : String) : (listOf name).names = [name] := rfl

@[simp] theorem listAndNumber_names (name : String) (h) : (listAndNumber name h).names = [name, "number"] := rfl

theorem replicationTag_not_mem_content (r : ReplicationMode) : "Mode" ∉ (replicationContent r).map Prod.fst := by
  intro h
  cases r with
  | auto | unique | uniqueByNode => cases h
  | uniqueByNodeGroups | uniqueByNodeNames => simpa using ((listOf _).write_names _).subset h
  | static | staticByNodes => simpa using (replicationStatic.write_names _).subset h
  | staticByNodeGroups | staticByNodeNames => simpa using ((listAndNumber _).write_names _).subset h

/-- a variant that holds nothing takes any object and an empty list -/
def isEmpty : Lib.Json → Bool
  | .obj _ | .arr [] => true
  | _ => false

/-- the variant of the tag, from what is left without it -/
def replicationOfTag (tag : String) (j : Lib.Json) : Option ReplicationMode :=
  match tag with
  | "Auto" => if isEmpty j then some .auto else none
  | "Unique" => if isEmpty j then some .unique else none
  | "UniqueByNode" => if isEmpty j then some .uniqueByNode else none
  | "UniqueByNodeGroups" => ((listOf "groups").codec.decode j).map .uniqueByNodeGroups
  | "UniqueByNodeNames" => ((listOf "names").codec.decode j).map .uniqueByNodeNames
  | "Static" => (replicationStatic.codec.decode j).map .static
  | "StaticByNodes" => (replicationStatic.codec.decode j).map .staticByNodes
  | "StaticByNodeGroups" => ((listAndNumber "groups").codec.decode j).map fun p => .staticByNodeGroups p.1 p.2
  | "StaticByNodeNames" => ((listAndNumber "names").codec.decode j).map fun p => .staticByNodeNames p.1 p.2
  | _ => none

theorem replicationOfTag_content (r : ReplicationMode) (j : Lib.Json) (h : Same (.obj (replicationContent r)) j) :
    replicationOfTag (replicationTag r) j = some r := by
  cases r with
  | auto | unique | uniqueByNode =>
    cases h
    rfl
  | uniqueByNodeGroups l | uniqueByNodeNames l =>
    show ((listOf _).codec.decode j).map _ = _
    rw [Codec.decode_encode _ l j h]
    rfl
  | static s | staticByNodes s =>
    show (replicationStatic.codec.decode j).map _ = _
    rw [Codec.decode_encode _ s j h]
    rfl
  | staticByNodeGroups l n | staticByNodeNames l n =>
    show ((listAndNumber _).codec.decode j).map _ = _
    rw [Codec.decode_encode _ (l, n) j h]
    rfl

def replicationMode : Codec ReplicationMode :=
  tagged "Mode" replicationTag replicationContent replicationOfTag replicationTag_not_mem_content
    replicationOfTag_content

/-! ## The format of a specification -/

def nameField : Lib.Field String := required "Name" text

def initContainerField : Lib.Field (Option γ) := skipped "InitContainer" config

def secretsField : Lib.Field (Option (List String)) := skipped "Secrets" text.list

def imagePullSecretField : Lib.Field (Option String) := skipped "ImagePullSecret" text

def imagePullPolicyField : Lib.Field (Option ImagePullPolicy) := skipped "ImagePullPolicy" imagePullPolicy

def containerField : Lib.Field γ := required "Container" config

def replicationField : Lib.Field (Option ReplicationMode) := skipped "Replication" replicationMode

/-- any value is read as it is, except `null`, which is read as `None` -/
def readValue : Option Lib.Json → Option Lib.Json
  | some .null => none
  | o => o

def fieldsOf (p : CargoSpecPartial γ) : List (String × Option Lib.Json) :=
  [nameField.entry p.name, ("Metadata", p.metadata), (initContainerField config).entry p.initContainer,
    secretsField.entry p.secrets, imagePullSecretField.entry p.imagePullSecret,
    imagePullPolicyField.entry p.imagePullPolicy, (containerField config).entry p.container,
    replicationField.entry p.replication]

def fieldNames : List String :=
  ["Name", "Metadata", "InitContainer", "Secrets", "ImagePullSecret", "ImagePullPolicy", "Container", "Replication"]

def ofFields (get : String → Option Lib.Json) : Option (CargoSpecPartial γ) := do
  return {
    name := ← nameField.get get
    metadata := readValue (get "Metadata")
    initContainer := ← (initContainerField config).get get
    secrets := ← secretsField.get get
    imagePullSecret := ← imagePullSecretField.get get
    imagePullPolicy := ← imagePullPolicyField.get get
    container := ← (containerField config).get get
    replication := ← replicationField.get get }

/-- `serde_json::to_value` -/
def toValue (p : CargoSpecPartial γ) : Lib.Json := .obj (present (fieldsOf config p))

/-- `serde_json::from_value` -/
def fromValue : Lib.Json → Option (CargoSpecPartial γ) := readStruct fieldNames (ofFields config)

/-- the fields are read as they were written; the metadata as it is found -/
theorem ofFields_of_same (p : CargoSpecPartial γ) {get : String → Option Lib.Json}
    (hget : ∀ f ∈ fieldsOf config p, Option.Rel Same f.2 (get f.1)) :
    ofFields config get = some { p with metadata := readValue (get "Metadata") } := by
  have hname := nameField.get_of_entry p.name (hget _ (by simp [fieldsOf]))
  have hinit := (initContainerField config).get_of_entry p.initContainer (hget _ (by simp [fieldsOf]))
  have hsecrets := secretsField.get_of_entry p.secrets (hget _ (by simp [fieldsOf]))
  have hsecret := imagePullSecretField.get_of_entry p.imagePullSecret (hget _ (by simp [fieldsOf]))
  have hpolicy := imagePullPolicyField.get_of_entry p.imagePullPolicy (hget _ (by simp [fieldsOf]))
  have hcontainer := (containerField config).get_of_entry p.container (hget _ (by simp [fieldsOf]))
  have hreplication := replicationField.get_of_entry p.replication (hget _ (by simp [fieldsOf]))
  simp only [ofFields, hname, hinit, hsecrets, hsecret, hpolicy, hcontainer, hreplication, Option.bind_eq_bind,
    Option.bind_some, Option.pure_def]

theorem fieldsOf_names (p : CargoSpecPartial γ) : (fieldsOf config p).map Prod.fst = fieldNames := rfl

theorem fieldsOf_nodup (p : CargoSpecPartial γ) : ((fieldsOf config p).map Prod.fst).Nodup := by
  rw [fieldsOf_names]
  decide

/-- **What is written is read**, in whatever order its fields come, up to the metadata. -/
theorem fromValue_of_same (p : CargoSpecPartial γ) {j : Lib.Json} (h : Same (toValue config p) j) :
    ∃ o, fromValue config j = some { p with metadata := o } := by
  obtain ⟨get, hread, hget⟩ := readStruct_present (ofFields config) (fieldsOf_nodup config p) h
  rw [fieldsOf_names] at hread
  exact ⟨readValue (get "Metadata"), hread.trans (ofFields_of_same config p hget)⟩

/-- in the order it was written in, the metadata is read as it is unless it is `null` -/
theorem fromValue_toValue (p : CargoSpecPartial γ) :
    fromValue config (toValue config p) = some { p with metadata := readValue p.metadata } := by
  have hlookup := fun n o (h : (n, o) ∈ fieldsOf config p) => lookup_present (fieldsOf_nodup config p) h
  have hread := readStruct_obj_present (ofFields config) (fieldsOf_nodup config p)
  rw [fieldsOf_names] at hread
  refine hread.trans ?_
  rw [ofFields_of_same config p fun f hf => ?_, hlookup "Metadata" p.metadata (by simp [fieldsOf])]
  rw [hlookup f.1 f.2 hf]
  cases f.2 with
  | none => exact .none
  | some j => exact .some (Same.refl j)

/-- **`data` alone gives the specification back** unless its metadata is `null`. -/
theorem fromValue_toValue_iff (p : CargoSpecPartial γ) :
    fromValue config (toValue config p) = some p ↔ p.metadata ≠ some .null := by
  rw [fromValue_toValue, Option.some_inj]
  constructor
  · intro h hnull
    have hread : readValue p.metadata = p.metadata := congrArg CargoSpecPartial.metadata h
    rw [hnull] at hread
    cases hread
  · intro h
    have hread : readValue p.metadata = p.metadata := by
      unfold readValue
      split
      · exact absurd ‹_› h
      · rfl
    rw [hread]

/-! ## Conversions -/

/-- `try_from_cargo_partial`, with the uuid and the time that are drawn for it -/
def tryFromCargoPartial (key version : String) (item : CargoSpecPartial γ) (uuid : Uuid) (now : ℕ) : SpecDb where
  key := uuid
  createdAt := now
  kindName := "Cargo"
  kindKey := key
  version := version
  data := toValue config item
  metadata := item.metadata

/-- `try_to_cargo_spec` -/
def tryToCargoSpec (s : SpecDb) : Option (CargoSpec γ) := do
  let p ← fromValue config s.data
  return {
    key := s.key
    cargoKey := s.kindKey
    version := s.version
    createdAt := s.createdAt
    name := p.name
    metadata := s.metadata
    initContainer := p.initContainer
    secrets := p.secrets
    container := p.container
    replication := p.replication
    imagePullSecret := p.imagePullSecret
    imagePullPolicy := p.imagePullPolicy }

/-- `From<CargoSpec> for CargoSpecPartial` -/
def CargoSpecPartial.from (spec : CargoSpec γ) : CargoSpecPartial γ where
  initContainer := spec.initContainer
  name := spec.name
  replication := spec.replication
  container := spec.container
  metadata := spec.metadata
  secrets := spec.secrets
  imagePullSecret := spec.imagePullSecret
  imagePullPolicy := spec.imagePullPolicy

/-- a row of which the store has moved the fields of `data` is read as the specification it was written of -/
theorem tryToCargoSpec_of_same (key version : String) (p : CargoSpecPartial γ) (uuid : Uuid) (now : ℕ) {data : Lib.Json}
    (h : Same (tryFromCargoPartial config key version p uuid now).data data) :
    ∃ spec, tryToCargoSpec config { tryFromCargoPartial config key version p uuid now with data := data } = some spec ∧
      spec.key = uuid ∧ spec.cargoKey = key ∧ spec.version = version ∧ spec.createdAt = now ∧
      CargoSpecPartial.from spec = p := by
  obtain ⟨o, hread⟩ := fromValue_of_same config p h
  simp only [tryToCargoSpec, hread, Option.bind_eq_bind, Option.bind_some]
  exact ⟨_, rfl, rfl, rfl, rfl, rfl, rfl⟩

/-- **A specification comes back from its row as the user gave it**, and so it does if the store moves the fields of
`data`. -/
theorem cargo_spec_round_trip (key version : String) (p : CargoSpecPartial γ) (uuid : Uuid) (now : ℕ) :
    (tryToCargoSpec config (tryFromCargoPartial config key version p uuid now)).map CargoSpecPartial.from = some p ∧
    ∀ data, Same (tryFromCargoPartial config key version p uuid now).data data →
      (tryToCargoSpec config { tryFromCargoPartial config key version p uuid now with data := data }).map
        CargoSpecPartial.from = some p := by
  have hstored : ∀ data, Same (tryFromCargoPartial config key version p uuid now).data data →
      (tryToCargoSpec config { tryFromCargoPartial config key version p uuid now with data := data }).map
        CargoSpecPartial.from = some p := by
    intro data h
    obtain ⟨spec, hread, -, -, -, -, hfrom⟩ := tryToCargoSpec_of_same config key version p uuid now h
    rw [hread, Option.map_some, hfrom]
  exact ⟨hstored _ (Same.refl _), hstored⟩

/-! ### The rows of the requests -/

section Requests

/-- JSON other than `null`: what `serde_json` reads into an `Option<Value>` that is there -/
abbrev Document := {j : Lib.Json // j ≠ .null}

instance (j : Lib.Json) : Decidable (j = .null) := decidable_of_iff _ Lib.Json.isNull_iff

/-- a value, as it is in the specification of a request -/
def document (o : Option Lib.Json) : Option Document := o.bind fun j => if h : j = .null then none else some ⟨j, h⟩

theorem document_val (o : Option Document) : document (o.map Subtype.val) = o := by
  cases o with
  | none => rfl
  | some d => simp [document, d.2]

def ofRequest (p : Objects.CargoSpecPartial Document) : CargoSpecPartial Runtime.Config where
  name := p.name
  metadata := p.metadata.map Subtype.val
  initContainer := p.initContainer
  secrets := p.secrets
  imagePullSecret := p.imagePullSecret
  imagePullPolicy := p.imagePullPolicy
  container := p.container
  replication := p.replication

def toRequest (p : CargoSpecPartial Runtime.Config) : Objects.CargoSpecPartial Document where
  name := p.name
  metadata := document p.metadata
  initContainer := p.initContainer
  secrets := p.secrets
  imagePullSecret := p.imagePullSecret
  imagePullPolicy := p.imagePullPolicy
  container := p.container
  replication := p.replication

theorem toRequest_ofRequest (p : Objects.CargoSpecPartial Document) : toRequest (ofRequest p) = p := by
  have hmetadata := document_val p.metadata
  simp only [toRequest, ofRequest, hmetadata]

/-- a specification of a request has no metadata that is `null` -/
theorem metadata_ofRequest (p : Objects.CargoSpecPartial Document) : (ofRequest p).metadata ≠ some .null := by
  intro h
  obtain ⟨d, -, hd⟩ := Option.map_eq_some_iff.1 h
  exact d.2 hd

variable (config : Codec Runtime.Config) (message : Lib.Json → String)

/-- **The format is a codec of the specifications of requests**; `message` is what is said of a value it refuses. -/
def cargoCodec : Objects.Codec Document (Objects.CargoSpecPartial Document) where
  toValue p := ⟨toValue config (ofRequest p), fun h => by cases h⟩
  fromValue j :=
    match fromValue config j.val with
    | some p => .ok (toRequest p)
    | none => .error (message j.val)
  fromValue_toValue p := by
    have hread := (fromValue_toValue_iff config (ofRequest p)).2 (metadata_ofRequest p)
    simp only [hread, toRequest_ofRequest]

/-- `specs.kind_name` -/
def kindName : Objects.SpecKind → String
  | .cargo => "Cargo"
  | .vm => "Vm"
  | .resource => "Resource"
  | .resourceKind => "ResourceKind"

/-- a row that a request writes, with the time of its creation -/
def storedRow (row : Objects.SpecDb Document) (createdAt : ℕ) : SpecDb where
  key := row.key
  createdAt
  kindName := kindName row.kindName
  kindKey := row.kindKey
  version := row.version
  data := row.data.val
  metadata := row.metadata.map Subtype.val

/-- a specification, as a request reads it -/
def specOf (spec : CargoSpec Runtime.Config) : Objects.CargoSpec Document :=
  { toRequest (CargoSpecPartial.from spec) with key := spec.key, cargoKey := spec.cargoKey, version := spec.version }

variable {E : Objects.Env Document} (hE : E.cargoSpec = cargoCodec config message)

include hE

/-- **A request writes this row** of a specification. -/
theorem storedRow_tryFromCargoPartial (key version : String) (p : Objects.CargoSpecPartial Document) (uuid : Uuid)
    (now : ℕ) : storedRow (Objects.tryFromCargoPartial E key version p uuid) now =
      tryFromCargoPartial config key version (ofRequest p) uuid now := by
  simp only [storedRow, Objects.tryFromCargoPartial, hE]
  rfl

/-- **A request reads it** as the specification that it is read as. -/
theorem tryToCargoSpec_storedRow (row : Objects.SpecDb Document) (now : ℕ) :
    (Objects.tryToCargoSpec E row).toOption = (tryToCargoSpec config (storedRow row now)).map specOf := by
  unfold Objects.tryToCargoSpec tryToCargoSpec
  rw [hE]
  simp only [cargoCodec, storedRow]
  cases hread : fromValue config row.data.val with
  | none => rfl
  | some p =>
    have hmetadata := document_val row.metadata
    simp only [Option.bind_eq_bind, Option.bind_some, Option.pure_def, Option.map_some, specOf, toRequest,
      CargoSpecPartial.from, hmetadata]
    rfl

end Requests

/-! ### A specification -/

/-- a configuration of which only the image is set -/
structure ImageOnly where
  image : Option String

def imageOnly : Codec ImageOnly :=
  ((cons (skipped "Image" text) nil).map (fun (i, ()) => ImageOnly.mk i) (fun c => (c.image, ())) fun _ => rfl).codec

def redis : CargoSpecPartial ImageOnly where
  name := "redis"
  metadata := some .null
  initContainer := none
  secrets := some ["env"]
  imagePullSecret := none
  imagePullPolicy := some .always
  container := ⟨some "redis:7"⟩
  replication := some (.staticByNodeNames ["node-a", "node-b"] 2)

/-- `data` with its fields the other way round -/
def redisData : Lib.Json :=
  .obj [
    ("Replication", .obj [("Mode", .str "StaticByNodeNames"), ("names", .arr [.str "node-a", .str "node-b"]),
      ("number", .int 2)]),
    ("Container", .obj [("Image", .str "redis:7")]),
    ("ImagePullPolicy", .str "Always"),
    ("Secrets", .arr [.str "env"]),
    ("Metadata", .null),
    ("Name", .str "redis")]

theorem redisData_same : Same (tryFromCargoPartial imageOnly "redis.global" "v0.16" redis 1 0).data redisData :=
  .obj rfl (Same.refl_fields _) (List.reverse_perm (present (fieldsOf imageOnly redis))).symm

theorem redis_round_trip :
    (tryToCargoSpec imageOnly
      { tryFromCargoPartial imageOnly "redis.global" "v0.16" redis 1 0 with data := redisData }).map
        CargoSpecPartial.from = some redis :=
  (cargo_spec_round_trip imageOnly "redis.global" "v0.16" redis 1 0).2 redisData redisData_same

end Nanocl.CargoFormat
