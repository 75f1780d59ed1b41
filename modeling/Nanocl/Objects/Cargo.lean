/-
The requests on cargoes (`objects/cargo.rs`, `services/cargo`): create, put, patch, revert and the listing of the
history, with the conversions of a specification from and to its row (`repositories/spec.rs`).
-/
import Nanocl.Objects.Spec
import Nanocl.System.Sync

namespace Nanocl.Objects

open Nanocl.Lib Nanocl.Status

variable {δ : Type} (E : Env δ)

export Sync (genKey)

abbrev Cargo (δ : Type) := Object (CargoSpec δ)

/-! ## Specifications -/

/-- `try_from_cargo_partial` -/
def tryFromCargoPartial (key version : String) (item : CargoSpecPartial δ) (uuid : Uuid) : SpecDb δ where
  key := uuid
  kindName := .cargo
  kindKey := key
  version := version
  data := E.cargoSpec.toValue item
  metadata := item.metadata

/-- `try_to_cargo_spec`: the metadata is that of the column -/
def tryToCargoSpec (s : SpecDb δ) : Except HttpError (CargoSpec δ) := do
  let p ← serde (E.cargoSpec.fromValue s.data)
  return { p with metadata := s.metadata, key := s.key, cargoKey := s.kindKey, version := s.version }

@[simp] theorem tryToCargoSpec_tryFrom (key version : String) (item : CargoSpecPartial δ) (uuid : Uuid) :
    tryToCargoSpec E (tryFromCargoPartial E key version item uuid) =
      .ok { item with key := uuid, cargoKey := key, version := version } := by
  simp [tryToCargoSpec, tryFromCargoPartial, serde, E.cargoSpec.fromValue_toValue, Except.mapError]

theorem columns_of_tryToCargoSpec {s : SpecDb δ} {spec : CargoSpec δ} (h : tryToCargoSpec E s = .ok spec) :
    spec.key = s.key ∧ spec.cargoKey = s.kindKey := by
  unfold tryToCargoSpec at h
  cases hp : serde (E.cargoSpec.fromValue s.data) with
  | error e => simp [hp, bind, Except.bind] at h
  | ok p =>
    simp only [hp, bind, Except.bind, pure, Except.pure, Except.ok.injEq] at h
    exact ⟨by rw [← h], by rw [← h]⟩

/-- the specifications of cargoes -/
def cargoFormat : Format δ (CargoSpec δ) (CargoSpecPartial δ) where
  kind := .cargo
  specKind := .cargo
  write := tryFromCargoPartial E
  read := tryToCargoSpec E
  name item := item.name
  specKey spec := spec.key
  ownerKey spec := spec.cargoKey
  specName spec := spec.name
  updateKey key _ := key
  key_write _ _ _ _ := rfl
  kindName_write _ _ _ _ := rfl
  kindKey_write _ _ _ _ := rfl
  readBack key version item uuid := { item with key := uuid, cargoKey := key, version := version }
  read_write := tryToCargoSpec_tryFrom E
  specKey_readBack _ _ _ _ := rfl
  specName_readBack _ _ _ _ := rfl
  specKey_read _ _ h := (columns_of_tryToCargoSpec E h).1
  ownerKey_read _ _ h := (columns_of_tryToCargoSpec E h).2

/-- `CargoDb::transform_read_by_pk` -/
def readCargo (pk : String) : Io δ (Cargo δ) := readObj E (cargoFormat E) pk

/-! ## Create -/

/-- the name of a cargo is made of alphanumeric characters, `_` and `-` -/
def validName (name : String) : Bool := name.toList.all fun c => E.alphanumeric.is c || c = '_' || c = '-'

structure CargoObjCreateIn (δ : Type) where
  namespace_ : String
  spec : CargoSpecPartial δ
  version : String

/-- `CargoDb::fn_create_obj` -/
def createCargo (obj : CargoObjCreateIn δ) : Io δ (Cargo δ) :=
  if validName E obj.spec.name then do
    let key := genKey obj.namespace_ obj.spec.name
    let row ← createSpec E (tryFromCargoPartial E key obj.version obj.spec)
    let spec ← ofExcept (tryToCargoSpec E row)
    let status ← createStatus E ⟨key, created⟩
    let cargo ← createObject E .cargo ⟨key, obj.spec.name, spec.key, key, obj.namespace_⟩
    return ⟨cargo.namespaceName, spec, status⟩
  else Prog.fail (badRequest "Cargo name can only contain a-z, A-Z, 0-9, and -_")

/-- the key of the new cargo -/
def CargoObjCreateIn.key (obj : CargoObjCreateIn δ) : String := genKey obj.namespace_ obj.spec.name

/-- the spec of the new cargo -/
def cargoSpecRow (obj : CargoObjCreateIn δ) (uuid : Uuid) : SpecDb δ :=
  tryFromCargoPartial E obj.key obj.version obj.spec uuid

/-- the row of the new cargo -/
def CargoObjCreateIn.row (obj : CargoObjCreateIn δ) (uuid : Uuid) : ObjectDb :=
  ⟨obj.key, obj.spec.name, uuid, obj.key, obj.namespace_⟩

/-- a creation gets as far as storing its spec -/
structure CargoBegins (w : World δ) (obj : CargoObjCreateIn δ) : Prop where
  name : validName E obj.spec.name
  answers : E.fault w.calls = none
  uuid : w.db.specs.find (E.uuid w.calls) = none

/-- nothing goes wrong after that -/
structure CargoCompletes (w : World δ) (obj : CargoObjCreateIn δ) : Prop where
  answers : E.fault (w.calls + 1) = none ∧ E.fault (w.calls + 2) = none
  status : w.db.statuses.find obj.key = none
  row : w.db.cargoes.find obj.key = none
  namespace_ : (w.db.namespaces.find obj.namespace_).isSome

variable {E} in
/-- **What a creation does**: nothing; or it stores its spec, and perhaps its status; or all three rows. -/
theorem createCargo_cases {obj : CargoObjCreateIn δ} {w w' : World δ} {r : Except HttpError (Cargo δ)}
    (h : createCargo E obj w = (r, w')) :
    (∃ e k, r = .error e ∧ w' = w.after k w.db ∧ ¬ CargoBegins E w obj) ∨
    ∃ t, CargoBegins E w obj ∧ w.db.specs.insert (cargoSpecRow E obj (E.uuid w.calls)) = some t ∧
      ((∃ e k, r = .error e ∧ ¬ CargoCompletes E w obj ∧ w' = w.after k { w.db with specs := t }) ∨
        (∃ e k st, r = .error e ∧ ¬ CargoCompletes E w obj ∧ w.db.statuses.insert ⟨obj.key, created⟩ = some st ∧
          w' = w.after k { w.db with specs := t, statuses := st }) ∨
        ∃ cargo st ct, r = .ok cargo ∧ CargoCompletes E w obj ∧ w.db.statuses.insert ⟨obj.key, created⟩ = some st ∧
          w.db.cargoes.insert (obj.row (E.uuid w.calls)) = some ct ∧
          w' = w.after 3 { w.db with specs := t, statuses := st, cargoes := ct }) := by
  by_cases hname : validName E obj.spec.name
  · have hrun : createCargo E obj = (do
        let row ← createSpec E (cargoSpecRow E obj)
        let spec ← ofExcept (tryToCargoSpec E row)
        let status ← createStatus E ⟨obj.key, created⟩
        let cargo ← createObject E .cargo (obj.row spec.key)
        return ⟨cargo.namespaceName, spec, status⟩) := if_pos hname
    rw [hrun] at h
    by_cases hspec : E.fault w.calls = none ∧ w.db.specs.find (E.uuid w.calls) = none
    · obtain ⟨t, ht, hrun⟩ := createSpec_ok (E := E) (w := w) (cargoSpecRow E obj) hspec.1 hspec.2
      rw [Prog.bind_of_ok hrun] at h
      have hread : tryToCargoSpec E (cargoSpecRow E obj (E.uuid w.calls)) = .ok _ :=
        tryToCargoSpec_tryFrom E obj.key obj.version obj.spec (E.uuid w.calls)
      rw [Prog.bind_of_ok (by rw [run_ofExcept, hread])] at h
      refine .inr ⟨t, ⟨hname, hspec.1, hspec.2⟩, ht, ?_⟩
      by_cases hst : E.fault (w.calls + 1) = none ∧ w.db.statuses.find obj.key = none
      · obtain ⟨st, hsti, hrun⟩ := createStatus_ok (E := E) (w := w.after 1 { w.db with specs := t })
          ⟨obj.key, created⟩ hst.1 hst.2
        rw [Prog.bind_of_ok hrun] at h
        change (createObject E .cargo (obj.row (E.uuid w.calls)) >>= _)
          (w.after 2 { w.db with specs := t, statuses := st }) = _ at h
        have hnew : (t.find (E.uuid w.calls)).isSome := Option.isSome_iff_exists.2 ⟨_, Table.find_insert_self ht⟩
        have hkey : (st.find obj.key).isSome := Option.isSome_iff_exists.2 ⟨_, Table.find_insert_self hsti⟩
        by_cases hct : E.fault (w.calls + 2) = none ∧ w.db.cargoes.find obj.key = none ∧
            (w.db.namespaces.find obj.namespace_).isSome
        · obtain ⟨ct, hcti, hrun⟩ := createObject_ok (E := E) .cargo (obj.row (E.uuid w.calls))
            (w := w.after 2 { w.db with specs := t, statuses := st }) hct.1 hct.2.1 ⟨hnew, hkey, hct.2.2⟩
          rw [Prog.bind_of_ok hrun] at h
          obtain ⟨rfl, rfl⟩ := Prod.mk.inj h
          exact .inr (.inr ⟨_, st, ct, rfl, ⟨⟨hst.1, hct.1⟩, hst.2, hct.2.1, hct.2.2⟩, hsti, hcti, rfl⟩)
        · obtain ⟨e, hrun⟩ := createObject_error (E := E) .cargo (obj.row (E.uuid w.calls))
            (w := w.after 2 { w.db with specs := t, statuses := st }) fun hc => hct ⟨hc.1, hc.2.1, hc.2.2.2.2⟩
          rw [Prog.bind_of_error hrun] at h
          obtain ⟨rfl, rfl⟩ := Prod.mk.inj h
          exact .inr (.inl ⟨e, 3, st, rfl, fun hc => hct ⟨hc.answers.2, hc.row, hc.namespace_⟩, hsti, rfl⟩)
      · obtain ⟨e, hrun⟩ := createStatus_error (E := E) (w := w.after 1 { w.db with specs := t })
          ⟨obj.key, created⟩ hst
        rw [Prog.bind_of_error hrun] at h
        obtain ⟨rfl, rfl⟩ := Prod.mk.inj h
        exact .inl ⟨e, 2, rfl, fun hc => hst ⟨hc.answers.1, hc.status⟩, rfl⟩
    · obtain ⟨e, hrun⟩ := createSpec_error (E := E) (cargoSpecRow E obj) hspec
      rw [Prog.bind_of_error hrun] at h
      obtain ⟨rfl, rfl⟩ := Prod.mk.inj h
      exact .inl ⟨e, 1, rfl, rfl, fun hb => hspec ⟨hb.answers, hb.uuid⟩⟩
  · have hrun : createCargo E obj = Prog.fail (badRequest "Cargo name can only contain a-z, A-Z, 0-9, and -_") := if_neg hname
    rw [hrun] at h
    obtain ⟨rfl, rfl⟩ := Prod.mk.inj h
    exact .inl ⟨_, 0, rfl, rfl, fun hb => hname hb.name⟩

/-! ## Put -/

structure CargoObjPutIn (δ : Type) where
  spec : CargoSpecPartial δ
  version : String

/-- `CargoDb::update_from_spec` -/
def updateCargoFromSpec (key : String) (item : CargoSpecPartial δ) (version : String) : Io δ (Cargo δ) :=
  updateFromSpec E (cargoFormat E) key item version

/-- `CargoDb::fn_put_obj_by_pk` -/
def putCargo (pk : String) (obj : CargoObjPutIn δ) : Io δ (Cargo δ) :=
  putFrom E (cargoFormat E) pk pk obj.spec obj.version

/-! ## Patch -/

/-- `CargoSpecUpdate`; the name in it is not read -/
structure CargoSpecUpdate (δ : Type) where
  name : Option String
  metadata : Option δ
  initContainer : Option Runtime.Config
  secrets : Option (List String)
  imagePullSecret : Option String
  imagePullPolicy : Option Runtime.ImagePullPolicy
  container : Option Runtime.Config
  replication : Option Runtime.ReplicationMode

structure CargoObjPatchIn (δ : Type) where
  spec : CargoSpecUpdate δ
  version : String

/-- one variable of the patch: it replaces the one of its name, or removes it where its value is empty. The value that
is compared with the new one is the whole of the old variable. -/
def mergeEnvVar (envVars : List String) (envVar : String) : List String :=
  match envVar.toList.splitOn '=' with
  | name :: value :: rest =>
    let value := List.intercalate ['='] (value :: rest)
    match envVars.findIdx? fun x => (name ++ ['=']).isPrefixOf x.toList with
    | some pos =>
      if envVars[pos]? ≠ some (String.ofList value) ∧ value ≠ [] then
        envVars.set pos (String.ofList (name ++ '=' :: value))
      else if value = [] then envVars.eraseIdx pos
      else envVars
    | none => envVars ++ [envVar]
  | _ => envVars

/-- the container of the patch merged into the current one -/
def mergeContainer (current container : Runtime.Config) : Runtime.Config :=
  let binds (c : Runtime.Config) := ((c.hostConfig.getD .default).binds).getD []
  let volumes := (binds container).foldl (fun vs v => if v ∈ vs then vs else vs ++ [v]) (binds current)
  { current with
    cmd := container.cmd.or current.cmd
    image := container.image.or current.image
    env := some ((container.env.getD []).foldl mergeEnvVar (current.env.getD []))
    hostConfig :=
      if volumes ≠ [] ∨ current.hostConfig.isSome then
        some { current.hostConfig.getD .default with binds := some volumes }
      else none }

/-- the specification a patch makes of the current one; the replication is that of the patch -/
def patchCargoSpec (current : CargoSpec δ) (spec : CargoSpecUpdate δ) : CargoSpecPartial δ where
  name := current.name
  container := match spec.container with
    | some container => mergeContainer current.container container
    | none => current.container
  initContainer := spec.initContainer.or current.initContainer
  replication := spec.replication
  secrets := spec.secrets.or current.secrets
  metadata := spec.metadata.or current.metadata
  imagePullSecret := spec.imagePullSecret.or current.imagePullSecret
  imagePullPolicy := spec.imagePullPolicy.or current.imagePullPolicy

/-- `CargoDb::fn_patch_obj_by_pk` -/
def patchCargo (pk : String) (obj : CargoObjPatchIn δ) : Io δ (Cargo δ) := do
  let cargo ← readCargo E pk
  putCargo E pk ⟨patchCargoSpec cargo.spec obj.spec, obj.version⟩

/-! ## Revert and history -/

/-- `revert_cargo`: the spec of the given uuid, put on the cargo -/
def revertCargo (cargoKey : String) (history : Uuid) (version : String) : Io δ (Cargo δ) := do
  let row ← readSpec E history
  let spec ← ofExcept (tryToCargoSpec E row)
  putCargo E cargoKey ⟨spec.toCargoSpecPartial, version⟩

/-- `list_cargo_history` -/
def listCargoHistory (key : String) : Io δ (List (CargoSpec δ)) := do
  let rows ← readSpecsByKindKey E key
  ofExcept (rows.mapM (tryToCargoSpec E))

/-! ## A store with one cargo -/

/-- the specification of a cargo `web` -/
def webSpec : CargoSpecPartial Value where
  name := "web"
  metadata := none
  initContainer := none
  secrets := none
  imagePullSecret := none
  imagePullPolicy := none
  container := { Runtime.Config.default with image := some "nginx:latest" }
  replication := none

/-- the namespace `global` and nothing else -/
def globalWorld : World Value :=
  let w : World Value := World.init
  { w with db := { w.db with namespaces := ⟨[⟨"global"⟩], List.nodup_singleton _⟩ } }

/-- the cargo `web.global` as its creation leaves it -/
def webWorld : World Value := (createCargo Env.plain ⟨"global", webSpec, "v0.16"⟩ globalWorld).2

end Nanocl.Objects
