/-
The history of cargoes and resources: the specs that bear the key of an object. `list_cargo_history` and
`list_resource_history` list them, and a revert goes back to one of them by its uuid.

- `Change`: what an operation may do to the specs and the rows of resources. Whether it returns or fails, it inserts at
  most one spec and touches none.
- `HistoryOp.outcome`: an operation that returns has inserted one spec of its own object, and the object points to it.
- `history_kept`: along every run a revert to an entry of the object itself gives the object the metadata of that entry,
  and its data as the controller of its kind hands it back, where it has one.
- `revert_unfaithful`: a revert takes the spec of any object; and a controller may answer other data than it is given.
-/
import Nanocl.Objects.Keys
import Nanocl.Objects.ResourceCases

namespace Nanocl.Objects

open Nanocl.Lib Nanocl.Status

variable {δ : Type} (E : Env δ)

inductive HistoryOp (δ : Type) where
  | createCargo (obj : CargoObjCreateIn δ)
  | putCargo (pk : String) (obj : CargoObjPutIn δ)
  | patchCargo (pk : String) (obj : CargoObjPatchIn δ)
  | revertCargo (pk : String) (history : Uuid) (version : String)
  | createResource (obj : ResourcePartial δ)
  | putResource (name : String) (payload : ResourceUpdate δ)
  | revertResource (name : String) (history : Uuid)

namespace HistoryOp

/-- the kind and the key of the object -/
def kind : HistoryOp δ → SpecKind
  | createCargo _ | putCargo .. | patchCargo .. | revertCargo .. => .cargo
  | createResource _ | putResource .. | revertResource .. => .resource

def key : HistoryOp δ → String
  | createCargo obj => obj.key
  | putCargo pk _ | patchCargo pk _ | revertCargo pk _ _ => pk
  | createResource obj => obj.name
  | putResource name _ | revertResource name _ => name

/-- the entry that a revert goes back to -/
def history : HistoryOp δ → Option Uuid
  | revertCargo _ history _ | revertResource _ history => some history
  | _ => none

def run : HistoryOp δ → Io δ Unit
  | createCargo obj => do
    let _ ← Objects.createCargo E obj
    return ()
  | putCargo pk obj => (PutRequest.putCargo pk obj).run E
  | patchCargo pk obj => (PutRequest.patchCargo pk obj).run E
  | revertCargo pk history version => (PutRequest.revertCargo pk history version).run E
  | createResource obj => do
    let _ ← createResourceObj E obj
    return ()
  | putResource name payload => do
    let _ ← Objects.putResource E name payload
    return ()
  | revertResource name history => do
    let _ ← Objects.revertResource E name history
    return ()

end HistoryOp

def historyStep (w : World δ) (op : HistoryOp δ) : World δ := (op.run E w).2

/-! ## What is promised -/

/-- the current spec of a cargo or a resource -/
def current (db : Tables δ) (kind : SpecKind) (key : String) : Option (SpecDb δ) :=
  match kind with
  | .cargo => (db.cargoes.find key).bind fun row => db.specs.find row.specKey
  | .resource => (db.resources.find key).bind fun row => db.specs.find row.specKey
  | _ => none

/-- exactly one spec is added to the history of the object, and none is changed -/
def Recorded (op : HistoryOp δ) (db db' : Tables δ) : Prop :=
  ∃ s, db'.specs.rows = db.specs.rows ++ [s] ∧ s.kindName = op.kind ∧ s.kindKey = op.key

/-- the entry belongs to the object -/
def Own (op : HistoryOp δ) (h : SpecDb δ) : Prop := h.kindName = op.kind ∧ h.kindKey = op.key

/-- **A faithful revert**: its entry belongs to the object, whose data and metadata are those of the entry now -/
structure RevertFaithful (op : HistoryOp δ) (history : Uuid) (db db' : Tables δ) : Prop where
  entry : ∃ h, db.specs.find history = some h ∧ Own op h
  content : ∃ h s, db.specs.find history = some h ∧ current db' op.kind op.key = some s ∧ s.data = h.data ∧
    s.metadata = h.metadata

/-- **The history is kept and reverts are faithful**, as one would have it -/
structure Claimed (w : World δ) (op : HistoryOp δ) : Prop where
  grows : ∃ l, (historyStep E w op).db.specs.rows = w.db.specs.rows ++ l
  recorded : (op.run E w).1 = .ok () → Recorded op w.db (historyStep E w op).db
  revert : (op.run E w).1 = .ok () → ∀ history, op.history = some history →
    RevertFaithful op history w.db (historyStep E w op).db

/-- the data that a revert to an entry hands on: those of the entry, for a resource through the hook -/
def HandedOn (w : World δ) (op : HistoryOp δ) (h : SpecDb δ) (data : δ) : Prop :=
  match op with
  | .revertResource name _ => ∃ resource item w', resourceOf w.db name = .ok resource ∧
      Hooked E (w.after 3 w.db) ⟨name, resource.kind, h.data, h.metadata⟩ item w' ∧ data = item.data
  | _ => data = h.data

/-- **The history is kept**, and a revert to an entry of the object itself hands that entry on -/
structure HistoryKept (w : World δ) (op : HistoryOp δ) : Prop where
  grows : ∃ l, (historyStep E w op).db.specs.rows = w.db.specs.rows ++ l
  recorded : (op.run E w).1 = .ok () → Recorded op w.db (historyStep E w op).db
  revert : (op.run E w).1 = .ok () → ∀ history h, op.history = some history → w.db.specs.find history = some h → Own op h →
    ∃ s, current (historyStep E w op).db op.kind op.key = some s ∧ HandedOn E w op h s.data ∧ s.metadata = h.metadata

/-- no cargo and no resource has been created -/
structure NothingStored (db : Tables δ) : Prop where
  resources : db.resources.rows = []
  specs : ∀ s ∈ db.specs.rows, s.kindName ≠ .cargo

/-! ## What an operation may do -/

/-- the spec of a cargo is one that a specification was written to -/
def Written (s : SpecDb δ) : Prop :=
  s.kindName = .cargo → ∃ item, s.data = E.cargoSpec.toValue item ∧ s.metadata = item.metadata

/-- the specs are those of before, or one more; a resource may be created with it or point to it -/
inductive Change (db db' : Tables δ) : Prop
  | none (hspecs : db'.specs = db.specs) (hres : db'.resources = db.resources)
  | spec (s : SpecDb δ) (hs : Written E s) (hins : db.specs.insert s = some db'.specs) (hres : db'.resources = db.resources)
  | create (s : SpecDb δ) (row : ResourceDb) (hins : db.specs.insert s = some db'.specs) (hkind : s.kindName = .resource)
      (hkey : s.kindKey = row.key) (hrow : row.specKey = s.key) (hres : db.resources.insert row = some db'.resources)
  | point (s : SpecDb δ) (name : String) (resource : Resource δ) (hins : db.specs.insert s = some db'.specs)
      (hkind : s.kindName = .resource) (hfound : resourceOf db name = .ok resource)
      (hkey : s.kindKey = resource.spec.resourceKey)
      (hres : db'.resources = db.resources.update name (fun r => { r with specKey := s.key }) fun _ => rfl)

/-- what the specs say about the objects -/
structure HistoryInv (db : Tables δ) : Prop where
  written : ∀ s ∈ db.specs.rows, Written E s
  current : ∀ row ∈ db.resources.rows, ∃ s, db.specs.find row.specKey = some s ∧ s.kindName = .resource ∧
    s.kindKey = row.key

variable {E}

theorem Change.grows {db db' : Tables δ} (h : Change E db db') : ∃ l, db'.specs.rows = db.specs.rows ++ l := by
  cases h with
  | none hspecs => exact ⟨[], by rw [hspecs, List.append_nil]⟩
  | spec s _ hins => exact ⟨[s], (Table.insert_eq_some.1 hins).2⟩
  | create s _ hins => exact ⟨[s], (Table.insert_eq_some.1 hins).2⟩
  | point s _ _ hins => exact ⟨[s], (Table.insert_eq_some.1 hins).2⟩

theorem HistoryInv.of_nothing {db : Tables δ} (h : NothingStored db) : HistoryInv E db := by
  refine ⟨fun s hs hkind => absurd hkind (h.specs s hs), fun row hrow => ?_⟩
  rw [h.resources] at hrow
  cases hrow

/-- the spec of a resource is its own -/
theorem HistoryInv.resourceKey {db : Tables δ} (h : HistoryInv E db) {name : String} {resource : Resource δ}
    (hfound : resourceOf db name = .ok resource) : resource.spec.resourceKey = name := by
  obtain ⟨row, spec, hrow, hspec, rfl⟩ := resourceOf_ok.1 hfound
  obtain ⟨s, hs, -, hkey⟩ := h.current row (Table.find_eq_some.1 hrow).1
  rw [hspec] at hs
  obtain rfl := Option.some.inj hs
  exact hkey.trans (Table.key_of_find hrow)

theorem written_of_resource {s : SpecDb δ} (hkind : s.kindName = .resource) : Written E s := by
  intro hcargo
  rw [hkind] at hcargo
  cases hcargo

theorem HistoryInv.change {db db' : Tables δ} (hinv : HistoryInv E db) (h : Change E db db') : HistoryInv E db' := by
  have hadd : ∀ s, Written E s → db.specs.insert s = some db'.specs → ∀ s' ∈ db'.specs.rows, Written E s' := by
    intro s hs hins s' hs'
    rcases (Table.mem_insert hins).1 hs' with hs' | rfl
    · exact hinv.written s' hs'
    · exact hs
  cases h with
  | none hspecs hres =>
    refine ⟨?_, ?_⟩
    · rw [hspecs]
      exact hinv.written
    · rw [hspecs, hres]
      exact hinv.current
  | spec s hs hins hres =>
    refine ⟨hadd s hs hins, fun row hrow => ?_⟩
    rw [hres] at hrow
    obtain ⟨s', hs', hown⟩ := hinv.current row hrow
    exact ⟨s', Table.find_insert_of_find hins hs', hown⟩
  | create s row hins hkind hkey hrow hres =>
    refine ⟨hadd s (written_of_resource hkind) hins, fun row' hrow' => ?_⟩
    rcases (Table.mem_insert hres).1 hrow' with hrow' | rfl
    · obtain ⟨s', hs', hown⟩ := hinv.current row' hrow'
      exact ⟨s', Table.find_insert_of_find hins hs', hown⟩
    · exact ⟨s, hrow ▸ Table.find_insert_self hins, hkind, hkey⟩
  | point s name resource hins hkind hfound hkey hres =>
    refine ⟨hadd s (written_of_resource hkind) hins, fun row hrow => ?_⟩
    rw [hres] at hrow
    obtain ⟨row', hrow', rfl⟩ := Table.mem_update.1 hrow
    by_cases hname : row'.key = name
    · rw [if_pos hname]
      exact ⟨s, Table.find_insert_self hins, hkind, (hkey.trans (hinv.resourceKey hfound)).trans hname.symm⟩
    · rw [if_neg hname]
      obtain ⟨s', hs', hown⟩ := hinv.current row' hrow'
      exact ⟨s', Table.find_insert_of_find hins hs', hown⟩

/-! ## Cargoes -/

/-- an operation that returns: the spec it has inserted, to which the object points -/
structure Stored (kind : SpecKind) (key : String) (db db' : Tables δ) (s : SpecDb δ) : Prop where
  inserted : db.specs.insert s = some db'.specs
  kindName : s.kindName = kind
  kindKey : s.kindKey = key
  current : current db' kind key = some s

theorem Stored.recorded {op : HistoryOp δ} {db db' : Tables δ} {s : SpecDb δ} (h : Stored op.kind op.key db db' s) :
    Recorded op db db' := ⟨s, (Table.insert_eq_some.1 h.inserted).2, h.kindName, h.kindKey⟩

theorem written_tryFrom (key version : String) (item : CargoSpecPartial δ) (uuid : Uuid) :
    Written E (tryFromCargoPartial E key version item uuid) := fun _ => ⟨item, rfl, rfl⟩

theorem createCargo_change {obj : CargoObjCreateIn δ} {w w' : World δ} {r : Except HttpError (Cargo δ)}
    (h : createCargo E obj w = (r, w')) :
    Change E w.db w'.db ∧ ∀ cargo, r = .ok cargo → ∃ s, Stored .cargo obj.key w.db w'.db s := by
  have hwritten := written_tryFrom (E := E) obj.key obj.version obj.spec (E.uuid w.calls)
  rcases createCargo_cases h with ⟨e, k, rfl, rfl, -⟩ | ⟨t, -, ht, ⟨e, k, rfl, -, rfl⟩ | ⟨e, k, st, rfl, -, -, rfl⟩ |
    ⟨cargo, st, ct, rfl, -, -, hct, rfl⟩⟩
  · exact ⟨.none rfl rfl, fun _ h => by cases h⟩
  · exact ⟨.spec _ hwritten ht rfl, fun _ h => by cases h⟩
  · exact ⟨.spec _ hwritten ht rfl, fun _ h => by cases h⟩
  · refine ⟨.spec _ hwritten ht rfl, fun _ _ => ⟨_, ht, rfl, rfl, ?_⟩⟩
    have hrow : ct.find obj.key = some (obj.row (E.uuid w.calls)) := Table.find_insert_self hct
    have hspec : t.find (E.uuid w.calls) = some (cargoSpecRow E obj (E.uuid w.calls)) := Table.find_insert_self ht
    exact (congrArg (fun r => r.bind fun row => t.find row.specKey) hrow).trans hspec

/-- an update of a cargo -/
theorem updateCargo_change {key version : String} {item : CargoSpecPartial δ} {w w' : World δ}
    {r : Except HttpError (Cargo δ)} (h : updateFromSpec E (cargoFormat E) key item version w = (r, w')) :
    Change E w.db w'.db ∧ ∀ cargo, r = .ok cargo →
      ∃ uuid, Stored .cargo key w.db w'.db (tryFromCargoPartial E key version item uuid) := by
  have hwritten := written_tryFrom (E := E) key version item (E.uuid (w.calls + 1))
  rcases updateFromSpec_cases h with ⟨e, rfl, rfl, -⟩ | ⟨e, old, rfl, rfl, -⟩ |
    ⟨old, t, -, hobj, ht, ⟨e, rfl, rfl, -⟩ | ⟨-, -, rfl⟩⟩
  · exact ⟨.none rfl rfl, fun _ h => by cases h⟩
  · exact ⟨.none rfl rfl, fun _ h => by cases h⟩
  · exact ⟨.spec _ hwritten ht rfl, fun _ h => by cases h⟩
  · refine ⟨.spec _ hwritten ht rfl, fun _ _ => ⟨E.uuid (w.calls + 1), ht, rfl, rfl, ?_⟩⟩
    obtain ⟨row, spec, status, hj, -, -⟩ := objectOf_ok hobj
    have hrow : w.db.cargoes.find key = some row := (joined_eq_some.1 hj).1
    have hspec : t.find (E.uuid (w.calls + 1)) = some (tryFromCargoPartial E key version item (E.uuid (w.calls + 1))) :=
      Table.find_insert_self ht
    have hpoint : (w.db.cargoes.update key (fun r => { r with name := item.name, specKey := E.uuid (w.calls + 1) })
        fun _ => rfl).find key = some { row with name := item.name, specKey := E.uuid (w.calls + 1) } := by
      rw [Table.find_update, hrow, Option.map_some, if_pos rfl]
    exact (congrArg (fun r => r.bind fun row => t.find row.specKey) hpoint).trans hspec

/-- a request that reads and then puts on a cargo -/
theorem reads_put_change {α : Type} {m : Io δ α} {n : ℕ} {f : Tables δ → Except HttpError α} (hm : Reads E m n f)
    (pk : String) (item : α → CargoSpecPartial δ) (version : α → String) (w : World δ) :
    let run := (do
      let a ← m
      let _ ← putFrom E (cargoFormat E) pk pk (item a) (version a)
      return () : Io δ Unit) w
    Change E w.db run.2.db ∧ (run.1 = .ok () → ∃ a uuid, f w.db = .ok a ∧
      Stored .cargo pk w.db run.2.db (tryFromCargoPartial E pk (version a) (item a) uuid)) := by
  intro run
  have hcases := reads_put_cases (F := cargoFormat E) hm pk (fun _ => pk) item version w
  rcases hcases with ⟨e, k, hrun⟩ | ⟨a, k, u, r, w', ha, hupd, hrun⟩
  · have hrun : run = (.error e, w.after k w.db) := hrun
    rw [hrun]
    exact ⟨.none rfl rfl, fun h => by cases h⟩
  · have hrun : run = (r.map fun _ => (), w') := hrun
    rw [hrun]
    obtain ⟨hchange, hstored⟩ := updateCargo_change hupd
    refine ⟨?_, fun hok => ?_⟩
    · cases hchange with
      | none hspecs hres => exact .none hspecs hres
      | spec s hs hins hres => exact .spec s hs hins hres
      | create s row hins hkind hkey hrow hres => exact .create s row hins hkind hkey hrow hres
      | point s name resource hins hkind hfound hkey hres => exact .point s name resource hins hkind hfound hkey hres
    · cases r with
      | error e => cases hok
      | ok cargo =>
        obtain ⟨uuid, h⟩ := hstored cargo rfl
        exact ⟨a, uuid, ha, h.inserted, h.kindName, h.kindKey, h.current⟩

/-! ## Resources -/

theorem createResourceObj_change {obj : ResourcePartial δ} {w w' : World δ} {r : Except HttpError (Resource δ)}
    (h : createResourceObj E obj w = (r, w')) :
    Change E w.db w'.db ∧ ∀ res, r = .ok res → ∃ s, Stored .resource obj.name w.db w'.db s := by
  have hread : (readResourceObj E obj.name w).2.db = w.db := by
    rw [readResourceObj_world]
    rfl
  rw [createResourceObj, Prog.bind_of_ok (Prog.run_attempt _ w)] at h
  set w₁ := (readResourceObj E obj.name w).2 with hw₁
  rw [← hread]
  cases hr : (readResourceObj E obj.name w).1 with
  | ok res =>
    rw [hr] at h
    obtain ⟨rfl, rfl⟩ := Prod.mk.inj h
    exact ⟨.none rfl rfl, fun _ h => by cases h⟩
  | error e =>
    simp only [hr] at h
    rcases hookCreate_cases (E := E) obj w₁ with ⟨-, e', k, hrun⟩ | ⟨item, w₂, hooked, hrun⟩
    · rw [Prog.bind_of_error hrun] at h
      obtain ⟨rfl, rfl⟩ := Prod.mk.inj h
      exact ⟨.none rfl rfl, fun _ h => by cases h⟩
    · rw [Prog.bind_of_ok hrun] at h
      have hname : item.name = obj.name := by rw [hooked.item]
      rw [← hooked.db, ← hname]
      rcases createResourceFromSpec_cases h with ⟨e', k, rfl, rfl, -⟩ | ⟨p, t, -, ht, ⟨e', rfl, -, rfl⟩ |
        ⟨res, rt, rfl, -, hrt, rfl⟩⟩
      · exact ⟨.none rfl rfl, fun _ h => by cases h⟩
      · exact ⟨.spec _ (written_of_resource rfl) ht rfl, fun _ h => by cases h⟩
      · refine ⟨.create _ _ ht rfl rfl rfl hrt, fun _ _ => ⟨_, ht, rfl, rfl, ?_⟩⟩
        have hrow : rt.find item.name = some _ := Table.find_insert_self hrt
        have hspec : t.find (E.uuid (w₂.calls + parseCalls item.kind)) = some _ := Table.find_insert_self ht
        exact (congrArg (fun r => r.bind fun row => t.find row.specKey) hrow).trans hspec

/-- a put of a resource, once it is read: the hook, and an update with what it hands back -/
theorem putResourceObj_change {pk : String} {obj : ResourcePartial δ} {w w' : World δ} {r : Except HttpError (Resource δ)}
    (h : putResourceObj E pk obj w = (r, w')) :
    Change E w.db w'.db ∧ ∀ res, r = .ok res → ∃ item w₂ resource version uuid, Hooked E (w.after 1 w.db) obj item w₂ ∧
      resourceOf w.db obj.name = .ok resource ∧
      w.db.specs.insert (resourceRow resource.spec.resourceKey version item.data obj.metadata uuid) = some w'.db.specs ∧
      current w'.db .resource obj.name = some (resourceRow resource.spec.resourceKey version item.data obj.metadata uuid) := by
  have hread : (readResource E pk w).2 = w.after 1 w.db := query_world _ w
  rcases hq : readResource E pk w with ⟨e | a, w₁⟩
  · rw [putResourceObj, Prog.bind_of_error hq] at h
    obtain ⟨rfl, rfl⟩ := Prod.mk.inj h
    rw [hq] at hread
    obtain rfl : w₁ = w.after 1 w.db := hread
    exact ⟨.none rfl rfl, fun _ h => by cases h⟩
  · rw [putResourceObj, Prog.bind_of_ok hq] at h
    rw [hq] at hread
    obtain rfl : w₁ = w.after 1 w.db := hread
    rcases hookCreate_cases (E := E) obj (w.after 1 w.db) with ⟨-, e, k, hrun⟩ | ⟨item, w₂, hooked, hrun⟩
    · rw [Prog.bind_of_error hrun] at h
      obtain ⟨rfl, rfl⟩ := Prod.mk.inj h
      exact ⟨.none rfl rfl, fun _ h => by cases h⟩
    · rw [Prog.bind_of_ok hrun] at h
      have hdb : w₂.db = w.db := hooked.db
      have hname : item.name = obj.name := by rw [hooked.item]
      have hmeta : item.metadata = obj.metadata := by rw [hooked.item]
      rw [← hdb, ← hname, ← hmeta]
      rcases updateResourceFromSpec_cases h with ⟨e, k, rfl, rfl, -⟩ | ⟨resource, p, t, hb, ht, ⟨e, rfl, -, rfl⟩ |
        ⟨res, rfl, -, rfl⟩⟩
      · exact ⟨.none rfl rfl, fun _ h => by cases h⟩
      · exact ⟨.spec _ (written_of_resource rfl) ht rfl, fun _ h => by cases h⟩
      · refine ⟨.point _ item.name resource ht rfl hb.resource rfl rfl, fun _ _ => ?_⟩
        refine ⟨item, w₂, resource, p.2, _, hdb ▸ hooked, hb.resource, ht, ?_⟩
        obtain ⟨row, spec, hrow, -, -⟩ := resourceOf_ok.1 hb.resource
        have hspec := Table.find_insert_self ht
        have hpoint : (w₂.db.resources.update item.name
            (fun r => { r with specKey := E.uuid (w₂.calls + (1 + parseCalls item.kind)) }) fun _ => rfl).find item.name =
            some { row with specKey := E.uuid (w₂.calls + (1 + parseCalls item.kind)) } := by
          rw [Table.find_update, hrow, Option.map_some, if_pos rfl]
        exact (congrArg (fun r => r.bind fun row => t.find row.specKey) hpoint).trans hspec

/-! ## Each operation -/

namespace HistoryOp

variable (E) in
/-- what a revert stores: the specification in its entry, for a resource what the hook hands back -/
def Content (w : World δ) (s : SpecDb δ) : HistoryOp δ → Prop
  | revertCargo pk history version => ∃ h spec uuid, w.db.specs.find history = some h ∧ tryToCargoSpec E h = .ok spec ∧
      s = tryFromCargoPartial E pk version spec.toCargoSpecPartial uuid
  | revertResource name history => ∃ h resource item w', w.db.specs.find history = some h ∧
      resourceOf w.db name = .ok resource ∧
      Hooked E (w.after 3 w.db) ⟨name, resource.kind, h.data, h.metadata⟩ item w' ∧ s.data = item.data ∧
      s.metadata = h.metadata
  | _ => True

variable (E) in
/-- an operation changes what it may, and if it returns it has stored a spec of its object -/
structure Outcome (op : HistoryOp δ) (w : World δ) : Prop where
  change : Change E w.db (op.run E w).2.db
  stored : HistoryInv E w.db → (op.run E w).1 = .ok () →
    ∃ s, Stored op.kind op.key w.db (op.run E w).2.db s ∧ op.Content E w s

theorem outcome_createCargo (obj : CargoObjCreateIn δ) (w : World δ) : (createCargo obj).Outcome E w := by
  rcases hrun : Objects.createCargo E obj w with ⟨r, w'⟩
  obtain ⟨hchange, hstored⟩ := createCargo_change hrun
  cases r with
  | error e =>
    have h : (createCargo obj).run E w = (.error e, w') := Prog.bind_of_error hrun
    refine ⟨by rw [h]; exact hchange, fun _ hok => ?_⟩
    rw [h] at hok
    cases hok
  | ok cargo =>
    have h : (createCargo obj).run E w = (.ok (), w') := Prog.bind_of_ok hrun
    obtain ⟨s, hs⟩ := hstored cargo rfl
    exact ⟨by rw [h]; exact hchange, fun _ _ => ⟨s, by rw [h]; exact hs, trivial⟩⟩

theorem outcome_putCargo (pk : String) (obj : CargoObjPutIn δ) (w : World δ) : (putCargo pk obj).Outcome E w := by
  obtain ⟨hchange, hstored⟩ := reads_put_change (reads_pure (E := E) ()) pk (fun _ => obj.spec) (fun _ => obj.version) w
  refine ⟨hchange, fun _ hok => ?_⟩
  obtain ⟨-, uuid, -, hs⟩ := hstored hok
  exact ⟨_, hs, trivial⟩

theorem outcome_patchCargo (pk : String) (obj : CargoObjPatchIn δ) (w : World δ) : (patchCargo pk obj).Outcome E w := by
  have hreads : Reads E (readObj E (cargoFormat E) pk) 1 fun db => objectOf (cargoFormat E) db pk := reads_readObj pk
  have h := reads_put_change hreads pk (fun cargo => patchCargoSpec cargo.spec obj.spec) (fun _ => obj.version) w
  rw [← PutRequest.run_patchCargo] at h
  obtain ⟨hchange, hstored⟩ := h
  refine ⟨hchange, fun _ hok => ?_⟩
  obtain ⟨cargo, uuid, -, hs⟩ := hstored hok
  exact ⟨_, hs, trivial⟩

theorem outcome_revertCargo (pk : String) (history : Uuid) (version : String) (w : World δ) :
    (revertCargo pk history version).Outcome E w := by
  have h := reads_put_change (PutRequest.reads_history E history) pk (fun spec => spec.toCargoSpecPartial)
    (fun _ => version) w
  rw [← PutRequest.run_revertCargo] at h
  obtain ⟨hchange, hstored⟩ := h
  refine ⟨hchange, fun _ hok => ?_⟩
  obtain ⟨spec, uuid, hspec, hs⟩ := hstored hok
  obtain ⟨row, hrow, hread⟩ := PutRequest.history_found.1 hspec
  exact ⟨_, hs, row, spec, uuid, hrow, hread, rfl⟩

theorem outcome_createResource (obj : ResourcePartial δ) (w : World δ) : (createResource obj).Outcome E w := by
  rcases hrun : createResourceObj E obj w with ⟨r, w'⟩
  obtain ⟨hchange, hstored⟩ := createResourceObj_change hrun
  cases r with
  | error e =>
    have h : (createResource obj).run E w = (.error e, w') := Prog.bind_of_error hrun
    refine ⟨by rw [h]; exact hchange, fun _ hok => ?_⟩
    rw [h] at hok
    cases hok
  | ok res =>
    have h : (createResource obj).run E w = (.ok (), w') := Prog.bind_of_ok hrun
    obtain ⟨s, hs⟩ := hstored res rfl
    exact ⟨by rw [h]; exact hchange, fun _ _ => ⟨s, by rw [h]; exact hs, trivial⟩⟩

/-- a put of a resource that was read stores a spec of that resource -/
theorem stored_of_put {w : World δ} {db' : Tables δ} {name : String} {resource : Resource δ} {s : SpecDb δ}
    (hinv : HistoryInv E w.db) (hfound : resourceOf w.db name = .ok resource) (hins : w.db.specs.insert s = some db'.specs)
    (hkind : s.kindName = .resource) (hkey : s.kindKey = resource.spec.resourceKey)
    (hcur : Objects.current db' .resource name = some s) : Stored .resource name w.db db' s :=
  ⟨hins, hkind, hkey.trans (hinv.resourceKey hfound), hcur⟩

theorem outcome_putResource (name : String) (payload : ResourceUpdate δ) (w : World δ) :
    (putResource name payload).Outcome E w := by
  rcases hread : readResourceObj E name w with ⟨e | resource, w₁⟩
  · have hworld := readResourceObj_world (E := E) name w
    rw [hread] at hworld
    obtain rfl : w₁ = w.tick := hworld
    have hput : Objects.putResource E name payload w = (.error e, w.tick) := Prog.bind_of_error hread
    have h : (putResource name payload).run E w = (.error e, w.tick) := Prog.bind_of_error hput
    refine ⟨by rw [h]; exact .none rfl rfl, fun _ hok => ?_⟩
    rw [h] at hok
    cases hok
  · have hworld := readResourceObj_world (E := E) name w
    rw [hread] at hworld
    obtain rfl : w₁ = w.tick := hworld
    rcases hrun : putResourceObj E name ⟨name, resource.kind, payload.data, payload.metadata⟩ w.tick with ⟨r, w'⟩
    obtain ⟨hchange, hstored⟩ := putResourceObj_change hrun
    have hput : Objects.putResource E name payload w = (r, w') := (Prog.bind_of_ok hread).trans hrun
    cases r with
    | error e =>
      have h : (putResource name payload).run E w = (.error e, w') := Prog.bind_of_error hput
      refine ⟨by rw [h]; exact hchange, fun _ hok => ?_⟩
      rw [h] at hok
      cases hok
    | ok res =>
      have h : (putResource name payload).run E w = (.ok (), w') := Prog.bind_of_ok hput
      refine ⟨by rw [h]; exact hchange, fun hinv _ => ?_⟩
      obtain ⟨item, w₂, resource', version, uuid, -, hfound, hins, hcur⟩ := hstored res rfl
      rw [h]
      exact ⟨_, stored_of_put hinv hfound hins rfl rfl hcur, trivial⟩

theorem outcome_revertResource (name : String) (history : Uuid) (w : World δ) :
    (revertResource name history).Outcome E w := by
  have hreads : Reads E (do
      let history ← readSpec E history
      let resource ← readResourceObj E name
      return (history, resource) : Io δ (SpecDb δ × Resource δ)) 2 fun db => do
        let history ← orNotFound "SpecDb" (db.specs.find history)
        let resource ← resourceOf db name
        return (history, resource) :=
    reads_bind (reads_query _) fun _ => reads_bind (reads_readResourceObj _) fun _ => reads_pure _
  have hrun : (revertResource name history).run E w = ((do
      let history ← readSpec E history
      let resource ← readResourceObj E name
      return (history, resource) : Io δ (SpecDb δ × Resource δ)) >>= fun a => do
        let _ ← putResourceObj E name ⟨a.2.spec.resourceKey, a.2.kind, a.1.data, a.1.metadata⟩
        return ()) w := by
    simp only [run, Objects.revertResource, bind_assoc, pure_bind]
  by_cases hfirst : E.Answers w 2 ∧ ∃ a, (do
      let history ← orNotFound "SpecDb" (w.db.specs.find history)
      let resource ← resourceOf w.db name
      return (history, resource)) = Except.ok a
  · obtain ⟨hans, ⟨h, resource⟩, ha⟩ := hfirst
    rw [Prog.bind_of_ok (hreads.ok w _ hans ha)] at hrun
    have hfound : w.db.specs.find history = some h ∧ resourceOf w.db name = .ok resource := by
      cases hspec : w.db.specs.find history with
      | none => simp [hspec, orNotFound, bind, Except.bind] at ha
      | some h' =>
        cases hres : resourceOf w.db name with
        | error e => simp [hspec, hres, orNotFound, bind, Except.bind] at ha
        | ok res =>
          simp only [hspec, hres, orNotFound, bind, Except.bind, pure, Except.pure, Except.ok.injEq, Prod.mk.injEq] at ha
          exact ⟨by rw [ha.1], by rw [ha.2]⟩
    rcases hput : putResourceObj E name ⟨resource.spec.resourceKey, resource.kind, h.data, h.metadata⟩ (w.after 2 w.db)
      with ⟨r, w'⟩
    obtain ⟨hchange, hstored⟩ := putResourceObj_change hput
    cases r with
    | error e =>
      have h : (revertResource name history).run E w = (.error e, w') := hrun.trans (Prog.bind_of_error hput)
      refine ⟨by rw [h]; exact hchange, fun _ hok => ?_⟩
      rw [h] at hok
      cases hok
    | ok res =>
      have hend : (revertResource name history).run E w = (.ok (), w') := hrun.trans (Prog.bind_of_ok hput)
      refine ⟨by rw [hend]; exact hchange, fun hinv _ => ?_⟩
      obtain ⟨item, w₂, resource', version, uuid, hooked, hfound', hins, hcur⟩ := hstored res rfl
      have hkey : resource.spec.resourceKey = name := hinv.resourceKey hfound.2
      simp only [hkey] at hooked hfound' hcur
      rw [World.after_after] at hooked
      rw [hend]
      exact ⟨_, stored_of_put hinv hfound' hins rfl rfl hcur, h, resource, item, w₂, hfound.1, hfound.2, hooked, rfl, rfl⟩
  · obtain ⟨e, k, hfail⟩ := hreads.error w hfirst
    rw [Prog.bind_of_error hfail] at hrun
    refine ⟨by rw [hrun]; exact .none rfl rfl, fun _ hok => ?_⟩
    rw [hrun] at hok
    cases hok

/-- **What an operation leaves**: a change that it may make, and if it returns, one more spec of its object, to which the
object points. -/
theorem outcome (op : HistoryOp δ) (w : World δ) : op.Outcome E w := by
  cases op with
  | createCargo obj => exact outcome_createCargo obj w
  | putCargo pk obj => exact outcome_putCargo pk obj w
  | patchCargo pk obj => exact outcome_patchCargo pk obj w
  | revertCargo pk history version => exact outcome_revertCargo pk history version w
  | createResource obj => exact outcome_createResource obj w
  | putResource name payload => exact outcome_putResource name payload w
  | revertResource name history => exact outcome_revertResource name history w

end HistoryOp

/-- the specification of a cargo that is read from a spec and written again is the same -/
theorem rewritten {h : SpecDb δ} {spec : CargoSpec δ} (hw : Written E h) (hkind : h.kindName = .cargo)
    (hread : tryToCargoSpec E h = .ok spec) (key version : String) (uuid : Uuid) :
    (tryFromCargoPartial E key version spec.toCargoSpecPartial uuid).data = h.data ∧
      (tryFromCargoPartial E key version spec.toCargoSpecPartial uuid).metadata = h.metadata := by
  obtain ⟨item, hdata, hmeta⟩ := hw hkind
  have hitem : spec.toCargoSpecPartial = item := by
    simp only [tryToCargoSpec, hdata, E.cargoSpec.fromValue_toValue, serde, Except.mapError, bind, Except.bind, pure,
      Except.pure, Except.ok.injEq] at hread
    rw [← hread, hmeta]
  rw [hitem]
  exact ⟨hdata.symm, hmeta.symm⟩

theorem historyKept_of_inv {w : World δ} (hinv : HistoryInv E w.db) (op : HistoryOp δ) : HistoryKept E w op := by
  have hout := op.outcome (E := E) w
  refine ⟨hout.change.grows, fun hok => ?_, fun hok history h hhist hfind hown => ?_⟩
  · obtain ⟨s, hs, -⟩ := hout.stored hinv hok
    exact hs.recorded
  · obtain ⟨s, hs, hcontent⟩ := hout.stored hinv hok
    refine ⟨s, hs.current, ?_⟩
    cases op with
    | createCargo obj => cases hhist
    | putCargo pk obj => cases hhist
    | patchCargo pk obj => cases hhist
    | createResource obj => cases hhist
    | putResource name payload => cases hhist
    | revertCargo pk history' version =>
      obtain rfl := Option.some.inj hhist
      obtain ⟨h', spec, uuid, hfind', hread, rfl⟩ := hcontent
      obtain rfl := Option.some.inj (hfind.symm.trans hfind')
      exact rewritten (hinv.written h (Table.find_eq_some.1 hfind).1) hown.1 hread pk version uuid
    | revertResource name history' =>
      obtain rfl := Option.some.inj hhist
      obtain ⟨h', resource, item, w', hfind', hres, hooked, hdata, hmeta⟩ := hcontent
      obtain rfl := Option.some.inj (hfind.symm.trans hfind')
      exact ⟨⟨resource, item, w', hres, hooked, hdata⟩, hmeta⟩

/-- **Every run keeps the history**: what is in it stays, an operation that returns adds one spec to that of its object,
and a revert to an entry of the object itself hands that entry on. -/
theorem history_kept (E : Env δ) (w : World δ) (hw : NothingStored w.db) (ops : List (HistoryOp δ)) :
    Along (historyStep E) (HistoryKept E) w ops :=
  along_of_inv (I := fun (w : World δ) => HistoryInv E w.db) (C := fun _ _ => True)
    (fun w op hinv _ => hinv.change (op.outcome w).change) (fun _ op hinv _ => historyKept_of_inv hinv op)
    (HistoryInv.of_nothing hw) (along_true (historyStep E) w ops)

theorem nothingStored_global : NothingStored globalWorld.db := ⟨rfl, fun _ hs => absurd hs List.not_mem_nil⟩

/-- `web.global` is created and goes back to its first spec -/
theorem history_kept_web : Along (historyStep Env.plain) (HistoryKept Env.plain) globalWorld
    [.createCargo ⟨"global", webSpec, "v0.16"⟩, .revertCargo "web.global" 0 "v0.16"] :=
  history_kept Env.plain globalWorld nothingStored_global _

/-! ## Reverts that are not faithful -/

/-- a controller that completes the data it is given -/
def completing : Env Value :=
  { Env.plain with applyRule := fun _ _ data => .ok (match data with | .text s => .text (s ++ "+") | v => v) }

def textOf : Value → String
  | .text s => s
  | _ => ""

/-- the kind of the rules of a proxy, with their controller -/
def ruleWorld (E : Env Value) : World Value :=
  (createResourceKind E ⟨"ncproxy.io/rule", "v0.8", none, ⟨none, some "unix:///run/nanocl/proxy.sock"⟩⟩ World.init).2

/-- `web.global` goes back to the spec of `api.global`; and a resource goes back to its only spec, which its controller
completes once more -/
theorem revert_unfaithful :
    ¬ Along (historyStep Env.plain) (Claimed Env.plain) globalWorld
        [.createCargo ⟨"global", webSpec, "v0.16"⟩, .createCargo ⟨"global", { webSpec with name := "api" }, "v0.16"⟩,
          .revertCargo "web.global" 3 "v0.16"] ∧
      ¬ Along (historyStep completing) (Claimed completing) (ruleWorld completing)
        [.createResource ⟨"web", "ncproxy.io/rule", .text "a", none⟩, .revertResource "web" 9] := by
  refine ⟨?_, ?_⟩
  · rintro ⟨-, -, h, -⟩
    obtain ⟨s, hfind, -, hkey⟩ := (h.revert (by decide) 3 rfl).entry
    have hforeign : ∀ s ∈ (historyStep Env.plain (historyStep Env.plain globalWorld
        (.createCargo ⟨"global", webSpec, "v0.16"⟩))
        (.createCargo ⟨"global", { webSpec with name := "api" }, "v0.16"⟩)).db.specs.find 3,
        s.kindKey ≠ "web.global" := by decide
    exact hforeign s hfind hkey
  · rintro ⟨-, h, -⟩
    obtain ⟨entry, s, hfind, hcur, hdata, -⟩ := (h.revert (by decide) 9 rfl).content
    have hentry : ∀ s ∈ (historyStep completing (ruleWorld completing)
        (.createResource ⟨"web", "ncproxy.io/rule", .text "a", none⟩)).db.specs.find 9, textOf s.data = "a+" := by decide
    have hnow : ∀ s ∈ current (historyStep completing (historyStep completing (ruleWorld completing)
        (.createResource ⟨"web", "ncproxy.io/rule", .text "a", none⟩)) (.revertResource "web" 9)).db .resource "web",
        textOf s.data = "a++" := by decide
    have hsame : "a++" = "a+" := (hnow s hcur).symm.trans ((congrArg textOf hdata).trans (hentry entry hfind))
    exact absurd hsame (by decide)

end Nanocl.Objects
