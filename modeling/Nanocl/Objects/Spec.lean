/-
Cargoes and VMs with their current specification (`repositories/spec.rs`, `cargo.rs`, `vm.rs`): what the two kinds share.
A `Format` is how one kind writes a specification into a row of `specs` and reads it back.

- `updateFromSpec_cases`: an update that returns has stored its spec and points the row to it; one that fails leaves the
  rows of the objects alone, and stored its spec or did not.
- `updateFromSpec_returns_iff`: when it returns.
-/
import Nanocl.Objects.Repository

namespace Nanocl.Objects

open Nanocl.Lib Nanocl.Status

variable {δ σ π : Type}

/-- a cargo or a VM with its current spec -/
structure Object (σ : Type) where
  namespaceName : String
  spec : σ
  status : ObjPsStatus

/-- how a kind of object writes a specification `π` into a row and reads a spec `σ` from it -/
structure Format (δ σ π : Type) where
  kind : ObjectKind
  specKind : SpecKind
  /-- the row of a specification, from the key of the object and the version -/
  write : String → String → π → Uuid → SpecDb δ
  read : SpecDb δ → Except HttpError σ
  name : π → String
  /-- the uuid, the key of the object and the name in a spec -/
  specKey : σ → Uuid
  ownerKey : σ → String
  specName : σ → String
  /-- the key under which `update_from_spec` stores a spec, from its argument and the current spec -/
  updateKey : String → σ → String
  key_write : ∀ key version item uuid, (write key version item uuid).key = uuid
  kindName_write : ∀ key version item uuid, (write key version item uuid).kindName = specKind
  kindKey_write : ∀ key version item uuid, (write key version item uuid).kindKey = key
  /-- what is read back of a specification -/
  readBack : String → String → π → Uuid → σ
  read_write : ∀ key version item uuid, read (write key version item uuid) = .ok (readBack key version item uuid)
  specKey_readBack : ∀ key version item uuid, specKey (readBack key version item uuid) = uuid
  specName_readBack : ∀ key version item uuid, specName (readBack key version item uuid) = name item
  specKey_read : ∀ s spec, read s = .ok spec → specKey spec = s.key
  ownerKey_read : ∀ s spec, read s = .ok spec → ownerKey spec = s.kindKey

variable (E : Env δ) (F : Format δ σ π)

/-- `transform` of `CargoDb` and of `VmDb` -/
def transform (r : ObjectDb × SpecDb δ × ObjPsStatusDb) : Except HttpError (Object σ) := do
  let spec ← F.read r.2.1
  return ⟨r.1.namespaceName, spec, r.2.2.status⟩

/-- `transform_read_by_pk` of `CargoDb` and of `VmDb` -/
def readObj (pk : String) : Io δ (Object σ) := do
  let r ← readObject E F.kind pk
  ofExcept (transform F r)

/-- `update_from_spec` of `CargoDb` and of `VmDb` -/
def updateFromSpec (key : String) (item : π) (version : String) : Io δ (Object σ) := do
  let obj ← readObj E F key
  let row ← createSpec E (F.write (F.updateKey key obj.spec) version item)
  let spec ← ofExcept (F.read row)
  updateObject E F.kind key (F.name item) (F.specKey spec)
  return { obj with spec := spec }

/-- what `transform_read_by_pk` answers, if the call does -/
def objectOf (db : Tables δ) (pk : String) : Except HttpError (Object σ) := do
  let r ← orNotFound F.kind.table (db.joined F.kind pk)
  transform F r

/-- the row points to another spec and takes the name in it -/
def repoint (db : Tables δ) (key name : String) (specKey : Uuid) : Tables δ :=
  db.setObjects F.kind ((db.objects F.kind).update key (fun r => { r with name := name, specKey := specKey })
    (ObjectDb.key_repointed name specKey))

/-- the columns that a put writes over a status: wanted start, actual updating -/
def putStatus (status : ObjPsStatus) : ObjPsStatusUpdate :=
  ⟨some .start, some status.wanted, some .updating, some status.actual⟩

/-- what `fn_put_obj_by_pk` of both kinds do: the status of `pk` first, then the spec of `key` -/
def putFrom (pk key : String) (item : π) (version : String) : Io δ (Object σ) := do
  let status ← readStatus E pk
  updateStatus E pk (putStatus status)
  updateFromSpec E F key item version

/-- the columns that a deletion writes over a status: wanted destroy, actual destroying -/
def destroyStatus (status : ObjPsStatus) : ObjPsStatusUpdate :=
  ⟨some .destroy, some status.wanted, some .destroying, some status.actual⟩

variable {E F}

theorem readObj_of_answer {w : World δ} {pk : String} (h : E.fault w.calls = none) :
    readObj E F pk w = (objectOf F w.db pk, w.tick) := by
  unfold readObj objectOf
  cases hj : orNotFound F.kind.table (w.db.joined F.kind pk) with
  | error e => exact Prog.bind_of_error (by rw [readObject, query_of_answer h, hj])
  | ok r => exact Prog.bind_of_ok (by rw [readObject, query_of_answer h, hj])

theorem readObj_of_fault {w : World δ} {pk : String} {e : HttpError} (h : E.fault w.calls = some e) :
    readObj E F pk w = (.error e, w.tick) :=
  Prog.bind_of_error (by rw [readObject, query, call_of_fault h])

theorem reads_readObj (pk : String) : Reads E (readObj E F pk) 1 fun db => objectOf F db pk :=
  reads_bind (reads_query _) fun _ => reads_ofExcept _

/-- what a read of an object finds -/
theorem objectOf_ok {db : Tables δ} {pk : String} {obj : Object σ} (h : objectOf F db pk = .ok obj) :
    ∃ row spec status, db.joined F.kind pk = some (row, spec, status) ∧ F.read spec = .ok obj.spec ∧
      obj.namespaceName = row.namespaceName := by
  unfold objectOf at h
  cases hj : db.joined F.kind pk with
  | none => simp [hj, orNotFound, bind, Except.bind] at h
  | some r =>
    cases hr : F.read r.2.1 with
    | error e => simp [hj, orNotFound, transform, hr, bind, Except.bind] at h
    | ok spec =>
      simp only [hj, orNotFound, transform, hr, bind, Except.bind, pure, Except.pure, Except.ok.injEq] at h
      exact ⟨r.1, r.2.1, r.2.2, rfl, by rw [hr, ← h], by rw [← h]⟩

theorem joined_eq_some {db : Tables δ} {kind : ObjectKind} {pk : String} {row : ObjectDb} {spec : SpecDb δ}
    {status : ObjPsStatusDb} :
    db.joined kind pk = some (row, spec, status) ↔
      (db.objects kind).find pk = some row ∧ db.specs.find row.specKey = some spec ∧
        db.statuses.find row.statusKey = some status := by
  simp only [Tables.joined, Option.bind_eq_bind, Option.bind_eq_some_iff, Option.pure_def, Option.some_inj, Prod.mk.injEq]
  constructor
  · rintro ⟨r, hr, s, hs, st, hst, rfl, rfl, rfl⟩
    exact ⟨hr, hs, hst⟩
  · rintro ⟨hr, hs, hst⟩
    exact ⟨row, hr, spec, hs, status, hst, rfl, rfl, rfl⟩

/-- the spec of an object that was read is the row its uuid finds -/
theorem find_specKey_of_objectOf {db : Tables δ} {pk : String} {obj : Object σ} (h : objectOf F db pk = .ok obj) :
    ∃ spec, db.specs.find (F.specKey obj.spec) = some spec ∧ F.read spec = .ok obj.spec := by
  obtain ⟨row, spec, status, hj, hread, -⟩ := objectOf_ok h
  have hspec := (joined_eq_some.1 hj).2.1
  refine ⟨spec, ?_, hread⟩
  rw [F.specKey_read _ _ hread, Table.key_of_find hspec, hspec]

/-- the insertion of a spec: refused where its uuid is taken -/
theorem createSpec_of_answer {w : World δ} {new : Uuid → SpecDb δ} (h : E.fault w.calls = none) :
    createSpec E new w = match w.db.specs.insert (new (E.uuid w.calls)) with
      | some t => (.ok (new (E.uuid w.calls)), w.after 1 { w.db with specs := t })
      | none => (.error (uniqueViolation E "SpecDb"), w.tick) := by
  rw [createSpec, Prog.get_bind]
  cases hi : w.db.specs.insert (new (E.uuid w.calls)) with
  | none => exact Prog.bind_of_error (exec_of_error h (by simp [insertSpec, hi]))
  | some t => exact Prog.bind_of_ok (exec_of_ok h (by simp [insertSpec, hi]))

theorem createSpec_of_fault {w : World δ} {new : Uuid → SpecDb δ} {e : HttpError} (h : E.fault w.calls = some e) :
    createSpec E new w = (.error e, w.tick) := by
  rw [createSpec, Prog.get_bind]
  exact Prog.bind_of_error (by rw [exec, call_of_fault h])

theorem createSpec_ok {w : World δ} (new : Uuid → SpecDb δ) (h : E.fault w.calls = none)
    (hfree : w.db.specs.find (new (E.uuid w.calls)).key = none) :
    ∃ t, w.db.specs.insert (new (E.uuid w.calls)) = some t ∧
      createSpec E new w = (.ok (new (E.uuid w.calls)), w.after 1 { w.db with specs := t }) := by
  obtain ⟨t, ht⟩ := Table.insert_of_find hfree
  exact ⟨t, ht, by rw [createSpec_of_answer h, ht]⟩

theorem createSpec_error {w : World δ} (new : Uuid → SpecDb δ)
    (h : ¬ (E.fault w.calls = none ∧ w.db.specs.find (new (E.uuid w.calls)).key = none)) :
    ∃ e, createSpec E new w = (.error e, w.tick) := by
  cases hf : E.fault w.calls with
  | some e => exact ⟨e, createSpec_of_fault hf⟩
  | none =>
    have hnone : w.db.specs.insert (new (E.uuid w.calls)) = none := Table.insert_eq_none.2 fun hfree => h ⟨hf, hfree⟩
    exact ⟨_, by rw [createSpec_of_answer hf, hnone]⟩

theorem createStatus_ok {w : World δ} (row : ObjPsStatusDb) (h : E.fault w.calls = none)
    (hfree : w.db.statuses.find row.key = none) :
    ∃ t, w.db.statuses.insert row = some t ∧
      createStatus E row w = (.ok row.status, w.after 1 { w.db with statuses := t }) := by
  obtain ⟨t, ht⟩ := Table.insert_of_find hfree
  exact ⟨t, ht, Prog.bind_of_ok (exec_of_ok h (by rw [insertStatus, ht]))⟩

theorem createStatus_error {w : World δ} (row : ObjPsStatusDb)
    (h : ¬ (E.fault w.calls = none ∧ w.db.statuses.find row.key = none)) :
    ∃ e, createStatus E row w = (.error e, w.tick) := by
  cases hf : E.fault w.calls with
  | some e => exact ⟨e, Prog.bind_of_error (by rw [exec, call_of_fault hf])⟩
  | none =>
    have hnone : w.db.statuses.insert row = none := Table.insert_eq_none.2 fun hfree => h ⟨hf, hfree⟩
    exact ⟨uniqueViolation E "ObjPsStatusDb", Prog.bind_of_error (exec_of_error hf (by rw [insertStatus, hnone]))⟩

/-- the rows that an object refers to are there -/
def Referred (db : Tables δ) (row : ObjectDb) : Prop :=
  (db.specs.find row.specKey).isSome ∧ (db.statuses.find row.statusKey).isSome ∧
    (db.namespaces.find row.namespaceName).isSome

theorem createObject_ok {w : World δ} (kind : ObjectKind) (row : ObjectDb) (h : E.fault w.calls = none)
    (hfree : (w.db.objects kind).find row.key = none) (href : Referred w.db row) :
    ∃ t, (w.db.objects kind).insert row = some t ∧
      createObject E kind row w = (.ok row, w.after 1 (w.db.setObjects kind t)) := by
  obtain ⟨t, ht⟩ := Table.insert_of_find hfree
  refine ⟨t, ht, Prog.bind_of_ok (exec_of_ok h ?_)⟩
  rw [insertObject, ht]
  exact if_pos href

theorem createObject_error {w : World δ} (kind : ObjectKind) (row : ObjectDb)
    (h : ¬ (E.fault w.calls = none ∧ (w.db.objects kind).find row.key = none ∧ Referred w.db row)) :
    ∃ e, createObject E kind row w = (.error e, w.tick) := by
  cases hf : E.fault w.calls with
  | some e => exact ⟨e, Prog.bind_of_error (by rw [exec, call_of_fault hf])⟩
  | none =>
    cases hins : (w.db.objects kind).insert row with
    | none => exact ⟨_, Prog.bind_of_error (exec_of_error hf (by rw [insertObject, hins]))⟩
    | some t =>
      refine ⟨invalidData E kind.table, Prog.bind_of_error (exec_of_error hf ?_)⟩
      rw [insertObject, hins]
      exact if_neg fun href => h ⟨hf, (Table.insert_eq_some.1 hins).1, href⟩

theorem updateObject_of_fault {w : World δ} {kind : ObjectKind} {pk name : String} {specKey : Uuid} {e : HttpError}
    (h : E.fault w.calls = some e) : updateObject E kind pk name specKey w = (.error e, w.tick) := by
  rw [updateObject, exec, call_of_fault h]

theorem updateObject_of_answer {w : World δ} {kind : ObjectKind} {pk name : String} {specKey : Uuid} {row : ObjectDb}
    (h : E.fault w.calls = none) (hrow : (w.db.objects kind).find pk = some row)
    (hspec : (w.db.specs.find specKey).isSome) :
    updateObject E kind pk name specKey w = (.ok (), w.after 1 (w.db.setObjects kind
      ((w.db.objects kind).update pk (fun r => { r with name := name, specKey := specKey }) fun _ => rfl))) :=
  exec_of_ok h (by simp [setObject, hrow, hspec])

/-- **What an update does**, by the call it gets stuck at: the read of the object, the insertion of the spec, the update
of the row, or none. -/
theorem updateFromSpec_cases {w w' : World δ} {key : String} {item : π} {version : String}
    {r : Except HttpError (Object σ)} (h : updateFromSpec E F key item version w = (r, w')) :
    (∃ e, r = .error e ∧ w' = w.after 1 w.db ∧ (E.fault w.calls = none → ∃ e', objectOf F w.db key = .error e')) ∨
    (∃ e old, r = .error e ∧ w' = w.after 2 w.db ∧ E.fault w.calls = none ∧ objectOf F w.db key = .ok old ∧
      (E.fault (w.calls + 1) = none → w.db.specs.find (E.uuid (w.calls + 1)) ≠ none)) ∨
    ∃ old t, E.Answers w 2 ∧ objectOf F w.db key = .ok old ∧
      w.db.specs.insert (F.write (F.updateKey key old.spec) version item (E.uuid (w.calls + 1))) = some t ∧
      ((∃ e, r = .error e ∧ w' = w.after 3 { w.db with specs := t } ∧ E.fault (w.calls + 2) ≠ none) ∨
        (r = .ok { old with spec := F.readBack (F.updateKey key old.spec) version item (E.uuid (w.calls + 1)) } ∧
          E.fault (w.calls + 2) = none ∧
          w' = w.after 3 (repoint F { w.db with specs := t } key (F.name item) (E.uuid (w.calls + 1))))) := by
  rw [updateFromSpec] at h
  cases hf0 : E.fault w.calls with
  | some e =>
    rw [Prog.bind_of_error (readObj_of_fault hf0), Prod.mk.injEq] at h
    exact .inl ⟨e, h.1.symm, h.2.symm, nofun⟩
  | none =>
    cases hobj : objectOf F w.db key with
    | error e =>
      rw [Prog.bind_of_error (by rw [readObj_of_answer hf0, hobj]), Prod.mk.injEq] at h
      exact .inl ⟨e, h.1.symm, h.2.symm, fun _ => ⟨e, rfl⟩⟩
    | ok old =>
      rw [Prog.bind_of_ok (by rw [readObj_of_answer hf0, hobj])] at h
      refine .inr ?_
      cases hf1 : E.fault (w.calls + 1) with
      | some e =>
        rw [Prog.bind_of_error (createSpec_of_fault (w := w.tick) hf1), Prod.mk.injEq] at h
        exact .inl ⟨e, old, h.1.symm, by rw [← h.2]; simp [World.tick], rfl, rfl, nofun⟩
      | none =>
        have hspec : createSpec E (F.write (F.updateKey key old.spec) version item) w.tick = _ := createSpec_of_answer hf1
        cases hins : w.db.specs.insert (F.write (F.updateKey key old.spec) version item (E.uuid (w.calls + 1))) with
        | none =>
          simp only [World.tick_db, World.tick_calls, hins] at hspec
          rw [Prog.bind_of_error hspec, Prod.mk.injEq] at h
          refine .inl ⟨_, old, h.1.symm, by rw [← h.2]; simp [World.tick], rfl, rfl, fun _ => ?_⟩
          simpa [F.key_write] using Table.insert_eq_none.1 hins
        | some t =>
          simp only [World.tick_db, World.tick_calls, hins] at hspec
          rw [Prog.bind_of_ok hspec, Prog.bind_of_ok (by rw [run_ofExcept, F.read_write])] at h
          refine .inr ⟨old, t, Env.answers_two.2 ⟨hf0, hf1⟩, rfl, hins, ?_⟩
          cases hf2 : E.fault (w.calls + 2) with
          | some e =>
            rw [Prog.bind_of_error (updateObject_of_fault (by simpa using hf2)), Prod.mk.injEq] at h
            exact .inl ⟨e, h.1.symm, by rw [← h.2]; simp [World.tick], nofun⟩
          | none =>
            obtain ⟨row, spec, status, hj, -, -⟩ := objectOf_ok hobj
            have hrow : ((World.after w.tick 1 { w.db with specs := t }).db.objects F.kind).find key = some row := by
              have := (joined_eq_some.1 hj).1
              cases hk : F.kind <;> simpa [Tables.objects, hk] using this
            have hnew : ((World.after w.tick 1 { w.db with specs := t }).db.specs.find (E.uuid (w.calls + 1))).isSome := by
              simp [Table.find_insert hins, F.key_write]
            rw [F.specKey_readBack, Prog.bind_of_ok (updateObject_of_answer (by simpa using hf2) hrow hnew),
              Prog.run_pure, Prod.mk.injEq] at h
            exact .inr ⟨h.1.symm, rfl, by rw [← h.2]; simp [World.tick, repoint]⟩

/-- when an update returns: its three calls answer, the object can be read and the uuid is new -/
theorem updateFromSpec_returns_iff {w : World δ} {key : String} {item : π} {version : String} :
    (∃ obj, (updateFromSpec E F key item version w).1 = .ok obj) ↔
      E.Answers w 3 ∧ (∃ old, objectOf F w.db key = .ok old) ∧ w.db.specs.find (E.uuid (w.calls + 1)) = none := by
  rcases hrun : updateFromSpec E F key item version w with ⟨r, w'⟩
  rcases updateFromSpec_cases hrun with ⟨e, rfl, -, hobj⟩ | ⟨e, old, rfl, -, h0, -, hspec⟩ |
    ⟨old, t, h2, hobj, hins, ⟨e, rfl, -, h3⟩ | ⟨rfl, h3, -⟩⟩
  · refine iff_of_false (by rintro ⟨obj, h⟩; cases h) ?_
    rintro ⟨h3, ⟨old, hold⟩, -⟩
    obtain ⟨e', he'⟩ := hobj (Env.answers_three.1 h3).1
    rw [he'] at hold
    cases hold
  · refine iff_of_false (by rintro ⟨obj, h⟩; cases h) ?_
    rintro ⟨h3, -, hnew⟩
    exact hspec (Env.answers_three.1 h3).2.1 hnew
  · refine iff_of_false (by rintro ⟨obj, h⟩; cases h) ?_
    rintro ⟨ha, -⟩
    exact h3 (Env.answers_three.1 ha).2.2
  · refine iff_of_true ⟨_, rfl⟩ ⟨Env.answers_succ.2 ⟨h2, h3⟩, ⟨old, hobj⟩, ?_⟩
    simpa [F.key_write] using (Table.insert_eq_some.1 hins).1

/-! ## The status of a put -/

/-- the status row of a key with other columns -/
def withStatus (db : Tables δ) (pk : String) (u : ObjPsStatusUpdate) : Tables δ :=
  { db with statuses := db.statuses.update pk (fun r => { r with status := u.set r.status }) (key_withStatus u) }

theorem withStatus_find (db : Tables δ) (pk pk' : String) (u : ObjPsStatusUpdate) :
    (withStatus db pk u).statuses.find pk' =
      (db.statuses.find pk').map fun r => if pk' = pk then { r with status := u.set r.status } else r :=
  Table.find_update db.statuses pk pk' (fun r => { r with status := u.set r.status }) fun _ => rfl

/-- a put finds and writes the status, or has changed nothing -/
theorem putFrom_cases (w : World δ) (pk key : String) (item : π) (version : String) :
    (¬ (E.Answers w 2 ∧ (w.db.statuses.find pk).isSome) ∧
      ∃ e n, putFrom E F pk key item version w = (.error e, w.after n w.db)) ∨
    ∃ row, E.Answers w 2 ∧ w.db.statuses.find pk = some row ∧
      putFrom E F pk key item version w =
        updateFromSpec E F key item version (w.after 2 (withStatus w.db pk (putStatus row.status))) := by
  rw [putFrom]
  cases hf0 : E.fault w.calls with
  | some e =>
    refine .inl ⟨fun h => absurd (Env.answers_two.1 h.1).1 (by simp [hf0]), e, 1, ?_⟩
    exact Prog.bind_of_error (by rw [readStatus, query, call_of_fault hf0]; rfl)
  | none =>
    cases hst : w.db.statuses.find pk with
    | none =>
      refine .inl ⟨by simp, notFound "ObjPsStatusDb", 1, ?_⟩
      exact Prog.bind_of_error (by rw [readStatus, query_of_answer hf0, hst]; rfl)
    | some row =>
      rw [Prog.bind_of_ok (by rw [readStatus, query_of_answer hf0, hst]; rfl)]
      cases hf1 : E.fault (w.calls + 1) with
      | some e =>
        refine .inl ⟨fun h => absurd (Env.answers_two.1 h.1).2 (by simp [hf1]), e, 2, ?_⟩
        exact Prog.bind_of_error (by rw [updateStatus, exec, call_of_fault (w := w.tick) hf1]; simp [World.tick])
      | none =>
        refine .inr ⟨row, Env.answers_two.2 ⟨hf0, hf1⟩, rfl, ?_⟩
        have hset : setStatus pk (putStatus row.status) w.tick.db = .ok (withStatus w.db pk (putStatus row.status)) := by
          simp [setStatus, hst, withStatus]
        exact Prog.bind_of_ok (a := ()) (by
          rw [updateStatus, exec_of_ok hf1 hset]
          simp [World.tick])

end Nanocl.Objects
