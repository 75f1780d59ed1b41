/-
The keys of cargoes and VMs. A key is `name.namespace`, made at the creation (`gen_key`), and every request finds its
object by the key it makes of the name and the namespace in its path. The name is a column too; `update_from_spec` writes
into it what the new specification says, and leaves the key.

- `KeyInvariant`: the key of every row is made of its name and its namespace, and the name is one that a creation accepts.
- `Sound`: what carries it through a run. The current spec of a row bears its key and its name.
- `put_step`, `createCargo_sound`, `createVm_sound`, `syncKeeps_sound`: a put that renames nothing keeps it, a creation
  and the pass at the start always do.
- `key_invariant_iff`: along a run it holds after every operation exactly if no put, revert or patch of a VM that goes
  through renames its object.
- `put_renames`: a put on `web.global` with the name `api` leaves a row whose key and name disagree.
-/
import Nanocl.Objects.PutFailure
import Nanocl.Objects.Restart
import Nanocl.Lib.Transition

namespace Nanocl.Objects

open Nanocl.Lib Nanocl.Status

variable {δ : Type} (E : Env δ)

/-- **The keys of the objects**: what a creation makes sure of, and what follows from it -/
structure KeyInvariant (db : Tables δ) : Prop where
  key : ∀ kind, ∀ r ∈ (db.objects kind).rows, r.key = genKey r.namespaceName r.name
  dotless : ∀ kind, ∀ r ∈ (db.objects kind).rows, '.' ∉ r.name.toList
  valid : ∀ r ∈ db.cargoes.rows, validName E r.name
  unique : ∀ kind, ∀ r ∈ (db.objects kind).rows, ∀ r' ∈ (db.objects kind).rows,
    r.name = r'.name → r.namespaceName = r'.namespaceName → r = r'
  addressed : ∀ kind, ∀ r ∈ (db.objects kind).rows, (db.objects kind).find (genKey r.namespaceName r.name) = some r

/-! ## Operations -/

inductive KeyOp (δ : Type) where
  | createCargo (obj : CargoObjCreateIn δ)
  | createVm (obj : VmObjCreateIn δ)
  | put (req : PutRequest δ)
  /-- the daemon starts and finds these containers -/
  | sync (containers : List (Sync.ContainerSummary × Inspected))

def KeyOp.run : KeyOp δ → Io δ Unit
  | createCargo obj => do
    let _ ← Objects.createCargo E obj
    return ()
  | createVm obj => do
    let _ ← Objects.createVm E obj
    return ()
  | put req => req.run E
  | sync containers => syncProcesses E containers

def keyStep (w : World δ) (op : KeyOp δ) : World δ := (op.run E w).2

/-- the name in the specification that a request puts; a patch of a cargo keeps that of the current one -/
def PutRequest.newName (db : Tables δ) : PutRequest δ → Option String
  | putCargo _ obj => some obj.spec.name
  | patchCargo pk _ =>
    match objectOf (cargoFormat E) db pk with
    | .ok cargo => some cargo.spec.name
    | .error _ => none
  | revertCargo _ history _ => do
    let row ← db.specs.find history
    match tryToCargoSpec E row with
    | .ok spec => some spec.name
    | .error _ => none
  | putVm _ obj => some obj.spec.name
  | patchVm pk obj =>
    match objectOf (vmFormat E) db pk with
    | .ok vm => some (obj.spec.name.getD vm.spec.name)
    | .error _ => none

/-- the request goes through on an object of another name -/
def PutRequest.Renames (w : World δ) (req : PutRequest δ) : Prop :=
  req.StatusWritten E w ∧ req.Completes E w ∧
    ∃ row name, (w.db.objects req.kind).find (req.updateKey E w.db) = some row ∧ req.newName E w.db = some name ∧
      name ≠ row.name

/-- the operation renames no object -/
def KeyOp.KeepsNames (w : World δ) : KeyOp δ → Prop
  | put req => ¬ req.Renames E w
  | _ => True

variable {E}

/-! ## Keys -/

/-- a key splits at the first dot, so a name without one is what stands before it -/
theorem name_of_splitKey {nsp name a b : String} (hname : '.' ∉ name.toList)
    (h : Sync.splitKey (genKey nsp name) = some (a, b)) : a = name := by
  have hkey : (genKey nsp name).toList = name.toList ++ '.' :: nsp.toList := by
    simp [genKey, String.toList_append]
  unfold Sync.splitKey at h
  rw [hkey, List.splitOn_append_cons_self_of_not_mem hname] at h
  split at h
  · next x y hsplit =>
    obtain ⟨rfl, -⟩ := List.cons.inj hsplit
    rw [← (Prod.mk.inj (Option.some.inj h)).1, String.ofList_toList]
  · cases h

/-- a name of alphanumeric characters, `_` and `-` has no dot -/
theorem dotless_of_validName {name : String} (h : validName E name) : '.' ∉ name.toList := by
  intro hdot
  have := List.all_eq_true.1 h '.' hdot
  simp [E.alphanumeric.is_dot] at this

/-! ## What the operations keep -/

section Sound

variable {σ π : Type} {F : Format δ σ π} {valid : String → Prop}

/-- the keys of one kind, and what its updates need: the current spec of a row bears its key and its name -/
structure SoundOf (F : Format δ σ π) (valid : String → Prop) (db : Tables δ) : Prop where
  key : ∀ r ∈ (db.objects F.kind).rows, r.key = genKey r.namespaceName r.name
  dotless : ∀ r ∈ (db.objects F.kind).rows, '.' ∉ r.name.toList
  valid : ∀ r ∈ (db.objects F.kind).rows, valid r.name
  spec : ∀ r ∈ (db.objects F.kind).rows, ∃ s, db.specs.find r.specKey = some s ∧ s.kindKey = r.key ∧
    ∀ spec, F.read s = .ok spec → F.specName spec = r.name

/-- the objects of a kind are the same, and the specs are there still -/
structure Grows (kind : ObjectKind) (db db' : Tables δ) : Prop where
  objects : db'.objects kind = db.objects kind
  specs : ∀ k s, db.specs.find k = some s → db'.specs.find k = some s

theorem Grows.refl (kind : ObjectKind) (db : Tables δ) : Grows kind db db := ⟨rfl, fun _ _ h => h⟩

theorem SoundOf.grow {db db' : Tables δ} (hs : SoundOf F valid db) (h : Grows F.kind db db') : SoundOf F valid db' where
  key r hr := hs.key r (h.objects ▸ hr)
  dotless r hr := hs.dotless r (h.objects ▸ hr)
  valid r hr := hs.valid r (h.objects ▸ hr)
  spec r hr := by
    obtain ⟨s, hfind, hs⟩ := hs.spec r (h.objects ▸ hr)
    exact ⟨s, h.specs _ s hfind, hs⟩

/-- a new row whose key is made of its name and whose spec bears both -/
theorem SoundOf.insert {db db' : Tables δ} (hs : SoundOf F valid db) {row : ObjectDb} {s : SpecDb δ}
    {t : Table ObjectDb.key} (ht : (db.objects F.kind).insert row = some t) (hdb : db'.objects F.kind = t)
    (hspecs : ∀ k s, db.specs.find k = some s → db'.specs.find k = some s)
    (hkey : row.key = genKey row.namespaceName row.name) (hdot : '.' ∉ row.name.toList) (hvalid : valid row.name)
    (hfind : db'.specs.find row.specKey = some s) (hkind : s.kindKey = row.key)
    (hname : ∀ spec, F.read s = .ok spec → F.specName spec = row.name) : SoundOf F valid db' := by
  have hmem : ∀ r ∈ (db'.objects F.kind).rows, r ∈ (db.objects F.kind).rows ∨ r = row := fun r hr =>
    (Table.mem_insert ht).1 (hdb ▸ hr)
  refine ⟨fun r hr => ?_, fun r hr => ?_, fun r hr => ?_, fun r hr => ?_⟩
  · rcases hmem r hr with hr | rfl
    · exact hs.key r hr
    · exact hkey
  · rcases hmem r hr with hr | rfl
    · exact hs.dotless r hr
    · exact hdot
  · rcases hmem r hr with hr | rfl
    · exact hs.valid r hr
    · exact hvalid
  · rcases hmem r hr with hr | rfl
    · obtain ⟨s, hfind, hs⟩ := hs.spec r hr
      exact ⟨s, hspecs _ s hfind, hs⟩
    · exact ⟨s, hfind, hkind, hname⟩

/-- a row that points to another spec of its key and its name -/
theorem SoundOf.point {db : Tables δ} (hs : SoundOf F valid db) (key name : String) {s : SpecDb δ}
    (hrow : ∀ row, (db.objects F.kind).find key = some row → row.name = name) (hfind : db.specs.find s.key = some s)
    (hkind : s.kindKey = key) (hname : ∀ spec, F.read s = .ok spec → F.specName spec = name) :
    SoundOf F valid (repoint F db key name s.key) := by
  have hmem : ∀ r ∈ ((repoint F db key name s.key).objects F.kind).rows,
      r ∈ (db.objects F.kind).rows ∨ ∃ row, (db.objects F.kind).find key = some row ∧
        r = { row with name := name, specKey := s.key } := by
    intro r hr
    rw [repoint, Tables.objects_setObjects, if_pos rfl] at hr
    obtain ⟨row, hrow', rfl⟩ := Table.mem_update.1 hr
    by_cases hkey : row.key = key
    · rw [if_pos hkey]
      exact .inr ⟨row, Table.find_eq_some.2 ⟨hrow', hkey⟩, rfl⟩
    · rw [if_neg hkey]
      exact .inl hrow'
  have hspecs : (repoint F db key name s.key).specs = db.specs := by
    unfold repoint
    cases F.kind <;> rfl
  refine ⟨fun r hr => ?_, fun r hr => ?_, fun r hr => ?_, fun r hr => ?_⟩
  · rcases hmem r hr with hr | ⟨row, hfound, rfl⟩
    · exact hs.key r hr
    · rw [← hrow row hfound]
      exact hs.key row (Table.find_eq_some.1 hfound).1
  · rcases hmem r hr with hr | ⟨row, hfound, rfl⟩
    · exact hs.dotless r hr
    · rw [← hrow row hfound]
      exact hs.dotless row (Table.find_eq_some.1 hfound).1
  · rcases hmem r hr with hr | ⟨row, hfound, rfl⟩
    · exact hs.valid r hr
    · rw [← hrow row hfound]
      exact hs.valid row (Table.find_eq_some.1 hfound).1
  · rw [hspecs]
    rcases hmem r hr with hr | ⟨row, hfound, rfl⟩
    · exact hs.spec r hr
    · exact ⟨s, hfind, hkind.trans (Table.key_of_find hfound).symm, hname⟩

theorem find_insert_mono {db : Tables δ} {s : SpecDb δ} {t : Table (SpecDb.key (δ := δ))} (ht : db.specs.insert s = some t)
    (k : Uuid) (s' : SpecDb δ) (h : db.specs.find k = some s') : t.find k = some s' := Table.find_insert_of_find ht h

/-- `update_from_spec` takes the key of its argument or that of the current spec -/
def UpdatesOwn (F : Format δ σ π) : Prop := ∀ key spec, F.updateKey key spec = key ∨ F.updateKey key spec = F.ownerKey spec

/-- an update keeps the keys of its kind if it renames nothing -/
theorem SoundOf.updateFromSpec (hF : UpdatesOwn F) {key : String} {item : π} {version : String} {w w' : World δ}
    {r : Except HttpError (Object σ)} (hs : SoundOf F valid w.db) (h : updateFromSpec E F key item version w = (r, w'))
    (hname : ∀ obj row, r = .ok obj → (w.db.objects F.kind).find key = some row → row.name = F.name item) :
    SoundOf F valid w'.db := by
  rcases updateFromSpec_cases h with ⟨e, -, rfl, -⟩ | ⟨e, old, -, rfl, -⟩ |
    ⟨old, t, -, hobj, ht, ⟨e, -, rfl, -⟩ | ⟨hr, -, rfl⟩⟩
  · exact hs
  · exact hs
  · refine hs.grow ⟨?_, find_insert_mono ht⟩
    cases F.kind <;> rfl
  · set s := F.write (F.updateKey key old.spec) version item (E.uuid (w.calls + 1)) with hsdef
    have hgrow : Grows F.kind w.db { w.db with specs := t } := ⟨by cases F.kind <;> rfl, find_insert_mono ht⟩
    have hskey : s.key = E.uuid (w.calls + 1) := F.key_write ..
    have howner : F.updateKey key old.spec = key := by
      obtain ⟨row, spec, status, hj, hread, -⟩ := objectOf_ok hobj
      obtain ⟨hfound, hspec, -⟩ := joined_eq_some.1 hj
      rcases hF key old.spec with hk | hk
      · exact hk
      · obtain ⟨s', hs', hkind, -⟩ := hs.spec row (Table.find_eq_some.1 hfound).1
        rw [hspec] at hs'
        obtain rfl := Option.some.inj hs'
        rw [hk, F.ownerKey_read _ _ hread, hkind, Table.key_of_find hfound]
    have hpoint := (hs.grow hgrow).point key (F.name item) (s := s)
      (fun row hrow => hname _ row hr (hgrow.objects ▸ hrow)) (Table.find_insert_self ht)
      ((F.kindKey_write ..).trans howner) fun spec hread => by
        rw [hsdef, F.read_write] at hread
        rw [← Except.ok.inj hread, F.specName_readBack]
    rw [hskey] at hpoint
    exact hpoint

/-- an update leaves the other kind alone -/
theorem grows_updateFromSpec {key : String} {item : π} {version : String} {w w' : World δ}
    {r : Except HttpError (Object σ)} (h : updateFromSpec E F key item version w = (r, w')) {kind : ObjectKind}
    (hkind : kind ≠ F.kind) : Grows kind w.db w'.db := by
  rcases updateFromSpec_cases h with ⟨e, -, rfl, -⟩ | ⟨e, old, -, rfl, -⟩ |
    ⟨old, t, -, hobj, ht, ⟨e, -, rfl, -⟩ | ⟨hr, -, rfl⟩⟩
  · exact .refl kind w.db
  · exact .refl kind w.db
  · exact ⟨by cases kind <;> rfl, find_insert_mono ht⟩
  · refine ⟨?_, ?_⟩
    · rw [World.after_db, repoint, Tables.objects_setObjects, if_neg hkind]
      cases kind <;> rfl
    · have hspecs : (repoint F { w.db with specs := t } key (F.name item) (E.uuid (w.calls + 1))).specs = t := by
        unfold repoint
        cases F.kind <;> rfl
      intro k s hfind
      rw [World.after_db, hspecs]
      exact find_insert_mono ht k s hfind

/-- an update that returns has written its name into the row -/
theorem mem_of_updateFromSpec {key : String} {item : π} {version : String} {w w' : World δ} {obj : Object σ}
    (h : updateFromSpec E F key item version w = (.ok obj, w')) (row : ObjectDb)
    (hrow : (w.db.objects F.kind).find key = some row) :
    ∃ specKey, { row with name := F.name item, specKey := specKey } ∈ (w'.db.objects F.kind).rows := by
  rcases updateFromSpec_cases h with ⟨e, hr, -⟩ | ⟨e, old, hr, -⟩ | ⟨old, t, -, -, -, ⟨e, hr, -⟩ | ⟨-, -, rfl⟩⟩
  · cases hr
  · cases hr
  · cases hr
  · refine ⟨E.uuid (w.calls + 1), ?_⟩
    rw [World.after_db, repoint, Tables.objects_setObjects, if_pos rfl]
    have hobjects : Tables.objects { w.db with specs := t } F.kind = w.db.objects F.kind := by cases F.kind <;> rfl
    rw [hobjects]
    refine Table.mem_update.2 ⟨row, (Table.find_eq_some.1 hrow).1, ?_⟩
    rw [if_pos (Table.key_of_find hrow)]

/-! ### A put after some reads -/

/-- a request that reads and then puts has changed nothing, or wrote the status and ran the update -/
theorem reads_put_cases {α : Type} {m : Io δ α} {n : ℕ} {f : Tables δ → Except HttpError α} (hm : Reads E m n f)
    (pk : String) (key : α → String) (item : α → π) (version : α → String) (w : World δ) :
    (∃ e k, (do
        let a ← m
        let _ ← putFrom E F pk (key a) (item a) (version a)
        return () : Io δ Unit) w = (.error e, w.after k w.db)) ∨
    ∃ a k u r w', f w.db = .ok a ∧
      updateFromSpec E F (key a) (item a) (version a) (w.after k (withStatus w.db pk u)) = (r, w') ∧
      (do
        let a ← m
        let _ ← putFrom E F pk (key a) (item a) (version a)
        return () : Io δ Unit) w = (r.map fun _ => (), w') := by
  by_cases hfirst : E.Answers w n ∧ ∃ a, f w.db = .ok a
  · obtain ⟨hn, a, ha⟩ := hfirst
    rw [Prog.bind_of_ok (hm.ok w a hn ha)]
    rcases putFrom_cases (E := E) (F := F) (w.after n w.db) pk (key a) (item a) (version a) with
      ⟨-, e, k, hput⟩ | ⟨row, -, -, hput⟩
    · exact .inl ⟨e, n + k, by rw [Prog.bind_of_error hput, World.after_after]; rfl⟩
    · rw [World.after_after] at hput
      rcases hupd : updateFromSpec E F (key a) (item a) (version a)
        (w.after (n + 2) (withStatus w.db pk (putStatus row.status))) with ⟨r, w'⟩
      refine .inr ⟨a, _, _, r, w', ha, hupd, ?_⟩
      have hrun := hput.trans hupd
      cases r with
      | error e => exact Prog.bind_of_error hrun
      | ok obj => exact Prog.bind_of_ok hrun
  · obtain ⟨e, k, hrun⟩ := hm.error w hfirst
    exact .inl ⟨e, k, Prog.bind_of_error hrun⟩

theorem grows_withStatus (kind : ObjectKind) (db : Tables δ) (pk : String) (u : ObjPsStatusUpdate) :
    Grows kind db (withStatus db pk u) := ⟨by cases kind <;> rfl, fun _ _ h => h⟩

/-- what a request that puts does to the keys: those of its kind are kept if it renames nothing, the others always; if it
returns, it has written the new name -/
structure PutEffect (F : Format δ σ π) (valid : String → Prop) (w : World δ) (run : Io δ Unit) (renames : Prop) : Prop where
  sound : SoundOf F valid w.db → ¬ renames → SoundOf F valid (run w).2.db
  other : ∀ kind, kind ≠ F.kind → Grows kind w.db (run w).2.db
  renamed : renames → ∃ row name specKey, row ∈ (w.db.objects F.kind).rows ∧ row.name ≠ name ∧
    { row with name := name, specKey := specKey } ∈ ((run w).2.db.objects F.kind).rows

theorem reads_put_effect (hF : UpdatesOwn F) {α : Type} {m : Io δ α} {n : ℕ} {f : Tables δ → Except HttpError α}
    (hm : Reads E m n f) (pk : String) (key : α → String) (item : α → π) (version : α → String) (w : World δ) :
    PutEffect F valid w (do
        let a ← m
        let _ ← putFrom E F pk (key a) (item a) (version a)
        return () : Io δ Unit)
      ((∃ u, ((do
          let a ← m
          let _ ← putFrom E F pk (key a) (item a) (version a)
          return () : Io δ Unit) w).1 = .ok u) ∧
        ∃ a row, f w.db = .ok a ∧ (w.db.objects F.kind).find (key a) = some row ∧ row.name ≠ F.name (item a)) := by
  rcases reads_put_cases (F := F) hm pk key item version w with ⟨e, k, hrun⟩ | ⟨a, k, u, r, w', ha, hupd, hrun⟩
  · refine ⟨fun hs _ => ?_, fun kind _ => ?_, fun ⟨⟨u, hu⟩, _⟩ => ?_⟩
    · rw [hrun]
      exact hs
    · rw [hrun]
      exact .refl kind w.db
    · rw [hrun] at hu
      cases hu
  · have hstatus := grows_withStatus F.kind w.db pk u
    refine ⟨fun hs hno => ?_, fun kind hkind => ?_, fun ⟨⟨v, hv⟩, a', row, ha', hrow, hname⟩ => ?_⟩
    · rw [hrun] at hno ⊢
      refine (hs.grow hstatus).updateFromSpec hF hupd fun obj row hr hrow => ?_
      by_contra hname
      exact hno ⟨⟨(), by rw [hr]; rfl⟩, a, row, ha, hstatus.objects ▸ hrow, hname⟩
    · have h := grows_updateFromSpec hupd hkind
      rw [hrun]
      exact ⟨h.objects.trans (grows_withStatus kind w.db pk u).objects, h.specs⟩
    · obtain rfl := Except.ok.inj (ha.symm.trans ha')
      rw [hrun] at hv
      rw [hrun]
      cases r with
      | error e => cases hv
      | ok obj =>
        obtain ⟨specKey, hmem⟩ := mem_of_updateFromSpec hupd row (hstatus.objects ▸ hrow)
        exact ⟨row, F.name (item a), specKey, (Table.find_eq_some.1 hrow).1, hname, hmem⟩

theorem PutEffect.congr {w : World δ} {run : Io δ Unit} {renames renames' : Prop} (h : PutEffect F valid w run renames)
    (hr : renames' ↔ renames) : PutEffect F valid w run renames' :=
  ⟨fun hs hno => h.sound hs fun hr' => hno (hr.2 hr'), h.other, fun hr' => h.renamed (hr.1 hr')⟩

end Sound

namespace PutRequest

theorem updatesOwn_cargo : UpdatesOwn (cargoFormat E) := fun _ _ => .inl rfl

theorem updatesOwn_vm : UpdatesOwn (vmFormat E) := fun _ _ => .inr rfl

variable {valid : String → Prop}

theorem putCargo_effect (pk : String) (obj : CargoObjPutIn δ) (w : World δ) :
    PutEffect (cargoFormat E) valid w ((putCargo pk obj).run E) ((putCargo pk obj).Renames E w) := by
  refine (reads_put_effect updatesOwn_cargo (reads_pure ()) pk (fun _ => pk) (fun _ => obj.spec)
    (fun _ => obj.version) w).congr ?_
  rw [Renames, ← and_assoc, ← run_ok_iff]
  refine and_congr Iff.rfl ⟨?_, ?_⟩
  · rintro ⟨row, name, hrow, hname, hne⟩
    obtain rfl := Option.some.inj hname
    exact ⟨(), row, rfl, hrow, hne.symm⟩
  · rintro ⟨-, row, -, hrow, hne⟩
    exact ⟨row, _, hrow, rfl, hne.symm⟩

theorem patchCargo_effect (pk : String) (obj : CargoObjPatchIn δ) (w : World δ) :
    PutEffect (cargoFormat E) valid w ((patchCargo pk obj).run E) ((patchCargo pk obj).Renames E w) := by
  have hreads : Reads E (readObj E (cargoFormat E) pk) 1 fun db => objectOf (cargoFormat E) db pk := reads_readObj pk
  have h : PutEffect (cargoFormat E) valid w _ _ := reads_put_effect updatesOwn_cargo hreads pk (fun _ => pk)
    (fun cargo => patchCargoSpec cargo.spec obj.spec) (fun _ => obj.version) w
  rw [← run_patchCargo] at h
  refine h.congr ?_
  rw [Renames, ← and_assoc, ← run_ok_iff]
  refine and_congr Iff.rfl ⟨?_, ?_⟩
  · rintro ⟨row, name, hrow, hname, hne⟩
    cases hobj : objectOf (cargoFormat E) w.db pk with
    | error e => simp [newName, hobj] at hname
    | ok cargo =>
      simp only [newName, hobj, Option.some.injEq] at hname
      exact ⟨cargo, row, rfl, hrow, fun h => hne (hname.symm.trans h.symm)⟩
  · rintro ⟨cargo, row, hobj, hrow, hne⟩
    exact ⟨row, cargo.spec.name, hrow, by simp only [newName, hobj], fun h => hne h.symm⟩

theorem revertCargo_effect (pk : String) (history : Uuid) (version : String) (w : World δ) :
    PutEffect (cargoFormat E) valid w ((revertCargo pk history version).run E)
      ((revertCargo pk history version).Renames E w) := by
  have h : PutEffect (cargoFormat E) valid w _ _ := reads_put_effect updatesOwn_cargo (reads_history E history) pk
    (fun _ => pk) (fun spec => spec.toCargoSpecPartial) (fun _ => version) w
  rw [← run_revertCargo] at h
  refine h.congr ?_
  rw [Renames, ← and_assoc, ← run_ok_iff]
  refine and_congr Iff.rfl ⟨?_, ?_⟩
  · rintro ⟨row, name, hrow, hname, hne⟩
    simp only [newName, Option.bind_eq_bind, Option.bind_eq_some_iff] at hname
    obtain ⟨specRow, hfind, hname⟩ := hname
    cases hspec : tryToCargoSpec E specRow with
    | error e => simp [hspec] at hname
    | ok spec =>
      simp only [hspec, Option.some.injEq] at hname
      exact ⟨spec, row, history_found.2 ⟨specRow, hfind, hspec⟩, hrow, fun h => hne (hname.symm.trans h.symm)⟩
  · rintro ⟨spec, row, hspec, hrow, hne⟩
    obtain ⟨specRow, hfind, hread⟩ := history_found.1 hspec
    exact ⟨row, spec.name, hrow, by simp [newName, hfind, hread], fun h => hne h.symm⟩

theorem putVm_effect (pk : String) (obj : VmObjPutIn δ) (w : World δ) :
    PutEffect (vmFormat E) valid w ((putVm pk obj).run E) ((putVm pk obj).Renames E w) := by
  have hreads : Reads E (readObj E (vmFormat E) pk) 1 fun db => objectOf (vmFormat E) db pk := reads_readObj pk
  have h : PutEffect (vmFormat E) valid w _ _ := reads_put_effect updatesOwn_vm hreads pk (fun vm => vm.spec.vmKey)
    (fun _ => obj.spec) (fun _ => obj.version) w
  rw [← run_putVm] at h
  refine h.congr ?_
  rw [Renames, ← and_assoc, ← run_ok_iff]
  refine and_congr_right fun ⟨u, hu⟩ => ?_
  obtain ⟨vm, hvm⟩ := ((run_ok_iff _ w).1 ⟨u, hu⟩).1.prepared
  have hkey : (putVm pk obj).updateKey E w.db = vm.spec.vmKey := by
    simp only [updateKey, kind, PutRequest.pk, hvm]
  rw [hkey]
  constructor
  · rintro ⟨row, name, hrow, hname, hne⟩
    obtain rfl := Option.some.inj hname
    exact ⟨vm, row, hvm, hrow, hne.symm⟩
  · rintro ⟨vm', row, hvm', hrow, hne⟩
    obtain rfl := Except.ok.inj (hvm.symm.trans hvm')
    exact ⟨row, _, hrow, rfl, hne.symm⟩

theorem patchVm_effect (pk : String) (obj : VmObjPatchIn δ) (w : World δ) :
    PutEffect (vmFormat E) valid w ((patchVm pk obj).run E) ((patchVm pk obj).Renames E w) := by
  have h : PutEffect (vmFormat E) valid w _ _ := reads_put_effect updatesOwn_vm (reads_patchVm E pk) pk
    (fun a => a.2.2.spec.vmKey) (fun a => patchVmSpec a.1.spec.name a.2.1 obj.spec) (fun _ => obj.version) w
  rw [← run_patchVm] at h
  refine h.congr ?_
  rw [Renames, ← and_assoc, ← run_ok_iff]
  refine and_congr_right fun ⟨u, hu⟩ => ?_
  obtain ⟨vm, hvm⟩ := ((run_ok_iff _ w).1 ⟨u, hu⟩).1.prepared
  have hkey : (patchVm pk obj).updateKey E w.db = vm.spec.vmKey := by
    simp only [updateKey, kind, PutRequest.pk, hvm]
  have hnew : (patchVm pk obj).newName E w.db = some (obj.spec.name.getD vm.spec.name) := by
    simp only [newName, hvm]
  rw [hkey, hnew]
  constructor
  · rintro ⟨row, name, hrow, hname, hne⟩
    obtain rfl := Option.some.inj hname
    exact ⟨_, row, patchVm_found.2 ⟨vm, hvm, rfl⟩, hrow, hne.symm⟩
  · rintro ⟨a, row, ha, hrow, hne⟩
    obtain ⟨vm', hvm', rfl⟩ := patchVm_found.1 ha
    obtain rfl := Except.ok.inj (hvm.symm.trans hvm')
    exact ⟨row, _, hrow, rfl, hne.symm⟩

variable (valid) in
/-- the request of a cargo, as an effect on the cargoes -/
theorem effect_cargo {w : World δ} {req : PutRequest δ} (h : req.kind = .cargo) :
    PutEffect (cargoFormat E) valid w (req.run E) (req.Renames E w) := by
  cases req with
  | putCargo pk obj => exact putCargo_effect pk obj w
  | patchCargo pk obj => exact patchCargo_effect pk obj w
  | revertCargo pk history version => exact revertCargo_effect pk history version w
  | putVm pk obj => cases h
  | patchVm pk obj => cases h

variable (valid) in
/-- the request of a VM, as an effect on the VMs -/
theorem effect_vm {w : World δ} {req : PutRequest δ} (h : req.kind = .vm) :
    PutEffect (vmFormat E) valid w (req.run E) (req.Renames E w) := by
  cases req with
  | putVm pk obj => exact putVm_effect pk obj w
  | patchVm pk obj => exact patchVm_effect pk obj w
  | putCargo pk obj => cases h
  | patchCargo pk obj => cases h
  | revertCargo pk history version => cases h

end PutRequest

/-! ## The invariant of the proof -/

variable (E) in
/-- the keys of both kinds, with what their updates need -/
structure Sound (db : Tables δ) : Prop where
  cargo : SoundOf (cargoFormat E) (fun name => validName E name) db
  vm : SoundOf (vmFormat E) (fun _ => True) db

theorem Sound.grow {db db' : Tables δ} (hs : Sound E db) (hc : Grows .cargo db db') (hv : Grows .vm db db') : Sound E db' :=
  ⟨hs.cargo.grow hc, hs.vm.grow hv⟩

theorem Sound.keyInvariant {db : Tables δ} (hs : Sound E db) : KeyInvariant E db := by
  have hkey : ∀ kind, ∀ r ∈ (db.objects kind).rows, r.key = genKey r.namespaceName r.name := by
    intro kind
    cases kind with
    | cargo => exact hs.cargo.key
    | vm => exact hs.vm.key
  refine ⟨hkey, fun kind => ?_, hs.cargo.valid, fun kind r hr r' hr' hname hnsp => ?_, fun kind r hr => ?_⟩
  · cases kind with
    | cargo => exact hs.cargo.dotless
    | vm => exact hs.vm.dotless
  · apply Table.key_inj hr hr'
    rw [hkey kind r hr, hkey kind r' hr', hname, hnsp]
  · rw [← hkey kind r hr]
    exact Table.find_of_mem hr

theorem sound_of_empty {db : Tables δ} (hc : db.cargoes.rows = []) (hv : db.vms.rows = []) : Sound E db := by
  have hcargo : ∀ r, r ∉ (db.objects (cargoFormat E).kind).rows := fun r hr => by
    change r ∈ db.cargoes.rows at hr
    simp [hc] at hr
  have hvm : ∀ r, r ∉ (db.objects (vmFormat E).kind).rows := fun r hr => by
    change r ∈ db.vms.rows at hr
    simp [hv] at hr
  refine ⟨⟨?_, ?_, ?_, ?_⟩, ⟨?_, ?_, ?_, ?_⟩⟩
  · exact fun r hr => absurd hr (hcargo r)
  · exact fun r hr => absurd hr (hcargo r)
  · exact fun r hr => absurd hr (hcargo r)
  · exact fun r hr => absurd hr (hcargo r)
  · exact fun r hr => absurd hr (hvm r)
  · exact fun r hr => absurd hr (hvm r)
  · exact fun r hr => absurd hr (hvm r)
  · exact fun r hr => absurd hr (hvm r)

/-! ### A put -/

/-- a request that renames nothing keeps the keys of both kinds -/
theorem put_step {w : World δ} {req : PutRequest δ} (hs : Sound E w.db) (hno : ¬ req.Renames E w) :
    Sound E (req.run E w).2.db := by
  cases hkind : req.kind with
  | cargo =>
    have h := PutRequest.effect_cargo (E := E) (fun name => validName E name) (w := w) hkind
    exact ⟨h.sound hs.cargo hno, hs.vm.grow (h.other .vm nofun)⟩
  | vm =>
    have h := PutRequest.effect_vm (E := E) (fun _ => True) (w := w) hkind
    exact ⟨hs.cargo.grow (h.other .cargo nofun), h.sound hs.vm hno⟩

/-- one that renames its object leaves a row whose key is not made of its name -/
theorem renames_breaks {w : World δ} {req : PutRequest δ} (hs : Sound E w.db) (hrenames : req.Renames E w) :
    ¬ KeyInvariant E (req.run E w).2.db := by
  intro hinv
  have hrenamed : ∃ kind row name specKey, row ∈ (w.db.objects kind).rows ∧ row.name ≠ name ∧
      { row with name := name, specKey := specKey } ∈ ((req.run E w).2.db.objects kind).rows := by
    cases hkind : req.kind with
    | cargo =>
      exact ⟨.cargo, (PutRequest.effect_cargo (E := E) (fun _ => True) (w := w) hkind).renamed hrenames⟩
    | vm => exact ⟨.vm, (PutRequest.effect_vm (E := E) (fun _ => True) (w := w) hkind).renamed hrenames⟩
  obtain ⟨kind, row, name, specKey, hrow, hne, hnew⟩ := hrenamed
  have hold := hs.keyInvariant.key kind row hrow
  have hkey := hinv.key kind _ hnew
  exact hne (Sync.genKey_inj (hold.symm.trans hkey))

/-! ### A creation -/

theorem createCargo_sound {w w' : World δ} {obj : CargoObjCreateIn δ} {r : Except HttpError (Cargo δ)}
    (hs : Sound E w.db) (h : createCargo E obj w = (r, w')) : Sound E w'.db := by
  rcases createCargo_cases h with ⟨e, k, -, rfl, -⟩ | ⟨t, hbegins, ht, ⟨e, k, -, -, rfl⟩ | ⟨e, k, st, -, -, -, rfl⟩ |
    ⟨cargo, st, ct, -, -, -, hct, rfl⟩⟩
  · exact hs
  · exact hs.grow ⟨rfl, find_insert_mono ht⟩ ⟨rfl, find_insert_mono ht⟩
  · exact hs.grow ⟨rfl, find_insert_mono ht⟩ ⟨rfl, find_insert_mono ht⟩
  · refine ⟨hs.cargo.insert hct rfl (find_insert_mono ht) rfl (dotless_of_validName hbegins.name) hbegins.name
      (Table.find_insert_self ht) rfl ?_, hs.vm.grow ⟨rfl, find_insert_mono ht⟩⟩
    intro spec hread
    have hback : tryToCargoSpec E (cargoSpecRow E obj (E.uuid w.calls)) = .ok _ :=
      tryToCargoSpec_tryFrom E obj.key obj.version obj.spec (E.uuid w.calls)
    obtain rfl := Except.ok.inj (hback.symm.trans hread)
    rfl

theorem createVm_sound {w w' : World δ} {obj : VmObjCreateIn δ} {r : Except HttpError (Vm δ)} (hs : Sound E w.db)
    (h : createVm E obj w = (r, w')) : Sound E w'.db := by
  rcases createVm_cases h with ⟨e, k, -, rfl, -⟩ | ⟨image, hprep, -, ⟨e, k, -, -, rfl⟩ |
    ⟨t, st, sp, -, -, -, ⟨e, k, -, -, hsp, rfl⟩ | ⟨vm, vt, -, -, -, hsp, hvt, rfl⟩⟩⟩
  · exact hs
  · exact hs
  · have hmono : ∀ k s, w.db.specs.find k = some s → sp.find k = some s := by
      rcases hsp with rfl | hsp
      · exact fun _ _ h => h
      · exact find_insert_mono hsp
    exact hs.grow ⟨rfl, hmono⟩ ⟨rfl, hmono⟩
  · refine ⟨hs.cargo.grow ⟨rfl, find_insert_mono hsp⟩, hs.vm.insert hvt rfl (find_insert_mono hsp) rfl hprep.dotless trivial
      (Table.find_insert_self hsp) rfl ?_⟩
    intro spec hread
    have hback : tryToVmSpec E (vmSpecRow E obj image (E.uuid (w.calls + 8))) = .ok _ :=
      tryToVmSpec_tryFrom E obj.key obj.version (obj.vm image) (E.uuid (w.calls + 8))
    obtain rfl := Except.ok.inj (hback.symm.trans hread)
    rfl

/-! ### The pass at the start -/

variable (E) in
/-- the keys stay sound -/
def KeepsSound (w w' : World δ) : Prop := Sound E w.db → Sound E w'.db

instance : IsPreorder (World δ) (KeepsSound E) where
  refl _ h := h
  trans _ _ _ h h' := fun hs => h' (h hs)

theorem keeps_query {α : Type} (f : Tables δ → Except HttpError α) : Prog.Keeps (KeepsSound E) (query E f) := by
  intro w hs
  rw [query_world]
  exact hs

/-- a statement that leaves the cargoes, the VMs and the specs alone -/
theorem keeps_exec {f : Tables δ → Except HttpError (Tables δ)}
    (hf : ∀ db db', f db = .ok db' → db'.cargoes = db.cargoes ∧ db'.vms = db.vms ∧ db'.specs = db.specs) :
    Prog.Keeps (KeepsSound E) (exec E f) := by
  intro w hs
  rcases hrun : exec E f w with ⟨e | u, w'⟩
  · rw [exec_error hrun]
    exact hs
  · obtain ⟨db, -, hdb, rfl⟩ := exec_ok hrun
    obtain ⟨hc, hv, hspecs⟩ := hf _ _ hdb
    have hmono : ∀ k s, w.db.specs.find k = some s → db.specs.find k = some s := fun k s h => hspecs ▸ h
    exact hs.grow ⟨hc, hmono⟩ ⟨hv, hmono⟩

theorem keeps_updateStatus (pk : String) (u : ObjPsStatusUpdate) : Prog.Keeps (KeepsSound E) (updateStatus E pk u) := by
  refine keeps_exec fun db db' h => ?_
  unfold setStatus at h
  split at h
  · obtain rfl := Except.ok.inj h
    exact ⟨rfl, rfl, rfl⟩
  · cases h

theorem keeps_createNamespace (row : NamespaceDb) : Prog.Keeps (KeepsSound E) (createNamespace E row) := by
  refine keeps_exec fun db db' h => ?_
  unfold insertNamespace at h
  split at h
  · obtain rfl := Except.ok.inj h
    exact ⟨rfl, rfl, rfl⟩
  · cases h

theorem keeps_createCargo (obj : CargoObjCreateIn δ) : Prog.Keeps (KeepsSound E) (createCargo E obj) :=
  fun _ hs => createCargo_sound hs rfl

/-- the pass writes the name that its key begins with, which is that of the row -/
theorem keeps_update {key name nsp : String} (hkey : Sync.splitKey key = some (name, nsp)) (container : Inspected)
    (version : String) :
    Prog.Keeps (KeepsSound E) (updateCargoFromSpec E key (specOf name container) version) := by
  intro w hs
  have hsound : SoundOf (cargoFormat E) (fun name => validName E name)
      (updateCargoFromSpec E key (specOf name container) version w).2.db := by
    refine hs.cargo.updateFromSpec PutRequest.updatesOwn_cargo rfl fun obj row _ hrow => ?_
    obtain ⟨hmem, hrowKey⟩ := Table.find_eq_some.1 hrow
    have hgen := hs.cargo.key row hmem
    rw [hrowKey] at hgen
    rw [hgen] at hkey
    exact (name_of_splitKey (hs.cargo.dotless row hmem) hkey).symm
  have hgrows : Grows .vm w.db (updateCargoFromSpec E key (specOf name container) version w).2.db :=
    grows_updateFromSpec (F := cargoFormat E) rfl nofun
  exact ⟨hsound, hs.vm.grow hgrows⟩

theorem syncKeeps_sound : SyncKeeps E (KeepsSound E) where
  query := keeps_query
  status := keeps_updateStatus
  namespace_ := keeps_createNamespace
  create := keeps_createCargo
  update _ _ _ hkey := keeps_update hkey

/-! ## Runs -/

/-- every operation but a put that renames keeps the keys -/
theorem keyStep_sound {w : World δ} {op : KeyOp δ} (hs : Sound E w.db) (hop : op.KeepsNames E w) :
    Sound E (keyStep E w op).db := by
  cases op with
  | createCargo obj =>
    exact Prog.keeps_bind (R := KeepsSound E) (keeps_createCargo obj) (fun _ => Prog.keeps_pure ()) w hs
  | createVm obj =>
    exact Prog.keeps_bind (R := KeepsSound E) (fun _ hs => createVm_sound hs rfl) (fun _ => Prog.keeps_pure ()) w hs
  | put req => exact put_step hs hop
  | sync containers => exact syncKeeps_sound.syncProcesses containers w hs

theorem keepsNames_of_keyInvariant {w : World δ} {op : KeyOp δ} (hs : Sound E w.db)
    (hinv : KeyInvariant E (keyStep E w op).db) : op.KeepsNames E w := by
  cases op with
  | createCargo obj => trivial
  | createVm obj => trivial
  | put req => exact fun hrenames => renames_breaks hs hrenames hinv
  | sync containers => trivial

/-- **The keys hold after every operation of a run exactly if no put, patch or revert renames its object**: creations
and the passes at the start keep them always. -/
theorem key_invariant_iff (E : Env δ) (w : World δ) (hc : w.db.cargoes.rows = []) (hv : w.db.vms.rows = [])
    (ops : List (KeyOp δ)) :
    Along (keyStep E) (fun w op => KeyInvariant E (keyStep E w op).db) w ops ↔
      Along (keyStep E) (fun (w : World δ) op => op.KeepsNames E w) w ops :=
  along_inv_iff (I := fun (w : World δ) => KeyInvariant E w.db) (J := fun (w : World δ) => Sound E w.db)
    (fun _ hs => hs.keyInvariant) (fun _ _ hs hop => keyStep_sound hs hop)
    (fun _ _ hs hinv => keepsNames_of_keyInvariant hs hinv) (sound_of_empty hc hv) ops

/-- a creation of `web.global` in a store with its namespace only -/
theorem key_invariant_create :
    Along (keyStep Env.plain) (fun w op => KeyInvariant Env.plain (keyStep Env.plain w op).db) globalWorld
      [.createCargo ⟨"global", webSpec, "v0.16"⟩] :=
  (key_invariant_iff Env.plain globalWorld rfl rfl _).2 ⟨trivial, trivial⟩

/-- a put on `web.global` with the name `api` leaves a row whose key and name disagree -/
theorem put_renames :
    ¬ Along (keyStep Env.plain) (fun w op => KeyInvariant Env.plain (keyStep Env.plain w op).db) globalWorld
      [.createCargo ⟨"global", webSpec, "v0.16"⟩, .put (.putCargo "web.global" ⟨{ webSpec with name := "api" }, "v0.16"⟩)] := by
  rintro ⟨-, h, -⟩
  have hkeys := h.key .cargo
  have hrow : ∃ r ∈ ((keyStep Env.plain webWorld
      (.put (.putCargo "web.global" ⟨{ webSpec with name := "api" }, "v0.16"⟩))).db.objects .cargo).rows,
      r.key ≠ genKey r.namespaceName r.name := by decide
  obtain ⟨r, hr, hne⟩ := hrow
  exact hne (hkeys r hr)

end Nanocl.Objects
