/-
What a put, a patch or a revert that fails leaves behind.

`fn_put_obj_by_pk` writes the status of the object first (wanted start, actual updating), then inserts the spec, then
updates the row. None of the three is undone when a later one fails.

- `run_ends`: a request fails before the status is written, with the database as it was; or all goes well; or something
  fails in between.
- `put_left_iff`: so a request that fails leaves the object as it was exactly if it fails before the status is written.
  It is enough that one call after that fails for the object to be left updating.
-/
import Nanocl.Objects.Vm

namespace Nanocl.Objects

open Nanocl.Lib Nanocl.Status

variable {δ : Type} (E : Env δ)

/-- the requests that put a specification on a cargo or a VM -/
inductive PutRequest (δ : Type) where
  | putCargo (pk : String) (obj : CargoObjPutIn δ)
  | patchCargo (pk : String) (obj : CargoObjPatchIn δ)
  | revertCargo (pk : String) (history : Uuid) (version : String)
  | putVm (pk : String) (obj : VmObjPutIn δ)
  | patchVm (pk : String) (obj : VmObjPatchIn δ)

namespace PutRequest

def pk : PutRequest δ → String
  | putCargo pk _ | patchCargo pk _ | revertCargo pk _ _ | putVm pk _ | patchVm pk _ => pk

def kind : PutRequest δ → ObjectKind
  | putCargo .. | patchCargo .. | revertCargo .. => .cargo
  | putVm .. | patchVm .. => .vm

def run (req : PutRequest δ) : Io δ Unit :=
  match req with
  | putCargo pk obj => do
    let _ ← Objects.putCargo E pk obj
    return ()
  | patchCargo pk obj => do
    let _ ← Objects.patchCargo E pk obj
    return ()
  | revertCargo pk history version => do
    let _ ← Objects.revertCargo E pk history version
    return ()
  | putVm pk obj => do
    let _ ← Objects.putVm E pk obj
    return ()
  | patchVm pk obj => do
    let _ ← Objects.patchVm E pk obj
    return ()

/-! ## Before the status is written -/

/-- the object of a key can be read -/
def readable (db : Tables δ) (kind : ObjectKind) (pk : String) : Prop :=
  match kind with
  | .cargo => ∃ cargo, objectOf (cargoFormat E) db pk = .ok cargo
  | .vm => ∃ vm, objectOf (vmFormat E) db pk = .ok vm

/-- the calls that a request makes before its put -/
def before : PutRequest δ → ℕ
  | putCargo .. => 0
  | patchCargo .. | revertCargo .. | putVm .. => 1
  | patchVm .. => 3

/-- what these calls are to find: a patch and a put of a VM need the object, a revert the spec -/
def prepared (db : Tables δ) : PutRequest δ → Prop
  | putCargo .. => True
  | patchCargo pk _ => readable E db .cargo pk
  | revertCargo _ history _ => ∃ row spec, db.specs.find history = some row ∧ tryToCargoSpec E row = .ok spec
  | putVm pk _ | patchVm pk _ => readable E db .vm pk

/-- the key that `update_from_spec` is given: that of the request for a cargo, that of the current spec for a VM -/
def updateKey (db : Tables δ) (req : PutRequest δ) : String :=
  match req.kind with
  | .cargo => req.pk
  | .vm =>
    match objectOf (vmFormat E) db req.pk with
    | .ok vm => vm.spec.vmKey
    | .error _ => req.pk

/-- the request gets as far as writing the status -/
structure StatusWritten (req : PutRequest δ) (w : World δ) : Prop where
  answers : E.Answers w (req.before + 2)
  prepared : req.prepared E w.db
  status : (w.db.statuses.find req.pk).isSome

/-- nothing goes wrong after that: the object is read again, the spec is inserted, the row is updated -/
structure Completes (req : PutRequest δ) (w : World δ) : Prop where
  answers : E.Answers (w.after (req.before + 2) w.db) 3
  readable : readable E w.db req.kind (req.updateKey E w.db)
  uuid : w.db.specs.find (E.uuid (w.calls + req.before + 3)) = none

end PutRequest

/-! ## After a failure -/

/-- the current spec of an object -/
def currentSpec (db : Tables δ) (kind : ObjectKind) (pk : String) : Option (SpecDb δ) := do
  let row ← (db.objects kind).find pk
  db.specs.find row.specKey

/-- the status of the key is wanted start, actual updating -/
def Updating (db : Tables δ) (pk : String) : Prop :=
  ∃ row, db.statuses.find pk = some row ∧ row.status.wanted = .start ∧ row.status.actual = .updating

/-- the object is as it was, and is not left updating -/
structure LeftAsItWas (kind : ObjectKind) (pk : String) (db db' : Tables δ) : Prop where
  status : db'.statuses.find pk = db.statuses.find pk
  row : (db'.objects kind).find pk = (db.objects kind).find pk
  current : currentSpec db' kind pk = currentSpec db kind pk
  history : specsOf db' pk = specsOf db pk
  notUpdating : ¬ Updating db' pk

variable {E}

theorem objectOf_withStatus {σ π : Type} {F : Format δ σ π} {db : Tables δ} {pk key : String} {u : ObjPsStatusUpdate} :
    (∃ old, objectOf F (withStatus db pk u) key = .ok old) ↔ ∃ old, objectOf F db key = .ok old := by
  have hfind (k : String) : ((withStatus db pk u).statuses.find k).isSome = (db.statuses.find k).isSome := by
    rw [withStatus_find]
    cases db.statuses.find k <;> rfl
  have hobjects : (withStatus db pk u).objects F.kind = db.objects F.kind := by cases F.kind <;> rfl
  unfold objectOf Tables.joined
  rw [hobjects, show (withStatus db pk u).specs = db.specs from rfl]
  cases (db.objects F.kind).find key with
  | none => simp [orNotFound]
  | some row =>
    cases hspec : db.specs.find row.specKey with
    | none => simp [orNotFound, hspec]
    | some spec =>
      have h := hfind row.statusKey
      cases h1 : (withStatus db pk u).statuses.find row.statusKey <;> cases h2 : db.statuses.find row.statusKey <;>
        simp only [h1, h2, Option.isSome_some, Option.isSome_none, reduceCtorEq] at h
      · simp [orNotFound, hspec, h1, h2]
      · cases hr : F.read spec <;> simp [orNotFound, hspec, h1, h2, transform, hr, bind, Except.bind]

/-! ## The put itself -/

section Put

variable {σ π : Type} {F : Format δ σ π}

/-- nothing goes wrong once the status is written: three calls answer, the object can be read, the uuid is new -/
structure PutCompletes (E : Env δ) (F : Format δ σ π) (w : World δ) (key : String) : Prop where
  answers : E.Answers (w.after 2 w.db) 3
  readable : ∃ old, objectOf F w.db key = .ok old
  uuid : w.db.specs.find (E.uuid (w.calls + 3)) = none

theorem updateFromSpec_statuses {w : World δ} {key : String} {item : π} {version : String} :
    (updateFromSpec E F key item version w).2.db.statuses = w.db.statuses := by
  rcases hrun : updateFromSpec E F key item version w with ⟨r, w'⟩
  rcases updateFromSpec_cases hrun with ⟨e, -, rfl, -⟩ | ⟨e, old, -, rfl, -⟩ |
    ⟨old, t, -, -, -, ⟨e, -, rfl, -⟩ | ⟨-, -, rfl⟩⟩
  · rfl
  · rfl
  · rfl
  · simp only [repoint, World.after_db]
    cases F.kind <;> rfl

/-- the status that a put writes is that of an object that is updating -/
theorem updating_withStatus {db : Tables δ} {pk : String} {row : ObjPsStatusDb} (h : db.statuses.find pk = some row) :
    Updating (withStatus db pk (putStatus row.status)) pk :=
  ⟨_, by rw [withStatus_find, h, Option.map_some, if_pos rfl], rfl, rfl⟩

/-- The three ends of a request that writes the status of `pk`, under two conditions: it fails before that (`¬ written`)
and has changed nothing; or all goes well (`completes`); or something fails after that, and the object is left updating. -/
def Ends {α : Type} (pk : String) (run : Io δ α) (w : World δ) (written completes : Prop) : Prop :=
  (¬ written ∧ ∃ e n, run w = (.error e, w.after n w.db)) ∨
    written ∧ ((completes ∧ ∃ a w', run w = (.ok a, w')) ∨
      (¬ completes ∧ ∃ e w', run w = (.error e, w') ∧ Updating w'.db pk))

theorem Ends.congr {α : Type} {pk : String} {run : Io δ α} {w : World δ} {written completes written' completes' : Prop}
    (h : Ends pk run w written completes) (hw : written' ↔ written) (hc : written → (completes' ↔ completes)) :
    Ends pk run w written' completes' := by
  rcases h with ⟨hn, h⟩ | ⟨hy, ⟨hd, h⟩ | ⟨hd, h⟩⟩
  · exact .inl ⟨fun h' => hn (hw.1 h'), h⟩
  · exact .inr ⟨hw.2 hy, .inl ⟨(hc hy).2 hd, h⟩⟩
  · exact .inr ⟨hw.2 hy, .inr ⟨fun h' => hd ((hc hy).1 h'), h⟩⟩

/-- the three ends of a put: before the status, after all of it, in between -/
theorem put_ends (w : World δ) (pk key : String) (item : π) (version : String) :
    Ends pk (putFrom E F pk key item version) w (E.Answers w 2 ∧ (w.db.statuses.find pk).isSome)
      (PutCompletes E F w key) := by
  rcases putFrom_cases (E := E) (F := F) w pk key item version with h | ⟨row, h2, hst, hrun⟩
  · exact .inl h
  · refine .inr ⟨⟨h2, by simp [hst]⟩, ?_⟩
    set w₂ := w.after 2 (withStatus w.db pk (putStatus row.status)) with hw₂
    have hcomplete : (∃ obj, (updateFromSpec E F key item version w₂).1 = .ok obj) ↔ PutCompletes E F w key := by
      rw [updateFromSpec_returns_iff]
      constructor
      · rintro ⟨h3, hobj, huuid⟩
        exact ⟨h3, objectOf_withStatus.1 hobj, huuid⟩
      · rintro ⟨h3, hobj, huuid⟩
        exact ⟨h3, objectOf_withStatus.2 hobj, huuid⟩
    rw [hrun]
    rcases hres : updateFromSpec E F key item version w₂ with ⟨e | obj, w'⟩
    · refine .inr ⟨fun hc => ?_, e, w', rfl, ?_⟩
      · obtain ⟨obj, hobj⟩ := hcomplete.2 hc
        rw [hres] at hobj
        cases hobj
      · have hs : (updateFromSpec E F key item version w₂).2.db.statuses = w₂.db.statuses := updateFromSpec_statuses
        rw [hres] at hs
        obtain ⟨r, hr, hstatus⟩ := updating_withStatus hst
        exact ⟨r, by rw [hs]; exact hr, hstatus⟩
    · exact .inl ⟨hcomplete.1 ⟨obj, by rw [hres]⟩, obj, w', rfl⟩

/-- a request that reads and then puts -/
theorem reads_put_ends {α : Type} {m : Io δ α} {n : ℕ} {f : Tables δ → Except HttpError α} (hm : Reads E m n f)
    (pk : String) (key : α → String) (item : α → π) (version : α → String) (w : World δ) :
    Ends pk (do
        let a ← m
        let _ ← putFrom E F pk (key a) (item a) (version a)
        return () : Io δ Unit) w
      (E.Answers w (n + 2) ∧ (∃ a, f w.db = .ok a) ∧ (w.db.statuses.find pk).isSome)
      (∃ a, f w.db = .ok a ∧ PutCompletes E F (w.after n w.db) (key a)) := by
  by_cases hfirst : E.Answers w n ∧ ∃ a, f w.db = .ok a
  · obtain ⟨hn, a, ha⟩ := hfirst
    have hput := put_ends (E := E) (F := F) (w.after n w.db) pk (key a) (item a) (version a)
    have hends : Ends pk (do
        let a ← m
        let _ ← putFrom E F pk (key a) (item a) (version a)
        return () : Io δ Unit) w
        (E.Answers (w.after n w.db) 2 ∧ ((w.after n w.db).db.statuses.find pk).isSome)
        (PutCompletes E F (w.after n w.db) (key a)) := by
      unfold Ends at hput ⊢
      rw [Prog.bind_of_ok (hm.ok w a hn ha)]
      rcases hput with ⟨hno, e, k, h⟩ | ⟨hyes, ⟨hc, obj, w', h⟩ | ⟨hc, e, w', h, hu⟩⟩
      · exact .inl ⟨hno, e, n + k, by rw [Prog.bind_of_error h, World.after_after, World.after_db]⟩
      · exact .inr ⟨hyes, .inl ⟨hc, (), w', Prog.bind_of_ok h⟩⟩
      · exact .inr ⟨hyes, .inr ⟨hc, e, w', Prog.bind_of_error h, hu⟩⟩
    refine hends.congr ?_ fun _ => ?_
    · simp only [Env.answers_add w.db, hn, true_and, World.after_db]
      exact ⟨fun h => ⟨h.1, h.2.2⟩, fun h => ⟨h.1, ⟨a, ha⟩, h.2⟩⟩
    · constructor
      · rintro ⟨a', ha', h⟩
        rw [ha] at ha'
        rwa [Except.ok.inj ha']
      · exact fun h => ⟨a, ha, h⟩
  · obtain ⟨e, k, h⟩ := hm.error w hfirst
    exact .inl ⟨fun hw => hfirst ⟨((Env.answers_add w.db).1 hw.1).1, hw.2.1⟩, e, k, Prog.bind_of_error h⟩

end Put

/-! ## The requests -/

namespace PutRequest

/-- the reads of a patch of a VM before its status: the object twice and its spec -/
def patchVmReads (E : Env δ) (pk : String) : Io δ (Vm δ × VmSpec δ × Vm δ) := do
  let vm ← readVm E pk
  let row ← readSpec E vm.spec.key
  let old ← ofExcept (tryToVmSpec E row)
  let vm' ← readVm E pk
  return (vm, old, vm')

theorem reads_patchVm (E : Env δ) (pk : String) :
    Reads E (patchVmReads E pk) 3 fun db => do
        let vm ← objectOf (vmFormat E) db pk
        let row ← orNotFound "SpecDb" (db.specs.find vm.spec.key)
        let old ← tryToVmSpec E row
        let vm' ← objectOf (vmFormat E) db pk
        return (vm, old, vm') :=
  reads_bind (reads_readObj pk) fun _ => reads_bind (reads_query _) fun _ =>
    reads_bind (reads_ofExcept _) fun _ => reads_bind (reads_readObj pk) fun _ => reads_pure _

/-- they all find the same object -/
theorem patchVm_found {db : Tables δ} {pk : String} {a : Vm δ × VmSpec δ × Vm δ} :
    (do
      let vm ← objectOf (vmFormat E) db pk
      let row ← orNotFound "SpecDb" (db.specs.find vm.spec.key)
      let old ← tryToVmSpec E row
      let vm' ← objectOf (vmFormat E) db pk
      return (vm, old, vm')) = Except.ok a ↔ ∃ vm, objectOf (vmFormat E) db pk = .ok vm ∧ a = (vm, vm.spec, vm) := by
  cases hobj : objectOf (vmFormat E) db pk with
  | error e => simp [bind, Except.bind]
  | ok vm =>
    obtain ⟨row, hrow, hread⟩ := find_specKey_of_objectOf hobj
    change db.specs.find vm.spec.key = some row at hrow
    change tryToVmSpec E row = .ok vm.spec at hread
    simp [bind, Except.bind, pure, Except.pure, hrow, orNotFound, hread, eq_comm]

/-- the reads of a revert: the spec it goes back to -/
theorem reads_history (E : Env δ) (history : Uuid) :
    Reads E (readSpec E history >>= fun row => ofExcept (tryToCargoSpec E row)) 1
      fun db => orNotFound "SpecDb" (db.specs.find history) >>= fun row => tryToCargoSpec E row :=
  reads_bind (reads_query _) fun _ => reads_ofExcept _

theorem history_found {db : Tables δ} {history : Uuid} {spec : CargoSpec δ} :
    (orNotFound "SpecDb" (db.specs.find history) >>= fun row => tryToCargoSpec E row) = .ok spec ↔
      ∃ row, db.specs.find history = some row ∧ tryToCargoSpec E row = .ok spec := by
  cases hrow : db.specs.find history with
  | none => simp [orNotFound, bind, Except.bind]
  | some row => simp [orNotFound, bind, Except.bind]

/-! ### Each request as reads and a put -/

theorem run_patchCargo (pk : String) (obj : CargoObjPatchIn δ) :
    (patchCargo pk obj).run E = (do
      let cargo ← readObj E (cargoFormat E) pk
      let _ ← putFrom E (cargoFormat E) pk pk (patchCargoSpec cargo.spec obj.spec) obj.version
      return ()) := bind_assoc ..

theorem run_revertCargo (pk : String) (history : Uuid) (version : String) :
    (revertCargo pk history version).run E = (do
      let spec ← readSpec E history >>= fun row => ofExcept (tryToCargoSpec E row)
      let _ ← putFrom E (cargoFormat E) pk pk spec.toCargoSpecPartial version
      return ()) := by
  simp only [run, Objects.revertCargo, Objects.putCargo, bind_assoc]

theorem run_putVm (pk : String) (obj : VmObjPutIn δ) :
    (putVm pk obj).run E = (do
      let vm ← readObj E (vmFormat E) pk
      let _ ← putFrom E (vmFormat E) pk vm.spec.vmKey obj.spec obj.version
      return ()) := bind_assoc ..

theorem run_patchVm (pk : String) (obj : VmObjPatchIn δ) :
    (patchVm pk obj).run E = (do
      let a ← patchVmReads E pk
      let _ ← putFrom E (vmFormat E) pk a.2.2.spec.vmKey (patchVmSpec a.1.spec.name a.2.1 obj.spec) obj.version
      return ()) := by
  simp only [run, Objects.patchVm, Objects.putVm, patchVmReads, bind_assoc, pure_bind]

theorem putCargo_ends (pk : String) (obj : CargoObjPutIn δ) (w : World δ) :
    Ends pk ((putCargo pk obj).run E) w ((putCargo pk obj).StatusWritten E w) ((putCargo pk obj).Completes E w) := by
  refine (reads_put_ends (F := cargoFormat E) (reads_pure ()) pk (fun _ => pk) (fun _ => obj.spec)
    (fun _ => obj.version) w).congr ?_ fun _ => ?_
  · exact ⟨fun h => ⟨h.answers, ⟨(), rfl⟩, h.status⟩, fun h => ⟨h.1, trivial, h.2.2⟩⟩
  · exact ⟨fun h => ⟨(), rfl, h.answers, h.readable, h.uuid⟩, fun ⟨_, _, h⟩ => ⟨h.answers, h.readable, h.uuid⟩⟩

theorem patchCargo_ends (pk : String) (obj : CargoObjPatchIn δ) (w : World δ) :
    Ends pk ((patchCargo pk obj).run E) w ((patchCargo pk obj).StatusWritten E w)
      ((patchCargo pk obj).Completes E w) := by
  rw [run_patchCargo]
  refine (reads_put_ends (reads_readObj pk) pk (fun _ => pk) (fun cargo => patchCargoSpec cargo.spec obj.spec)
    (fun _ => obj.version) w).congr ?_ fun hw => ?_
  · exact ⟨fun h => ⟨h.answers, h.prepared, h.status⟩, fun h => ⟨h.1, h.2.1, h.2.2⟩⟩
  · obtain ⟨cargo, hcargo⟩ := hw.2.1
    exact ⟨fun h => ⟨cargo, hcargo, h.answers, h.readable, h.uuid⟩, fun ⟨_, _, h⟩ => ⟨h.answers, h.readable, h.uuid⟩⟩

theorem revertCargo_ends (pk : String) (history : Uuid) (version : String) (w : World δ) :
    Ends pk ((revertCargo pk history version).run E) w ((revertCargo pk history version).StatusWritten E w)
      ((revertCargo pk history version).Completes E w) := by
  rw [run_revertCargo]
  refine (reads_put_ends (F := cargoFormat E) (reads_history E history) pk (fun _ => pk)
    (fun spec => spec.toCargoSpecPartial) (fun _ => version) w).congr ?_ fun hw => ?_
  · refine ⟨fun h => ⟨h.answers, ?_, h.status⟩, fun h => ⟨h.1, ?_, h.2.2⟩⟩
    · obtain ⟨row, spec, hrow⟩ := h.prepared
      exact ⟨spec, history_found.2 ⟨row, hrow⟩⟩
    · obtain ⟨spec, hspec⟩ := h.2.1
      obtain ⟨row, hrow⟩ := history_found.1 hspec
      exact ⟨row, spec, hrow⟩
  · obtain ⟨spec, hspec⟩ := hw.2.1
    exact ⟨fun h => ⟨spec, hspec, h.answers, h.readable, h.uuid⟩, fun ⟨_, _, h⟩ => ⟨h.answers, h.readable, h.uuid⟩⟩

theorem putVm_ends (pk : String) (obj : VmObjPutIn δ) (w : World δ) :
    Ends pk ((putVm pk obj).run E) w ((putVm pk obj).StatusWritten E w) ((putVm pk obj).Completes E w) := by
  rw [run_putVm]
  have hreads := reads_readObj (E := E) (F := vmFormat E) pk
  refine (reads_put_ends (F := vmFormat E) hreads pk (fun vm => vm.spec.vmKey) (fun _ => obj.spec)
    (fun _ => obj.version) w).congr ?_ fun hw => ?_
  · exact ⟨fun h => ⟨h.answers, h.prepared, h.status⟩, fun h => ⟨h.1, h.2.1, h.2.2⟩⟩
  · obtain ⟨vm, hvm⟩ := hw.2.1
    have hkey : (putVm pk obj).updateKey E w.db = vm.spec.vmKey := by
      simp only [updateKey, kind, PutRequest.pk, hvm]
    constructor
    · intro h
      exact ⟨vm, hvm, h.answers, hkey ▸ h.readable, h.uuid⟩
    · rintro ⟨vm', hvm', h⟩
      obtain rfl := Except.ok.inj (hvm.symm.trans hvm')
      exact ⟨h.answers, hkey ▸ h.readable, h.uuid⟩

theorem patchVm_ends (pk : String) (obj : VmObjPatchIn δ) (w : World δ) :
    Ends pk ((patchVm pk obj).run E) w ((patchVm pk obj).StatusWritten E w) ((patchVm pk obj).Completes E w) := by
  rw [run_patchVm]
  refine (reads_put_ends (reads_patchVm E pk) pk (fun a => a.2.2.spec.vmKey)
    (fun a => patchVmSpec a.1.spec.name a.2.1 obj.spec) (fun _ => obj.version) w).congr ?_ fun hw => ?_
  · refine ⟨fun h => ⟨h.answers, ?_, h.status⟩, fun h => ⟨h.1, ?_, h.2.2⟩⟩
    · obtain ⟨vm, hvm⟩ := h.prepared
      exact ⟨_, patchVm_found.2 ⟨vm, hvm, rfl⟩⟩
    · obtain ⟨a, ha⟩ := h.2.1
      obtain ⟨vm, hvm, -⟩ := patchVm_found.1 ha
      exact ⟨vm, hvm⟩
  · obtain ⟨a, ha⟩ := hw.2.1
    obtain ⟨vm, hvm, rfl⟩ := patchVm_found.1 ha
    have hkey : (patchVm pk obj).updateKey E w.db = vm.spec.vmKey := by
      simp only [updateKey, kind, PutRequest.pk, hvm]
    constructor
    · intro h
      exact ⟨_, ha, h.answers, hkey ▸ h.readable, h.uuid⟩
    · rintro ⟨a', ha', h⟩
      obtain rfl := Except.ok.inj (ha.symm.trans ha')
      exact ⟨h.answers, hkey ▸ h.readable, h.uuid⟩

/-- **How a request ends**: before the status is written, with all done, or in between. -/
theorem run_ends (req : PutRequest δ) (w : World δ) :
    Ends req.pk (req.run E) w (req.StatusWritten E w) (req.Completes E w) := by
  cases req with
  | putCargo pk obj => exact putCargo_ends pk obj w
  | patchCargo pk obj => exact patchCargo_ends pk obj w
  | revertCargo pk history version => exact revertCargo_ends pk history version w
  | putVm pk obj => exact putVm_ends pk obj w
  | patchVm pk obj => exact patchVm_ends pk obj w

/-- a request returns exactly if it writes the status and nothing goes wrong after that -/
theorem run_ok_iff (req : PutRequest δ) (w : World δ) :
    (∃ u, (req.run E w).1 = .ok u) ↔ req.StatusWritten E w ∧ req.Completes E w := by
  rcases req.run_ends (E := E) w with ⟨hno, e, n, hrun⟩ | ⟨hyes, ⟨hc, u, w', hrun⟩ | ⟨hc, e, w', hrun, -⟩⟩
  · rw [hrun]
    exact iff_of_false (fun ⟨u, h⟩ => by cases h) fun h => hno h.1
  · rw [hrun]
    exact iff_of_true ⟨u, rfl⟩ ⟨hyes, hc⟩
  · rw [hrun]
    exact iff_of_false (fun ⟨u, h⟩ => by cases h) fun h => hc h.2

end PutRequest

/-- **A request that fails leaves the object as it was exactly if it fails before it writes the status**, on an object
that was not updating already. Every failure after that leaves it updating. -/
theorem put_left_iff (E : Env δ) (req : PutRequest δ) (w : World δ) :
    (∀ e w', req.run E w = (.error e, w') → LeftAsItWas req.kind req.pk w.db w'.db) ↔
      (req.StatusWritten E w → req.Completes E w) ∧ (¬ req.StatusWritten E w → ¬ Updating w.db req.pk) := by
  rcases req.run_ends (E := E) w with ⟨hno, e, n, hrun⟩ | ⟨hyes, ⟨hc, u, w', hrun⟩ | ⟨hc, e, w', hrun, hu⟩⟩
  · constructor
    · intro h
      exact ⟨fun hyes => absurd hyes hno, fun _ => (h e _ hrun).notUpdating⟩
    · rintro ⟨-, h⟩ e' w' h'
      obtain ⟨-, rfl⟩ := Prod.mk.inj (hrun.symm.trans h')
      exact ⟨rfl, rfl, rfl, rfl, h hno⟩
  · constructor
    · exact fun _ => ⟨fun _ => hc, fun hno => absurd hyes hno⟩
    · intro _ e' w'' h'
      cases (Prod.mk.inj (hrun.symm.trans h')).1
  · constructor
    · exact fun h => absurd hu (h e w' hrun).notUpdating
    · exact fun h => absurd (h.1 hyes) hc

/-- a put on the cargo `web.global` whose insertion of the spec fails leaves the cargo updating, wanted start -/
theorem put_leaves_updating :
    let E : Env Value := { Env.plain with fault := fun n => if n = 6 then some (internalServerError "connection lost") else none }
    let req : PutRequest Value := .putCargo "web.global" ⟨webSpec, "v0.16"⟩
    ∃ e w', req.run E webWorld = (.error e, w') ∧ ¬ LeftAsItWas .cargo "web.global" webWorld.db w'.db := by
  intro E req
  refine ⟨internalServerError "connection lost", (req.run E webWorld).2, Prod.ext ?_ rfl, fun h => ?_⟩
  · decide
  · have hs := h.status
    revert hs
    decide

end Nanocl.Objects
