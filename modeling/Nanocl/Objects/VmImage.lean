/-
VM images (`utils/vm_image.rs`, `services/vm_image`): a row of `vm_images` and a file under the state directory each.
The runs of `qemu-img` write the files; a run that fails may leave anything in the file it was to write. When the daemon
starts it registers the files that have no row (`system.rs::sync_vm_images`).
-/
import Nanocl.Objects.Repository

namespace Nanocl.Objects

open Nanocl.Lib

variable {δ : Type} (E : Env δ)

def World.setFile (w : World δ) (path : String) (content : Option String) : World δ :=
  { w with files := Function.update w.files path content }

/-- the path of the image of a name -/
def imagePath (name : String) : String := E.stateDir ++ "/vms/images/" ++ name ++ ".img"

/-! ## Tools -/

/-- a run of `qemu-img` that writes `target`; it needs the file `source` -/
def qemuWrite (args : List String) (source target msg : String) : Io δ Unit := call E fun w =>
  let run := E.qemu w.calls args
  if (w.files source).isSome then
    (if run.success then .ok () else .error (internalServerError msg), w.setFile target (run.written (w.files target)))
  else (.error (internalServerError msg), w)

/-- `get_info` -/
def getInfo (path : String) : Io δ QemuImgInfo := call E fun w =>
  let run := E.qemu w.calls ["info", "--output=json", path]
  if (w.files path).isSome ∧ run.success then (.ok run.info, w)
  else (.error (internalServerError ("Failed to get info of " ++ path)), w)

/-- `remove_file` -/
def removeFile (path : String) : Io δ Unit := call E fun w =>
  if (w.files path).isSome then (.ok (), w.setFile path none)
  else (.error (internalServerError "No such file or directory"), w)

/-- `File::create` and the writes after it -/
def writeFile (path content msg : String) : Io δ Unit := do
  call E fun w => (.ok (), w.setFile path (some ""))
  call E fun w =>
    match E.payload w.calls with
    | none => (.ok (), w.setFile path (some content))
    | some part => (.error (internalServerError msg), w.setFile path (some part))

/-! ## Operations -/

/-- `validate_name` -/
def validateName (name : String) : Io δ Unit :=
  if name.toList.all fun c => c.isAlphanum || c = '-' || c = '_' then pure ()
  else Prog.fail (badRequest ("Vm image name " ++ name ++ " is invalid"))

/-- no image bears the name; a lookup that fails counts as none -/
def ensureUnused (name : String) : Io δ Unit := do
  match ← Prog.attempt (readVmImage E name) with
  | .ok _ => Prog.fail (conflict ("Vm image " ++ name ++ " already used"))
  | .error _ => pure ()

/-- `vm_image::delete_by_pk`: whether the file could be removed does not matter -/
def deleteVmImage (pk : String) : Io δ Unit := do
  let image ← readVmImage E pk
  let children ← readVmImagesByParent E pk
  if children ≠ [] then
    Prog.fail (conflict ("Vm image " ++ pk ++ " has children images please delete them first"))
  else do
    let _ ← (Prog.attempt (removeFile E image.path) : Io δ (Except HttpError Unit))
    delVmImage E pk

/-- the row of an image whose file `qemu-img info` described -/
def imageRow (name path : String) (kind : VmImageKind) (parent : Option String) (info : QemuImgInfo) : VmImageDb :=
  ⟨name, E.hostname, kind, path, info.format, info.actualSize, info.virtualSize, parent⟩

/-- `create_snap` -/
def createSnap (name : String) (size : ℕ) (image : VmImageDb) : Io δ VmImageDb := do
  ensureUnused E name
  let path := imagePath E name
  qemuWrite E ["create", "-F", "qcow2", "-f", "qcow2", "-b", image.path, path] image.path path
    ("Failed to create snapshot " ++ name)
  qemuWrite E ["resize", path, toString size ++ "G"] path path ("Failed to resize snapshot " ++ name)
  let info ← getInfo E path
  createVmImage E (imageRow E name path .snapshot (some image.name) info)

/-- `clone`, with the conversion it spawns -/
def cloneImage (name : String) (image : VmImageDb) : Io δ VmImageDb :=
  if image.kind ≠ .snapshot then Prog.fail (badRequest ("Vm image " ++ name ++ " is not a snapshot"))
  else do
    ensureUnused E name
    let path := imagePath E name
    qemuWrite E ["convert", "-p", "-O", "qcow2", "-c", image.path, path] image.path path
      "Failed to convert snapshot to base"
    let info ← getInfo E path
    createVmImage E (imageRow E name path .base none info)

/-- `vm_image::create`: a file that is no image is removed -/
def createImage (name path : String) : Io δ VmImageDb := do
  match ← Prog.attempt (getInfo E path) with
  | .error e => do
    let _ ← (Prog.attempt (removeFile E path) : Io δ (Except HttpError Unit))
    Prog.fail e
  | .ok info => createVmImage E (imageRow E name path .base none info)

/-! ## Requests -/

/-- `import_vm_image` -/
def importVmImage (name content : String) : Io δ Unit := do
  validateName name
  ensureUnused E name
  writeFile E (imagePath E name) content ("Unable to create vm image " ++ name)
  let _ ← createImage E name (imagePath E name)
  return ()

/-- `snapshot_vm_image` -/
def snapshotVmImage (name snapshotName : String) : Io δ Unit := do
  validateName snapshotName
  let image ← readVmImage E name
  let _ ← createSnap E snapshotName 50 image
  return ()

/-- `clone_vm_image` -/
def cloneVmImage (name cloneName : String) : Io δ Unit := do
  validateName cloneName
  let image ← readVmImage E name
  let _ ← cloneImage E cloneName image
  return ()

/-- the name under which a file is registered: its own up to the last dot -/
def registeredName (fileName : String) : String :=
  match fileName.toList.splitOn '.' with
  | [] => ""
  | [single] => String.ofList single
  | parts => String.ofList (List.intercalate ['.'] parts.dropLast)

/-- the body of the loop of `sync_vm_images` -/
def syncVmImage (fileName : String) : Io δ Unit := do
  let name := registeredName fileName
  match ← Prog.attempt (readVmImage E name) with
  | .ok _ => pure ()
  | .error _ => do
    let _ ← (Prog.attempt (createImage E name (E.stateDir ++ "/vms/images/" ++ fileName)) : Io δ (Except HttpError VmImageDb))

/-- `sync_vm_images`, over the files of the directory as they are listed -/
def syncVmImages (files : List String) : Io δ Unit := do
  call E fun w => (.ok (), w)
  Prog.forEach files fun file => do
    let w ← Prog.get
    if (w.files (E.stateDir ++ "/vms/images/" ++ file)).isSome then syncVmImage E file

/-! ## What a deletion does -/

section Delete

variable {E}

@[simp] theorem World.setFile_db (w : World δ) (path : String) (content : Option String) :
    (w.setFile path content).db = w.db := rfl

@[simp] theorem World.setFile_files (w : World δ) (path : String) (content : Option String) :
    (w.setFile path content).files path = content := Function.update_self ..

@[simp] theorem World.setFile_setFile (w : World δ) (path : String) (content content' : Option String) :
    (w.setFile path content).setFile path content' = w.setFile path content' := by
  simp [World.setFile]

@[simp] theorem World.setFile_calls (w : World δ) (path : String) (content : Option String) :
    (w.setFile path content).calls = w.calls := rfl

theorem World.setFile_after (w : World δ) (n : ℕ) (db : Tables δ) (path : String) (content : Option String) :
    (w.after n db).setFile path content = (w.setFile path content).after n db := rfl

/-- after the removal of a file it is gone, unless the call failed -/
theorem removeFile_world (path : String) (w : World δ) :
    (removeFile E path w).2 = if E.fault w.calls = none then w.tick.setFile path none else w.tick := by
  cases hf : E.fault w.calls with
  | some e => rw [removeFile, call_of_fault hf, if_neg (by simp)]
  | none =>
    rw [removeFile, call_of_answer hf, if_pos rfl]
    by_cases hfile : (w.tick.files path).isSome
    · rw [if_pos hfile]
    · have hnone : none = w.tick.files path := (Option.not_isSome_iff_eq_none.1 hfile).symm
      rw [if_neg hfile, World.setFile, Function.update_eq_self_iff.2 hnone]

theorem removeFile_db (path : String) (w : World δ) : (removeFile E path w).2.db = w.db := by
  rw [removeFile_world]
  split <;> rfl

theorem removeFile_calls (path : String) (w : World δ) : (removeFile E path w).2.calls = w.calls + 1 := by
  rw [removeFile_world]
  split <;> rfl

/-- an image without children -/
def Leaf (db : Tables δ) (name : String) : Prop := ∀ i ∈ db.vmImages.rows, i.parent ≠ some name

theorem children_eq_nil {db : Tables δ} {name : String} :
    newest (db.vmImages.rows.filter fun i => i.parent = some name) = [] ↔ Leaf db name := by
  rw [newest, List.take_eq_nil_iff, List.reverse_eq_nil_iff, List.filter_eq_nil_iff]
  simp [Leaf]

theorem deleteVmImageRow_of_leaf {db : Tables δ} {name : String} (h : Leaf db name) :
    deleteVmImageRow E name db = .ok { db with vmImages := db.vmImages.delete name } := by
  rw [deleteVmImageRow, if_neg]
  rw [List.any_eq_true]
  rintro ⟨i, hi, hp⟩
  exact h i hi (of_decide_eq_true hp)

/-- **What the deletion of an image does**: nothing, where it is not found or has children; else it removes the file,
and then the row unless that fails. -/
theorem deleteVmImage_cases {pk : String} {w w' : World δ} {r : Except HttpError Unit}
    (h : deleteVmImage E pk w = (r, w')) :
    (∃ e k, r = .error e ∧ w' = w.after k w.db ∧
      ¬ (E.Answers w 2 ∧ (w.db.vmImages.find pk).isSome ∧ Leaf w.db pk)) ∨
    ∃ image, E.Answers w 2 ∧ w.db.vmImages.find pk = some image ∧ Leaf w.db pk ∧
      ((∃ e, r = .error e ∧ E.fault (w.calls + 3) ≠ none ∧ w' = (removeFile E image.path (w.after 2 w.db)).2.tick) ∨
        (r = .ok () ∧ E.fault (w.calls + 3) = none ∧
          w' = (removeFile E image.path (w.after 2 w.db)).2.after 1 { w.db with vmImages := w.db.vmImages.delete pk })) := by
  have hreads : Reads E (do
      let image ← readVmImage E pk
      let children ← readVmImagesByParent E pk
      return (image, children) : Io δ (VmImageDb × List VmImageDb)) 2 _ :=
    reads_bind (reads_query _) fun _ => reads_bind (reads_query _) fun _ => reads_pure _
  have hrun : deleteVmImage E pk = (do
      let p ← (do
        let image ← readVmImage E pk
        let children ← readVmImagesByParent E pk
        return (image, children) : Io δ (VmImageDb × List VmImageDb))
      if p.2 ≠ [] then
        Prog.fail (conflict ("Vm image " ++ pk ++ " has children images please delete them first"))
      else do
        let _ ← (Prog.attempt (removeFile E p.1.path) : Io δ (Except HttpError Unit))
        delVmImage E pk) := by
    simp only [deleteVmImage, bind_assoc, pure_bind]
  rw [hrun] at h
  by_cases hok : E.Answers w 2 ∧ (w.db.vmImages.find pk).isSome
  · obtain ⟨hn, hfind⟩ := hok
    obtain ⟨image, himage⟩ := Option.isSome_iff_exists.1 hfind
    rw [Prog.bind_of_ok (hreads.ok w (image, newest (w.db.vmImages.rows.filter fun i => i.parent = some pk)) hn
      (by rw [himage]; rfl))] at h
    by_cases hleaf : Leaf w.db pk
    · rw [if_neg (by simpa using children_eq_nil.2 hleaf), Prog.bind_of_ok (Prog.run_attempt _ _)] at h
      set w₁ := (removeFile E image.path (w.after 2 w.db)).2 with hw₁
      have hdb : w₁.db = w.db := removeFile_db _ _
      have hcalls : w₁.calls = w.calls + 3 := removeFile_calls _ _
      refine .inr ⟨image, hn, himage, hleaf, ?_⟩
      cases hf : E.fault (w.calls + 3) with
      | some e =>
        rw [delVmImage, exec, call_of_fault (by rw [hcalls, hf])] at h
        obtain ⟨rfl, rfl⟩ := Prod.mk.inj h
        exact .inl ⟨e, rfl, Option.some_ne_none _, rfl⟩
      | none =>
        rw [delVmImage, exec_of_ok (by rw [hcalls, hf]) (deleteVmImageRow_of_leaf (hdb ▸ hleaf))] at h
        obtain ⟨rfl, rfl⟩ := Prod.mk.inj h
        exact .inr ⟨rfl, rfl, by rw [hdb]⟩
    · rw [if_pos (by simpa using fun h => hleaf (children_eq_nil.1 h))] at h
      obtain ⟨rfl, rfl⟩ := Prod.mk.inj h
      exact .inl ⟨_, 2, rfl, rfl, fun h => hleaf h.2.2⟩
  · obtain ⟨e, k, hfail⟩ := hreads.error w fun hread => by
      obtain ⟨hn, p, hp⟩ := hread
      refine hok ⟨hn, ?_⟩
      cases himage : w.db.vmImages.find pk with
      | some image => rfl
      | none => simp [himage, orNotFound, bind, Except.bind] at hp
    rw [Prog.bind_of_error hfail] at h
    obtain ⟨rfl, rfl⟩ := Prod.mk.inj h
    exact .inl ⟨e, k, rfl, rfl, fun h => hok ⟨h.1, h.2.1⟩⟩

end Delete

/-! ## What a snapshot does -/

section Snapshot

variable {E}

theorem qemuWrite_refused {args : List String} {source target msg : String} {w : World δ}
    (h : ¬ (E.fault w.calls = none ∧ (w.files source).isSome)) :
    ∃ e, qemuWrite E args source target msg w = (.error e, w.tick) := by
  cases hf : E.fault w.calls with
  | some e => exact ⟨e, by rw [qemuWrite, call_of_fault hf]⟩
  | none =>
    refine ⟨internalServerError msg, ?_⟩
    rw [qemuWrite, call_of_answer hf]
    exact if_neg fun hs => h ⟨hf, hs⟩

theorem qemuWrite_runs {args : List String} {source target msg : String} {w : World δ} (hf : E.fault w.calls = none)
    (hs : (w.files source).isSome) :
    qemuWrite E args source target msg w =
      (if (E.qemu (w.calls + 1) args).success then .ok () else .error (internalServerError msg),
        w.tick.setFile target ((E.qemu (w.calls + 1) args).written (w.files target))) := by
  rw [qemuWrite, call_of_answer hf]
  exact if_pos hs

/-- a run on a file that was written before -/
theorem qemuWrite_again {args : List String} {path msg : String} {content : Option String} {w : World δ} {k : ℕ}
    (hf : E.fault (w.calls + k) = none) (hc : content.isSome) :
    qemuWrite E args path path msg ((w.setFile path content).after k w.db) =
      (if (E.qemu (w.calls + k + 1) args).success then .ok () else .error (internalServerError msg),
        (w.setFile path ((E.qemu (w.calls + k + 1) args).written content)).after (k + 1) w.db) := by
  have hfile : ((w.setFile path content).after k w.db).files path = content := World.setFile_files ..
  rw [qemuWrite_runs hf (by rw [hfile]; exact hc), hfile]
  exact congrArg (Prod.mk _) (congrArg (World.after · (k + 1) w.db) (World.setFile_setFile w path _ _))

theorem getInfo_ok {path : String} {w : World δ} (hf : E.fault w.calls = none) (hs : (w.files path).isSome)
    (hrun : (E.qemu (w.calls + 1) ["info", "--output=json", path]).success) :
    getInfo E path w = (.ok (E.qemu (w.calls + 1) ["info", "--output=json", path]).info, w.tick) := by
  rw [getInfo, call_of_answer hf]
  exact if_pos ⟨hs, hrun⟩

theorem getInfo_error (path : String) {w : World δ} (h : ¬ (E.fault w.calls = none ∧ (w.files path).isSome ∧
    (E.qemu (w.calls + 1) ["info", "--output=json", path]).success)) :
    ∃ e, getInfo E path w = (.error e, w.tick) := by
  cases hf : E.fault w.calls with
  | some e => exact ⟨e, by rw [getInfo, call_of_fault hf]⟩
  | none =>
    refine ⟨internalServerError ("Failed to get info of " ++ path), ?_⟩
    rw [getInfo, call_of_answer hf]
    exact if_neg fun hs => h ⟨hf, hs⟩

/-- the parent of a row is there -/
def ParentFound (db : Tables δ) (row : VmImageDb) : Prop := ∀ p, row.parent = some p → (db.vmImages.find p).isSome

theorem createVmImage_ok (row : VmImageDb) {w : World δ} (hf : E.fault w.calls = none)
    (hfree : w.db.vmImages.find row.name = none) (hparent : ParentFound w.db row) :
    ∃ t, w.db.vmImages.insert row = some t ∧
      createVmImage E row w = (.ok row, w.after 1 { w.db with vmImages := t }) := by
  have hins : w.db.vmImages.insert row ≠ none := fun h => Table.insert_eq_none.1 h hfree
  obtain ⟨t, ht⟩ := Option.ne_none_iff_exists'.1 hins
  refine ⟨t, ht, Prog.bind_of_ok (exec_of_ok hf ?_)⟩
  rw [insertVmImage, ht]
  refine if_pos ?_
  cases hp : row.parent with
  | none => rfl
  | some p => exact hparent p hp

theorem createVmImage_error (row : VmImageDb) {w : World δ}
    (h : ¬ (E.fault w.calls = none ∧ w.db.vmImages.find row.name = none ∧ ParentFound w.db row)) :
    ∃ e, createVmImage E row w = (.error e, w.tick) := by
  cases hf : E.fault w.calls with
  | some e => exact ⟨e, Prog.bind_of_error (by rw [exec, call_of_fault hf])⟩
  | none =>
    cases hins : w.db.vmImages.insert row with
    | none => exact ⟨uniqueViolation E "VmImageDb", Prog.bind_of_error (exec_of_error hf (by rw [insertVmImage, hins]))⟩
    | some t =>
      refine ⟨invalidData E "VmImageDb", Prog.bind_of_error (exec_of_error hf ?_)⟩
      rw [insertVmImage, hins]
      refine if_neg fun hp => h ⟨hf, (Table.insert_eq_some.1 hins).1, fun p hrow => ?_⟩
      rw [hrow] at hp
      exact hp

theorem ensureUnused_run (name : String) (w : World δ) :
    (¬ (E.fault w.calls ≠ none ∨ w.db.vmImages.find name = none) ∧ ∃ e, ensureUnused E name w = (.error e, w.tick)) ∨
      ((E.fault w.calls ≠ none ∨ w.db.vmImages.find name = none) ∧ ensureUnused E name w = (.ok (), w.tick)) := by
  unfold ensureUnused
  rw [Prog.bind_of_ok (Prog.run_attempt _ w)]
  cases hf : E.fault w.calls with
  | some e =>
    refine .inr ⟨.inl (Option.some_ne_none e), ?_⟩
    rw [readVmImage, query, call_of_fault hf]
    rfl
  | none =>
    rw [readVmImage, query_of_answer hf]
    cases hfind : w.db.vmImages.find name with
    | some row => exact .inl ⟨fun h => h.elim (fun h => h rfl) (Option.some_ne_none row), _, rfl⟩
    | none => exact .inr ⟨.inr rfl, rfl⟩

variable (E) in
/-- the run of `qemu-img create` in `create_snap` -/
def snapCreate (w : World δ) (name : String) (image : VmImageDb) : QemuRun :=
  E.qemu (w.calls + 2) ["create", "-F", "qcow2", "-f", "qcow2", "-b", image.path, imagePath E name]

variable (E) in
/-- the run of `qemu-img resize` -/
def snapResize (w : World δ) (name : String) (size : ℕ) : QemuRun :=
  E.qemu (w.calls + 3) ["resize", imagePath E name, toString size ++ "G"]

variable (E) in
/-- the run of `qemu-img info` -/
def snapInfo (w : World δ) (name : String) : QemuRun := E.qemu (w.calls + 4) ["info", "--output=json", imagePath E name]

/-- `create_snap` gets as far as `qemu-img create`: the name is not used, or could not be looked up -/
structure SnapBegins (E : Env δ) (w : World δ) (name : String) (image : VmImageDb) : Prop where
  unused : E.fault w.calls ≠ none ∨ w.db.vmImages.find name = none
  answers : E.fault (w.calls + 1) = none
  backing : (w.files image.path).isSome

variable (E) in
/-- what the file of the snapshot holds after the runs that were made -/
def snapContent (w : World δ) (name : String) (size : ℕ) (image : VmImageDb) : Option String :=
  let content := (snapCreate E w name image).written (w.files (imagePath E name))
  if (snapCreate E w name image).success ∧ E.fault (w.calls + 2) = none then (snapResize E w name size).written content
  else content

/-- the runs succeed and the row of the snapshot is stored -/
structure SnapStored (E : Env δ) (w : World δ) (name : String) (size : ℕ) (image : VmImageDb) : Prop where
  created : (snapCreate E w name image).success
  resized : (snapResize E w name size).success
  described : (snapInfo E w name).success
  answers : E.fault (w.calls + 2) = none ∧ E.fault (w.calls + 3) = none ∧ E.fault (w.calls + 4) = none
  free : w.db.vmImages.find name = none
  parent : (w.db.vmImages.find image.name).isSome

variable (E) in
/-- the row of the snapshot -/
def snapRow (w : World δ) (name : String) (image : VmImageDb) : VmImageDb :=
  imageRow E name (imagePath E name) .snapshot (some image.name) (snapInfo E w name).info

/-- what `create_snap` does once the file is created -/
theorem snapRest_cases {name : String} {size : ℕ} {image : VmImageDb} {content : Option String} {w w' : World δ}
    {r : Except HttpError VmImageDb} (hcontent : content.isSome)
    (h : (do
      qemuWrite E ["resize", imagePath E name, toString size ++ "G"] (imagePath E name) (imagePath E name)
        ("Failed to resize snapshot " ++ name)
      let info ← getInfo E (imagePath E name)
      createVmImage E (imageRow E name (imagePath E name) .snapshot (some image.name) info) : Io δ VmImageDb)
        ((w.setFile (imagePath E name) content).after 2 w.db) = (r, w')) :
    let last := if E.fault (w.calls + 2) = none then (snapResize E w name size).written content else content
    let stored := (snapResize E w name size).success ∧ (snapInfo E w name).success ∧
      (E.fault (w.calls + 2) = none ∧ E.fault (w.calls + 3) = none ∧ E.fault (w.calls + 4) = none) ∧
      w.db.vmImages.find name = none ∧ (w.db.vmImages.find image.name).isSome
    (∃ e k, r = .error e ∧ ¬ stored ∧ w' = (w.setFile (imagePath E name) last).after k w.db) ∨
      ∃ t, r = .ok (snapRow E w name image) ∧ stored ∧ w.db.vmImages.insert (snapRow E w name image) = some t ∧
        last.isSome ∧ w' = (w.setFile (imagePath E name) last).after 5 { w.db with vmImages := t } := by
  intro last stored
  by_cases hf2 : E.fault (w.calls + 2) = none
  · have hlast : last = (snapResize E w name size).written content := if_pos hf2
    have hrun : qemuWrite E ["resize", imagePath E name, toString size ++ "G"] (imagePath E name) (imagePath E name)
        ("Failed to resize snapshot " ++ name) ((w.setFile (imagePath E name) content).after 2 w.db) =
        (if (snapResize E w name size).success then .ok () else
          .error (internalServerError ("Failed to resize snapshot " ++ name)),
          (w.setFile (imagePath E name) last).after 3 w.db) := by
      rw [hlast]
      exact qemuWrite_again hf2 hcontent
    by_cases hok : (snapResize E w name size).success
    · rw [if_pos hok] at hrun
      rw [Prog.bind_of_ok hrun] at h
      have hsome : last.isSome := hlast ▸ (snapResize E w name size).isSome_written hok content
      have hfile : ((w.setFile (imagePath E name) last).after 3 w.db).files (imagePath E name) = last :=
        World.setFile_files ..
      by_cases hinfo : E.fault (w.calls + 3) = none ∧ (snapInfo E w name).success
      · have hgot : getInfo E (imagePath E name) ((w.setFile (imagePath E name) last).after 3 w.db) =
            (.ok (snapInfo E w name).info, (w.setFile (imagePath E name) last).after 4 w.db) :=
          getInfo_ok hinfo.1 (by rw [hfile]; exact hsome) hinfo.2
        rw [Prog.bind_of_ok hgot] at h
        change createVmImage E (snapRow E w name image) _ = _ at h
        by_cases hrow : E.fault (w.calls + 4) = none ∧ w.db.vmImages.find name = none ∧
            ParentFound w.db (snapRow E w name image)
        · obtain ⟨t, ht, hcreated⟩ := createVmImage_ok (E := E) (snapRow E w name image)
            (w := (w.setFile (imagePath E name) last).after 4 w.db) hrow.1 hrow.2.1 hrow.2.2
          rw [hcreated] at h
          obtain ⟨rfl, rfl⟩ := Prod.mk.inj h
          exact .inr ⟨t, rfl, ⟨hok, hinfo.2, ⟨hf2, hinfo.1, hrow.1⟩, hrow.2.1, hrow.2.2 _ rfl⟩, ht, hsome, rfl⟩
        · obtain ⟨e, hfail⟩ := createVmImage_error (E := E) (snapRow E w name image)
            (w := (w.setFile (imagePath E name) last).after 4 w.db) hrow
          rw [hfail] at h
          obtain ⟨rfl, rfl⟩ := Prod.mk.inj h
          refine .inl ⟨e, 5, rfl, fun hs => hrow ⟨hs.2.2.1.2.2, hs.2.2.2.1, fun p hp => ?_⟩, rfl⟩
          obtain rfl := Option.some.inj hp
          exact hs.2.2.2.2
      · obtain ⟨e, hfail⟩ := getInfo_error (E := E) (imagePath E name)
          (w := (w.setFile (imagePath E name) last).after 3 w.db) fun hg => hinfo ⟨hg.1, hg.2.2⟩
        rw [Prog.bind_of_error hfail] at h
        obtain ⟨rfl, rfl⟩ := Prod.mk.inj h
        exact .inl ⟨e, 4, rfl, fun hs => hinfo ⟨hs.2.2.1.2.1, hs.2.1⟩, rfl⟩
    · rw [if_neg hok] at hrun
      rw [Prog.bind_of_error hrun] at h
      obtain ⟨rfl, rfl⟩ := Prod.mk.inj h
      exact .inl ⟨_, 3, rfl, fun hs => hok hs.1, rfl⟩
  · have hlast : last = content := if_neg hf2
    obtain ⟨e, hfail⟩ : ∃ e, qemuWrite E ["resize", imagePath E name, toString size ++ "G"] (imagePath E name)
        (imagePath E name) ("Failed to resize snapshot " ++ name) ((w.setFile (imagePath E name) content).after 2 w.db) =
        (.error e, _) := qemuWrite_refused fun hg => hf2 hg.1
    rw [Prog.bind_of_error hfail] at h
    obtain ⟨rfl, rfl⟩ := Prod.mk.inj h
    exact .inl ⟨e, 3, rfl, fun hs => hf2 hs.2.2.1.1, by rw [hlast]; rfl⟩

/-- **What a snapshot does**: nothing; or it writes the file, without a row; or it stores the row too. -/
theorem createSnap_cases {name : String} {size : ℕ} {image : VmImageDb} {w w' : World δ}
    {r : Except HttpError VmImageDb} (h : createSnap E name size image w = (r, w')) :
    (∃ e k, r = .error e ∧ w' = w.after k w.db ∧ ¬ SnapBegins E w name image) ∨
    (SnapBegins E w name image ∧
      ((∃ e k, r = .error e ∧ ¬ SnapStored E w name size image ∧
          w' = (w.setFile (imagePath E name) (snapContent E w name size image)).after k w.db) ∨
        (∃ t, r = .ok (snapRow E w name image) ∧ SnapStored E w name size image ∧
          w.db.vmImages.insert (snapRow E w name image) = some t ∧ (snapContent E w name size image).isSome ∧
          w' = (w.setFile (imagePath E name) (snapContent E w name size image)).after 5 { w.db with vmImages := t }))) := by
  unfold createSnap at h
  rcases ensureUnused_run (E := E) _ w with ⟨hno, e, hrun⟩ | ⟨hunused, hrun⟩
  · rw [Prog.bind_of_error hrun] at h
    obtain ⟨rfl, rfl⟩ := Prod.mk.inj h
    exact .inl ⟨e, 1, rfl, rfl, fun hb => hno hb.unused⟩
  · rw [Prog.bind_of_ok hrun] at h
    by_cases hcreate : E.fault (w.calls + 1) = none ∧ (w.files image.path).isSome
    · refine .inr ⟨⟨hunused, hcreate.1, hcreate.2⟩, ?_⟩
      have hrun₁ : qemuWrite E ["create", "-F", "qcow2", "-f", "qcow2", "-b", image.path, imagePath E name] image.path
          (imagePath E name) ("Failed to create snapshot " ++ name) w.tick =
          (if (snapCreate E w name image).success then .ok () else
            .error (internalServerError ("Failed to create snapshot " ++ name)),
            (w.setFile (imagePath E name) ((snapCreate E w name image).written (w.files (imagePath E name)))).after 2 w.db) :=
        qemuWrite_runs hcreate.1 hcreate.2
      by_cases hok : (snapCreate E w name image).success
      · rw [if_pos hok] at hrun₁
        rw [Prog.bind_of_ok hrun₁] at h
        have hcontent : snapContent E w name size image = if E.fault (w.calls + 2) = none then
            (snapResize E w name size).written ((snapCreate E w name image).written (w.files (imagePath E name)))
            else (snapCreate E w name image).written (w.files (imagePath E name)) := by
          simp only [snapContent, hok, true_and]
        rw [hcontent]
        rcases snapRest_cases ((snapCreate E w name image).isSome_written hok _) h with
          ⟨e, k, hr, hno, hw⟩ | ⟨t, hr, ⟨h1, h2, h3, h4, h5⟩, ht, hsome, hw⟩
        · exact .inl ⟨e, k, hr, fun hs => hno ⟨hs.resized, hs.described, hs.answers, hs.free, hs.parent⟩, hw⟩
        · exact .inr ⟨t, hr, ⟨hok, h1, h2, h3, h4, h5⟩, ht, hsome, hw⟩
      · rw [if_neg hok] at hrun₁
        rw [Prog.bind_of_error hrun₁] at h
        obtain ⟨rfl, rfl⟩ := Prod.mk.inj h
        refine .inl ⟨_, 2, rfl, fun hs => hok hs.created, ?_⟩
        rw [snapContent, if_neg fun h => hok h.1]
    · obtain ⟨e, hfail⟩ : ∃ e, qemuWrite E ["create", "-F", "qcow2", "-f", "qcow2", "-b", image.path, imagePath E name]
          image.path (imagePath E name) ("Failed to create snapshot " ++ name) w.tick = (.error e, _) :=
        qemuWrite_refused hcreate
      rw [Prog.bind_of_error hfail] at h
      obtain ⟨rfl, rfl⟩ := Prod.mk.inj h
      exact .inl ⟨e, 2, rfl, rfl, fun hb => hcreate ⟨hb.answers, hb.backing⟩⟩

end Snapshot

end Nanocl.Objects
