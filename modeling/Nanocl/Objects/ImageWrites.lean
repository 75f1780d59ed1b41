/-
What the requests on VM images write. Each of them writes one file at most, whose path gives its name away, and adds one
row at most. A run of `qemu-img` that fails may leave the file missing, and an import or the pass at the start removes a
file that is no image (`Discards`).

- `createSnap_wrote`, `cloneImage_wrote`, `createImage_wrote`: the file that is written, with what it holds afterwards.
- `registeredName_image`: the pass at the start finds the name of an image in the name of its file.
-/
import Nanocl.Objects.VmImage

namespace Nanocl.Objects

open Nanocl.Lib

variable {δ : Type} (E : Env δ)

/-- a row that a request or the pass at the start may add: its path gives its name away, and a base has no parent -/
structure Registered (row : VmImageDb) : Prop where
  named : ∃ file, row.path = E.stateDir ++ "/vms/images/" ++ file ∧ registeredName file = row.name
  base : row.kind = .base → row.parent = none

/-- the file at `path` was written, and a row was added or not -/
def Wrote (path : String) (content : Option String) (w w' : World δ) : Prop :=
  ∃ k t, (t = w.db.vmImages ∨ ∃ row, Registered E row ∧ w.db.vmImages.insert row = some t) ∧
    w' = (w.setFile path content).after k { w.db with vmImages := t }

/-- from call `n` on, `vm_image::create` finds that the file is no image, and its removal answers -/
def Discards (n : ℕ) (path : String) : Prop :=
  ¬ (E.fault n = none ∧ (E.qemu (n + 1) ["info", "--output=json", path]).success) ∧ E.fault (n + 1) = none

/-- the file of an image after the run of `qemu-img convert` -/
def cloneContent (w : World δ) (name : String) (image : VmImageDb) : Option String :=
  (E.qemu (w.calls + 2) ["convert", "-p", "-O", "qcow2", "-c", image.path, imagePath E name]).written
    (w.files (imagePath E name))

/-- `validate_name` accepts the name -/
def ValidImageName (name : String) : Prop := name.toList.all fun c => c.isAlphanum || c = '-' || c = '_'

/-- a snapshot or a clone of an image gets as far as writing its file -/
structure CopyBegins (w : World δ) (name target : String) (image : VmImageDb) : Prop where
  valid : ValidImageName target
  answers : E.fault w.calls = none
  found : w.db.vmImages.find name = some image
  begins : SnapBegins E (w.after 1 w.db) target image

/-- an import gets as far as `vm_image::create`: its whole content is written -/
structure ImportArrives (w : World δ) (name : String) : Prop where
  valid : ValidImageName name
  unused : E.fault w.calls ≠ none ∨ w.db.vmImages.find name = none
  answers : E.fault (w.calls + 1) = none ∧ E.fault (w.calls + 2) = none
  whole : E.payload (w.calls + 3) = none

/-- the pass at the start gets as far as `vm_image::create` for a file -/
structure SyncBegins (w : World δ) (file : String) : Prop where
  there : (w.files (E.stateDir ++ "/vms/images/" ++ file)).isSome
  unused : E.fault w.calls ≠ none ∨ w.db.vmImages.find (registeredName file) = none

/-- the body of the loop of `sync_vm_images`, with the listing of the directory -/
def syncFile (w : World δ) (file : String) : World δ :=
  if (w.files (E.stateDir ++ "/vms/images/" ++ file)).isSome then (syncVmImage E file w).2 else w

variable {E}

/-! ## Names and paths -/

theorem registeredName_image (name : String) : registeredName (name ++ ".img") = name := by
  have hsplit : (name ++ ".img").toList.splitOn '.' = name.toList.splitOn '.' ++ [['i', 'm', 'g']] := by
    rw [String.toList_append]
    exact List.splitOn_append_cons_self name.toList ['i', 'm', 'g']
  have hne : name.toList.splitOn '.' ≠ [] := List.splitOn_ne_nil '.' name.toList
  unfold registeredName
  rw [hsplit]
  cases hparts : name.toList.splitOn '.' with
  | nil => exact absurd hparts hne
  | cons a parts =>
    have hback : [ '.'].intercalate (name.toList.splitOn '.') = name.toList := List.intercalate_splitOn '.'
    rw [hparts] at hback
    have hdrop : (a :: parts ++ [['i', 'm', 'g']]).dropLast = a :: parts := List.dropLast_concat
    cases parts with
    | nil =>
      change String.ofList (List.intercalate ['.'] [a]) = name
      rw [hback, String.ofList_toList]
    | cons b parts =>
      change String.ofList (List.intercalate ['.'] (a :: b :: parts ++ [['i', 'm', 'g']]).dropLast) = name
      rw [hdrop, hback, String.ofList_toList]

theorem imagePath_eq (name : String) : imagePath E name = E.stateDir ++ "/vms/images/" ++ (name ++ ".img") :=
  String.append_assoc

theorem append_left_inj {a b c : String} (h : a ++ b = a ++ c) : b = c := by
  have hlist := congrArg String.toList h
  simp only [String.toList_append] at hlist
  exact String.toList_injective (List.append_cancel_left hlist)

/-- two images at one path bear one name -/
theorem Registered.name_of_path {row : VmImageDb} (h : Registered E row) {file : String}
    (hpath : row.path = E.stateDir ++ "/vms/images/" ++ file) : row.name = registeredName file := by
  obtain ⟨file', hfile, hname⟩ := h.named
  rw [← hname, append_left_inj (hfile.symm.trans hpath)]

theorem registered_imageRow {name path file : String} {kind : VmImageKind} {parent : Option String} {info : QemuImgInfo}
    (hpath : path = E.stateDir ++ "/vms/images/" ++ file) (hname : registeredName file = name)
    (hbase : kind = .base → parent = none) : Registered E (imageRow E name path kind parent info) :=
  ⟨⟨file, hpath, hname⟩, hbase⟩

/-! ## The file that is written -/

theorem wrote_setFile (w : World δ) (path : String) (content : Option String) (k : ℕ) :
    Wrote E path content w ((w.setFile path content).after k w.db) := ⟨k, w.db.vmImages, .inl rfl, rfl⟩

theorem setFile_self (w : World δ) (path : String) : w.setFile path (w.files path) = w := by
  rw [World.setFile, Function.update_eq_self]

/-- a file that is written again holds what was written last -/
theorem Wrote.setFile {path : String} {content content' : Option String} {w w' : World δ} {k : ℕ}
    (h : Wrote E path content' ((w.setFile path content).after k w.db) w') : Wrote E path content' w w' := by
  obtain ⟨k', t, ht, rfl⟩ := h
  refine ⟨k + k', t, ht, ?_⟩
  rw [World.setFile_after, World.setFile_setFile, World.after_after]
  rfl

theorem Wrote.after {path : String} {content : Option String} {w w' : World δ} {k : ℕ}
    (h : Wrote E path content (w.after k w.db) w') : Wrote E path content w w' := by
  obtain ⟨k', t, ht, rfl⟩ := h
  refine ⟨k + k', t, ht, ?_⟩
  rw [World.setFile_after, World.after_after]
  rfl

/-- the insertion of a row, whatever the database answers -/
theorem createVmImage_wrote {row : VmImageDb} (hrow : Registered E row) (path : String) {w w' : World δ}
    {r : Except HttpError VmImageDb} (h : createVmImage E row w = (r, w')) : Wrote E path (w.files path) w w' := by
  by_cases hok : E.fault w.calls = none ∧ w.db.vmImages.find row.name = none ∧ ParentFound w.db row
  · obtain ⟨t, ht, hrun⟩ := createVmImage_ok row hok.1 hok.2.1 hok.2.2
    rw [hrun] at h
    obtain ⟨rfl, rfl⟩ := Prod.mk.inj h
    exact ⟨1, t, .inr ⟨row, hrow, ht⟩, by rw [setFile_self]⟩
  · obtain ⟨e, hrun⟩ := createVmImage_error row hok
    rw [hrun] at h
    obtain ⟨rfl, rfl⟩ := Prod.mk.inj h
    exact ⟨1, w.db.vmImages, .inl rfl, by rw [setFile_self]; rfl⟩

theorem getInfo_world (path : String) (w : World δ) : (getInfo E path w).2 = w.tick := by
  by_cases h : E.fault w.calls = none ∧ (w.files path).isSome ∧
      (E.qemu (w.calls + 1) ["info", "--output=json", path]).success
  · rw [getInfo_ok h.1 h.2.1 h.2.2]
  · obtain ⟨e, hrun⟩ := getInfo_error path h
    rw [hrun]

/-- the snapshot of an image -/
theorem createSnap_wrote {name : String} {size : ℕ} {image : VmImageDb} {w w' : World δ} {r : Except HttpError VmImageDb}
    (h : createSnap E name size image w = (r, w')) :
    (¬ SnapBegins E w name image ∧ ∃ k, w' = w.after k w.db) ∨
      (SnapBegins E w name image ∧ Wrote E (imagePath E name) (snapContent E w name size image) w w') := by
  rcases createSnap_cases h with ⟨e, k, -, rfl, hno⟩ | ⟨hbegins, ⟨e, k, -, -, rfl⟩ | ⟨t, -, -, ht, -, rfl⟩⟩
  · exact .inl ⟨hno, k, rfl⟩
  · exact .inr ⟨hbegins, wrote_setFile w _ _ k⟩
  · have hrow : Registered E (snapRow E w name image) :=
      registered_imageRow (imagePath_eq name) (registeredName_image name) fun h => by cases h
    exact .inr ⟨hbegins, 5, t, .inr ⟨_, hrow, ht⟩, rfl⟩

/-- the clone of a snapshot -/
theorem cloneImage_wrote {name : String} {image : VmImageDb} {w w' : World δ} {r : Except HttpError VmImageDb}
    (h : cloneImage E name image w = (r, w')) :
    (¬ (image.kind = .snapshot ∧ SnapBegins E w name image) ∧ ∃ k, w' = w.after k w.db) ∨
      (image.kind = .snapshot ∧ SnapBegins E w name image ∧
        Wrote E (imagePath E name) (cloneContent E w name image) w w') := by
  unfold cloneImage at h
  by_cases hkind : image.kind = .snapshot
  swap
  · rw [if_pos hkind] at h
    obtain ⟨rfl, rfl⟩ := Prod.mk.inj h
    exact .inl ⟨fun hc => hkind hc.1, 0, rfl⟩
  rw [if_neg (not_not.2 hkind)] at h
  rcases ensureUnused_run (E := E) _ w with ⟨hno, e, hrun⟩ | ⟨hunused, hrun⟩
  · rw [Prog.bind_of_error hrun] at h
    obtain ⟨rfl, rfl⟩ := Prod.mk.inj h
    exact .inl ⟨fun hc => hno hc.2.unused, 1, rfl⟩
  · rw [Prog.bind_of_ok hrun] at h
    by_cases hconvert : E.fault (w.calls + 1) = none ∧ (w.files image.path).isSome
    · refine .inr ⟨hkind, ⟨hunused, hconvert.1, hconvert.2⟩, ?_⟩
      set run := E.qemu (w.calls + 2) ["convert", "-p", "-O", "qcow2", "-c", image.path, imagePath E name] with hrundef
      have hrun₁ : qemuWrite E ["convert", "-p", "-O", "qcow2", "-c", image.path, imagePath E name] image.path
          (imagePath E name) "Failed to convert snapshot to base" w.tick =
          (if run.success then .ok () else .error (internalServerError "Failed to convert snapshot to base"),
            (w.setFile (imagePath E name) (cloneContent E w name image)).after 2 w.db) :=
        qemuWrite_runs hconvert.1 hconvert.2
      by_cases hok : run.success
      · rw [if_pos hok] at hrun₁
        rw [Prog.bind_of_ok hrun₁] at h
        set w₂ := (w.setFile (imagePath E name) (cloneContent E w name image)).after 2 w.db with hw₂
        have hworld := getInfo_world (E := E) (imagePath E name) w₂
        rcases hinfo : getInfo E (imagePath E name) w₂ with ⟨e | info, w₃⟩
        · rw [hinfo] at hworld
          obtain rfl : w₃ = w₂.tick := hworld
          rw [Prog.bind_of_error hinfo] at h
          obtain ⟨rfl, rfl⟩ := Prod.mk.inj h
          exact wrote_setFile w _ _ 3
        · rw [hinfo] at hworld
          obtain rfl : w₃ = w₂.tick := hworld
          rw [Prog.bind_of_ok hinfo] at h
          have hrow : Registered E (imageRow E name (imagePath E name) .base none info) :=
            registered_imageRow (imagePath_eq name) (registeredName_image name) fun _ => rfl
          have hwrote := createVmImage_wrote hrow (imagePath E name) h
          have hfile : w₂.tick.files (imagePath E name) = cloneContent E w name image := World.setFile_files ..
          rw [hfile] at hwrote
          exact Wrote.setFile (k := 3) hwrote
      · rw [if_neg hok] at hrun₁
        rw [Prog.bind_of_error hrun₁] at h
        obtain ⟨rfl, rfl⟩ := Prod.mk.inj h
        exact wrote_setFile w _ _ 2
    · obtain ⟨e, hfail⟩ : ∃ e, qemuWrite E ["convert", "-p", "-O", "qcow2", "-c", image.path, imagePath E name] image.path
          (imagePath E name) "Failed to convert snapshot to base" w.tick = (.error e, _) := qemuWrite_refused hconvert
      rw [Prog.bind_of_error hfail] at h
      obtain ⟨rfl, rfl⟩ := Prod.mk.inj h
      exact .inl ⟨fun hc => hconvert ⟨hc.2.answers, hc.2.backing⟩, 2, rfl⟩

/-- the registration of a file: one that is no image is removed -/
theorem createImage_wrote {name path : String} (hrow : ∀ info, Registered E (imageRow E name path .base none info))
    {w w' : World δ} (hfile : (w.files path).isSome) {r : Except HttpError VmImageDb}
    (h : createImage E name path w = (r, w')) :
    ∃ content, (content.isSome ↔ ¬ Discards E w.calls path) ∧ Wrote E path content w w' := by
  unfold createImage at h
  rw [Prog.bind_of_ok (Prog.run_attempt _ w)] at h
  by_cases hinfo : E.fault w.calls = none ∧ (E.qemu (w.calls + 1) ["info", "--output=json", path]).success
  · rw [getInfo_ok hinfo.1 hfile hinfo.2] at h
    refine ⟨w.tick.files path, iff_of_true hfile fun hd => hd.1 hinfo, ?_⟩
    exact Wrote.after (k := 1) (createVmImage_wrote (hrow _) _ h)
  · obtain ⟨e, hrun⟩ := getInfo_error (E := E) path (w := w) fun hg => hinfo ⟨hg.1, hg.2.2⟩
    rw [hrun] at h
    change (Prog.attempt (removeFile E path) >>= _) w.tick = _ at h
    rw [Prog.bind_of_ok (Prog.run_attempt _ _)] at h
    obtain ⟨rfl, rfl⟩ := Prod.mk.inj h
    rw [removeFile_world, World.tick_calls]
    by_cases hremoved : E.fault (w.calls + 1) = none
    · rw [if_pos hremoved]
      exact ⟨none, iff_of_false (by simp) fun hno => hno ⟨hinfo, hremoved⟩, wrote_setFile w path none 2⟩
    · rw [if_neg hremoved]
      refine ⟨w.files path, iff_of_true hfile fun hd => hremoved hd.2, 2, w.db.vmImages, .inl rfl, ?_⟩
      rw [setFile_self]
      rfl

/-! ## Requests -/

theorem validateName_ok {name : String} (h : ValidImageName name) (w : World δ) : validateName name w = (.ok (), w) :=
  congrFun (if_pos h) w

theorem validateName_error {name : String} (h : ¬ ValidImageName name) (w : World δ) :
    validateName name w = (.error (badRequest ("Vm image name " ++ name ++ " is invalid")), w) :=
  congrFun (if_neg h) w

/-- what a request does that checks the name of the new image, reads the image and copies it -/
theorem copy_cases (name target : String) (copy : VmImageDb → Io δ VmImageDb) (w : World δ) :
    let run := (do
      validateName target
      let image ← readVmImage E name
      let _ ← copy image
      return () : Io δ Unit) w
    (∃ k, run.2 = w.after k w.db ∧
      ¬ (ValidImageName target ∧ E.fault w.calls = none ∧ (w.db.vmImages.find name).isSome)) ∨
    ∃ image, ValidImageName target ∧ E.fault w.calls = none ∧ w.db.vmImages.find name = some image ∧
      run.2 = (copy image (w.after 1 w.db)).2 := by
  intro run
  by_cases hvalid : ValidImageName target
  swap
  · refine .inl ⟨0, ?_, fun h => hvalid h.1⟩
    exact congrArg Prod.snd (Prog.bind_of_error (validateName_error hvalid w))
  have hrun : run = (do
      let image ← readVmImage E name
      let _ ← copy image
      return () : Io δ Unit) w := Prog.bind_of_ok (validateName_ok hvalid w)
  rw [hrun]
  cases hf : E.fault w.calls with
  | some e =>
    refine .inl ⟨1, ?_, fun h => by cases h.2.1⟩
    exact congrArg Prod.snd (Prog.bind_of_error (by rw [readVmImage, query, call_of_fault hf]; rfl))
  | none =>
    cases hfind : w.db.vmImages.find name with
    | none =>
      refine .inl ⟨1, ?_, fun h => by simp at h⟩
      exact congrArg Prod.snd (Prog.bind_of_error (by rw [readVmImage, query_of_answer hf, hfind]; rfl))
    | some image =>
      refine .inr ⟨image, hvalid, rfl, rfl, ?_⟩
      rw [Prog.bind_of_ok (by rw [readVmImage, query_of_answer hf, hfind]; rfl)]
      exact Prog.snd_bind_pure (copy image) (fun _ => ()) (w.after 1 w.db)

theorem snapshotVmImage_wrote (name target : String) (w : World δ) :
    (∃ k, (snapshotVmImage E name target w).2 = w.after k w.db ∧ ∀ image, ¬ CopyBegins E w name target image) ∨
    ∃ image, CopyBegins E w name target image ∧
      Wrote E (imagePath E target) (snapContent E (w.after 1 w.db) target 50 image) w (snapshotVmImage E name target w).2 := by
  rcases copy_cases name target (createSnap E target 50) w with
    ⟨k, hrun, hno⟩ | ⟨image, hvalid, hf, hfind, hrun⟩
  · exact .inl ⟨k, hrun, fun image h => hno ⟨h.valid, h.answers, by rw [h.found]; rfl⟩⟩
  · rcases createSnap_wrote (rfl : createSnap E target 50 image (w.after 1 w.db) = (_, _)) with
      ⟨hno, k, hw⟩ | ⟨hbegins, hw⟩
    · refine .inl ⟨1 + k, hrun.trans (hw.trans (World.after_after ..)), fun image' h => hno ?_⟩
      rw [Option.some.inj (hfind.symm.trans h.found)]
      exact h.begins
    · exact .inr ⟨image, ⟨hvalid, hf, hfind, hbegins⟩, hrun ▸ hw.after⟩

theorem cloneVmImage_wrote (name target : String) (w : World δ) :
    (∃ k, (cloneVmImage E name target w).2 = w.after k w.db ∧
      ∀ image, ¬ (image.kind = .snapshot ∧ CopyBegins E w name target image)) ∨
    ∃ image, image.kind = .snapshot ∧ CopyBegins E w name target image ∧
      Wrote E (imagePath E target) (cloneContent E (w.after 1 w.db) target image) w (cloneVmImage E name target w).2 := by
  rcases copy_cases name target (cloneImage E target) w with
    ⟨k, hrun, hno⟩ | ⟨image, hvalid, hf, hfind, hrun⟩
  · exact .inl ⟨k, hrun, fun image h => hno ⟨h.2.valid, h.2.answers, by rw [h.2.found]; rfl⟩⟩
  · rcases cloneImage_wrote (rfl : cloneImage E target image (w.after 1 w.db) = (_, _)) with
      ⟨hno, k, hw⟩ | ⟨hkind, hbegins, hw⟩
    · refine .inl ⟨1 + k, hrun.trans (hw.trans (World.after_after ..)), fun image' h => hno ?_⟩
      rw [Option.some.inj (hfind.symm.trans h.2.found)]
      exact ⟨h.1, h.2.begins⟩
    · exact .inr ⟨image, hkind, ⟨hvalid, hf, hfind, hbegins⟩, hrun ▸ hw.after⟩

/-- a file is written whole, or what arrived of it -/
theorem writeFile_cases (path content msg : String) (w : World δ) :
    (E.fault w.calls ≠ none ∧ ∃ e, writeFile E path content msg w = (.error e, w.tick)) ∨
    ∃ c, E.fault w.calls = none ∧
      ((¬ (E.fault (w.calls + 1) = none ∧ E.payload (w.calls + 2) = none) ∧
          ∃ e, writeFile E path content msg w = (.error e, (w.setFile path (some c)).after 2 w.db)) ∨
        (E.fault (w.calls + 1) = none ∧ E.payload (w.calls + 2) = none ∧
          writeFile E path content msg w = (.ok (), (w.setFile path (some c)).after 2 w.db))) := by
  cases hf : E.fault w.calls with
  | some e => exact .inl ⟨Option.some_ne_none e, e, Prog.bind_of_error (call_of_fault hf)⟩
  | none =>
    refine .inr ?_
    set w₁ := (w.setFile path (some "")).after 1 w.db with hw₁
    have hcreate : call E (fun w => ((.ok () : Except HttpError Unit), w.setFile path (some ""))) w = (.ok (), w₁) :=
      call_of_answer hf
    have hrun : writeFile E path content msg w = _ := Prog.bind_of_ok hcreate
    have hagain : ∀ c, w₁.tick.setFile path c = (w.setFile path c).after 2 w.db := fun c =>
      congrArg (World.after · 2 w.db) (World.setFile_setFile w path (some "") c)
    cases hf1 : E.fault (w.calls + 1) with
    | some e => exact ⟨"", rfl, .inl ⟨fun h => Option.some_ne_none e h.1, e, hrun.trans (call_of_fault (w := w₁) hf1)⟩⟩
    | none =>
      rw [call_of_answer (w := w₁) hf1] at hrun
      have hcalls : w₁.tick.calls = w.calls + 2 := rfl
      cases hp : E.payload (w.calls + 2) with
      | none =>
        simp only [hcalls, hp] at hrun
        exact ⟨content, rfl, .inr ⟨rfl, rfl, hrun.trans (congrArg (Prod.mk _) (hagain _))⟩⟩
      | some part =>
        simp only [hcalls, hp] at hrun
        exact ⟨part, rfl, .inl ⟨fun h => Option.some_ne_none part h.2, _, hrun.trans (congrArg (Prod.mk _) (hagain _))⟩⟩

/-- an import leaves a file, unless it finds that it is no image -/
theorem importVmImage_wrote (name content : String) (w : World δ) :
    (∃ k, (importVmImage E name content w).2 = w.after k w.db ∧ ¬ ImportArrives E w name) ∨
    ∃ content', (content'.isSome ↔ ¬ (ImportArrives E w name ∧ Discards E (w.calls + 3) (imagePath E name))) ∧
      Wrote E (imagePath E name) content' w (importVmImage E name content w).2 := by
  unfold importVmImage
  by_cases hvalid : ValidImageName name
  swap
  · refine .inl ⟨0, ?_, fun h => hvalid h.valid⟩
    exact congrArg Prod.snd (Prog.bind_of_error (validateName_error hvalid w))
  rw [Prog.bind_of_ok (validateName_ok hvalid w)]
  rcases ensureUnused_run (E := E) name w with ⟨hno, e, hrun⟩ | ⟨hunused, hrun⟩
  · refine .inl ⟨1, ?_, fun h => hno h.unused⟩
    exact congrArg Prod.snd (Prog.bind_of_error hrun)
  rw [Prog.bind_of_ok hrun]
  rcases writeFile_cases (E := E) (imagePath E name) content ("Unable to create vm image " ++ name) w.tick with
    ⟨hf, e, hwrite⟩ | ⟨c, hf, ⟨hno, e, hwrite⟩ | ⟨hf2, hwhole, hwrite⟩⟩
  · exact .inl ⟨2, congrArg Prod.snd (Prog.bind_of_error hwrite), fun h => hf h.answers.1⟩
  · refine .inr ⟨some c, iff_of_true rfl fun h => hno ⟨h.1.answers.2, h.1.whole⟩, ?_⟩
    rw [Prog.bind_of_error hwrite]
    exact wrote_setFile w _ _ 3
  · have harrives : ImportArrives E w name := ⟨hvalid, hunused, ⟨hf, hf2⟩, hwhole⟩
    rw [Prog.bind_of_ok hwrite]
    set w₃ := (w.setFile (imagePath E name) (some c)).after 3 w.db with hw₃
    have hfile : (w₃.files (imagePath E name)).isSome := by
      rw [hw₃]
      exact (congrArg Option.isSome (World.setFile_files w (imagePath E name) (some c))).trans rfl
    have hrow : ∀ info, Registered E (imageRow E name (imagePath E name) .base none info) := fun info =>
      registered_imageRow (imagePath_eq name) (registeredName_image name) fun _ => rfl
    obtain ⟨content', hsome, hwrote⟩ := createImage_wrote hrow hfile (r := (createImage E name (imagePath E name) w₃).1) rfl
    refine .inr ⟨content', hsome.trans (not_congr ⟨fun hd => ⟨harrives, hd⟩, fun h => h.2⟩), ?_⟩
    change Wrote E _ _ w ((createImage E name (imagePath E name) >>= fun _ => pure ()) w₃).2
    rw [Prog.snd_bind_pure]
    exact Wrote.setFile (k := 3) hwrote

/-- the pass at the start leaves a file that it meets, unless it registers it and finds that it is no image -/
theorem syncFile_wrote (w : World δ) (file : String) :
    (¬ SyncBegins E w file ∧ ∃ k, syncFile E w file = w.after k w.db) ∨
    ∃ content, SyncBegins E w file ∧
      (content.isSome ↔ ¬ Discards E (w.calls + 1) (E.stateDir ++ "/vms/images/" ++ file)) ∧
      Wrote E (E.stateDir ++ "/vms/images/" ++ file) content w (syncFile E w file) := by
  by_cases hthere : (w.files (E.stateDir ++ "/vms/images/" ++ file)).isSome
  swap
  · exact .inl ⟨fun h => hthere h.there, 0, if_neg hthere⟩
  have hstep : syncFile E w file = (syncVmImage E file w).2 := if_pos hthere
  have hrow : ∀ info, Registered E (imageRow E (registeredName file) (E.stateDir ++ "/vms/images/" ++ file) .base none info) :=
    fun info => registered_imageRow rfl rfl fun _ => rfl
  rw [hstep, syncVmImage, Prog.bind_of_ok (Prog.run_attempt _ w)]
  have hworld : (readVmImage E (registeredName file) w).2 = w.tick := query_world _ w
  cases hread : (readVmImage E (registeredName file) w).1 with
  | ok row =>
    refine .inl ⟨fun h => ?_, 1, hworld⟩
    obtain ⟨hf, hfind, -⟩ := query_ok (Prod.ext hread rfl)
    rcases h.unused with hfault | hnone
    · exact hfault hf
    · rw [hnone] at hfind
      cases hfind
  | error e =>
    have hbegins : SyncBegins E w file := by
      refine ⟨hthere, ?_⟩
      by_contra hno
      rw [not_or, not_not] at hno
      obtain ⟨row, hrow⟩ := Option.ne_none_iff_exists'.1 hno.2
      rw [readVmImage, query_of_answer hno.1, hrow] at hread
      cases hread
    obtain ⟨content, hsome, hwrote⟩ := createImage_wrote hrow (w := w.tick) hthere
      (r := (createImage E (registeredName file) (E.stateDir ++ "/vms/images/" ++ file) w.tick).1) rfl
    refine .inr ⟨content, hbegins, hsome, ?_⟩
    rw [hworld]
    exact Wrote.after (k := 1) hwrote

end Nanocl.Objects
