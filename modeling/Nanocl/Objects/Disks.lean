/-
The disks of VMs. The spec of a VM names the snapshot that was made for it; the rows of the images, their files and the
specs are written by different requests, which do not look at each other.

- `DisksOwned`: the disk of each VM is a snapshot whose file and parents are there, and no two VMs name the same one.
- `DiskInv`: what carries it through a run. The spec of a VM bears its key, and the path of an image gives its name away.
- `disks_owned_iff`: along a run it holds after every operation exactly if no image that a VM names is deleted, no deletion
  of a VM stops between the image and the VM's row, and no file in use is lost where the lookup of its image fails.
- `deleted_under_vm`: the request that deletes an image only looks for its children, not for VMs.
-/
import Nanocl.Objects.ImageWrites
import Nanocl.Objects.Keys
import Nanocl.Lib.Chain

namespace Nanocl.Objects

open Nanocl.Lib Nanocl.Status

variable {δ : Type} (E : Env δ)

/-- the disk that the current spec of a VM names -/
def diskOf (db : Tables δ) (row : ObjectDb) : Option String := do
  let s ← db.specs.find row.specKey
  let spec ← (tryToVmSpec E s).toOption
  return spec.disk.image

/-- an image is in the chain of the image of a name -/
def World.ImageChain (w : World δ) (name : String) (image : VmImageDb) : Prop :=
  OnChain w.db.vmImages.find VmImageDb.parent name image

/-- an image, its parents and their files are there -/
def World.ImageBacked (w : World δ) (name : String) : Prop :=
  Backed w.db.vmImages.find VmImageDb.parent (fun image => (w.files image.path).isSome) name

/-- **The disks of the VMs** -/
structure DisksOwned (w : World δ) : Prop where
  backed : ∀ row ∈ w.db.vms.rows, ∃ disk image, diskOf E w.db row = some disk ∧
    w.db.vmImages.find disk = some image ∧ image.kind = .snapshot ∧ w.ImageBacked disk
  distinct : ∀ row ∈ w.db.vms.rows, ∀ row' ∈ w.db.vms.rows, ∀ disk,
    diskOf E w.db row = some disk → diskOf E w.db row' = some disk → row = row'

/-! ## Operations -/

/-- a start makes two passes, over the containers and then, unless that fails, over the files of the images -/
inductive DiskOp (δ : Type) where
  | createVm (obj : VmObjCreateIn δ)
  | patchVm (pk : String) (obj : VmObjPatchIn δ)
  | delVm (pk : String)
  /-- the task of the Destroying event of a VM -/
  | deleteTask (key : String)
  | importImage (name content : String)
  | snapshotImage (name target : String)
  | cloneImage (name target : String)
  | deleteImage (pk : String)
  | startProcesses (containers : List (Sync.ContainerSummary × Inspected))
  | startImages (files : List String)

def DiskOp.run : DiskOp δ → Io δ Unit
  | createVm obj => do
    let _ ← Objects.createVm E obj
    return ()
  | patchVm pk obj => (PutRequest.patchVm pk obj).run E
  | delVm pk => do
    let _ ← Objects.delVm E pk
    return ()
  | deleteTask key => deleteVmTask E key
  | importImage name content => importVmImage E name content
  | snapshotImage name target => snapshotVmImage E name target
  | cloneImage name target => cloneVmImage E name target
  | deleteImage pk => deleteVmImage E pk
  | startProcesses containers => syncProcesses E containers
  | startImages files => syncVmImages E files

def diskStep (w : World δ) (op : DiskOp δ) : World δ := (op.run E w).2

/-! ## The condition -/

/-- the file of an image in the chain of a VM's disk -/
def Used (w : World δ) (path : String) : Prop :=
  ∃ row ∈ w.db.vms.rows, ∃ disk, diskOf E w.db row = some disk ∧ ∃ image, w.ImageChain disk image ∧ image.path = path

/-- the pass at the start does not remove a file in use: it does so where the lookup of its image fails -/
def SyncSpares (w : World δ) (file : String) : Prop :=
  let path := E.stateDir ++ "/vms/images/" ++ file
  SyncBegins E w file → Used E w path → ¬ Discards E (w.calls + 1) path

/-- the operation loses no disk -/
def DiskOp.Spares (w : World δ) : DiskOp δ → Prop
  | createVm obj => ∀ image, VmPrepared E w obj image → SnapBegins E (w.after 2 w.db) (obj.snapName image) image →
      Used E w (imagePath E (obj.snapName image)) →
        (snapContent E (w.after 2 w.db) (obj.snapName image) obj.size image).isSome
  -- neither the file nor the row of the image goes while the row of the VM stays
  | deleteTask key => ∀ vm, E.Answers w 5 → objectOf (vmFormat E) w.db key = .ok vm → Leaf w.db vm.spec.disk.image →
      if E.fault (w.calls + 6) = none then E.fault (w.calls + 7) = none else E.fault (w.calls + 5) ≠ none
  | importImage name _ => ImportArrives E w name → Used E w (imagePath E name) →
      ¬ Discards E (w.calls + 3) (imagePath E name)
  | snapshotImage name target => ∀ image, CopyBegins E w name target image → Used E w (imagePath E target) →
      (snapContent E (w.after 1 w.db) target 50 image).isSome
  | cloneImage name target => ∀ image, image.kind = .snapshot → CopyBegins E w name target image →
      Used E w (imagePath E target) → (cloneContent E (w.after 1 w.db) target image).isSome
  -- both the removal of the file and the deletion of the row fail
  | deleteImage pk => (∃ row ∈ w.db.vms.rows, diskOf E w.db row = some pk) → E.Answers w 2 → Leaf w.db pk →
      E.fault (w.calls + 2) ≠ none ∧ E.fault (w.calls + 3) ≠ none
  | startImages files => E.fault w.calls = none → Along (syncFile E) (SyncSpares E) w.tick files
  | _ => True

/-! ## The invariant of the proof -/

/-- the disks of the VMs, with what the operations need -/
structure DiskInv (w : World δ) : Prop extends DisksOwned E w where
  keyed : ∀ row ∈ w.db.vms.rows, ∃ s, w.db.specs.find row.specKey = some s ∧ s.kindKey = row.key
  registered : ∀ image ∈ w.db.vmImages.rows, Registered E image

variable {E}

theorem diskInv_of_empty {w : World δ} (hvms : w.db.vms.rows = []) (himages : w.db.vmImages.rows = []) : DiskInv E w := by
  refine ⟨⟨?_, ?_⟩, ?_, ?_⟩
  · intro row hrow
    simp [hvms] at hrow
  · intro row hrow
    simp [hvms] at hrow
  · intro row hrow
    simp [hvms] at hrow
  · intro image himage
    simp [himages] at himage

theorem diskOf_eq_some {db : Tables δ} {row : ObjectDb} {disk : String} :
    diskOf E db row = some disk ↔
      ∃ s spec, db.specs.find row.specKey = some s ∧ tryToVmSpec E s = .ok spec ∧ spec.disk.image = disk := by
  unfold diskOf
  cases hs : db.specs.find row.specKey with
  | none => simp
  | some s =>
    cases hread : tryToVmSpec E s with
    | error e => simp [hread, Except.toOption]
    | ok spec => simp [hread, Except.toOption]

theorem diskOf_mono {db db' : Tables δ} (hspecs : ∀ k s, db.specs.find k = some s → db'.specs.find k = some s)
    {row : ObjectDb} {disk : String} (h : diskOf E db row = some disk) : diskOf E db' row = some disk := by
  obtain ⟨s, spec, hs, hspec⟩ := diskOf_eq_some.1 h
  exact diskOf_eq_some.2 ⟨s, spec, hspecs _ s hs, hspec⟩

theorem World.ImageChain.mem {w : World δ} {name : String} {image : VmImageDb} (h : w.ImageChain name image) :
    image ∈ w.db.vmImages.rows ∧ w.db.vmImages.find image.name = some image := by
  obtain ⟨k, hk⟩ := OnChain.exists_find h
  rw [Table.key_of_find hk]
  exact ⟨(Table.find_eq_some.1 hk).1, hk⟩

/-- an image in use has its file -/
theorem DisksOwned.used_there {w : World δ} (h : DisksOwned E w) {path : String} (hused : Used E w path) :
    (w.files path).isSome := by
  obtain ⟨row, hrow, disk, hdisk, image, hchain, rfl⟩ := hused
  obtain ⟨disk', _, hdisk', -, -, hbacked⟩ := h.backed row hrow
  obtain rfl := Option.some.inj (hdisk.symm.trans hdisk')
  exact hbacked.of_onChain hchain

/-- two images with one path bear one name -/
theorem DiskInv.name_of_path {w : World δ} (h : DiskInv E w) {i j : VmImageDb} (hi : i ∈ w.db.vmImages.rows)
    (hj : j ∈ w.db.vmImages.rows) (hpath : i.path = j.path) : i.name = j.name := by
  obtain ⟨file, hfile, hname⟩ := (h.registered j hj).named
  rw [(h.registered i hi).name_of_path (hpath.trans hfile), hname]

/-- **What keeps the invariant**: each VM that is left was there, under its key and with its disk, and the chain of that
disk is still there -/
theorem DiskInv.transfer {w w' : World δ} (h : DiskInv E w)
    (hrows : ∀ r' ∈ w'.db.vms.rows, ∃ r ∈ w.db.vms.rows, r'.key = r.key ∧
      (∃ s, w'.db.specs.find r'.specKey = some s ∧ s.kindKey = r'.key) ∧
      ∀ disk, diskOf E w.db r = some disk → diskOf E w'.db r' = some disk ∧
        ∀ image, w.ImageChain disk image → w'.db.vmImages.find image.name = some image ∧ (w'.files image.path).isSome)
    (hnew : ∀ image ∈ w'.db.vmImages.rows, image ∈ w.db.vmImages.rows ∨ Registered E image) : DiskInv E w' := by
  have hdisk : ∀ r' ∈ w'.db.vms.rows, ∃ r ∈ w.db.vms.rows, r'.key = r.key ∧ ∃ disk image, diskOf E w.db r = some disk ∧
      diskOf E w'.db r' = some disk ∧ w'.db.vmImages.find disk = some image ∧ image.kind = .snapshot ∧
        w'.ImageBacked disk := by
    intro r' hr'
    obtain ⟨r, hr, hkey, -, hkept⟩ := hrows r' hr'
    obtain ⟨disk, image, hd, himage, hkind, hbacked⟩ := h.backed r hr
    obtain ⟨hd', hchain⟩ := hkept disk hd
    have himage' := (hchain image (.here himage)).1
    rw [Table.key_of_find himage] at himage'
    refine ⟨r, hr, hkey, disk, image, hd, hd', himage', hkind, hbacked.transfer (fun k i hk hi => ?_) fun i hi => ?_⟩
    · rw [← Table.key_of_find hk]
      exact (hchain i hi).1
    · exact (hchain i hi).2
  refine ⟨⟨fun r' hr' => ?_, fun r₁ hr₁ r₂ hr₂ disk h₁ h₂ => ?_⟩, fun r' hr' => ?_, fun image himage => ?_⟩
  · obtain ⟨r, -, -, disk, image, -, hrest⟩ := hdisk r' hr'
    exact ⟨disk, image, hrest⟩
  · obtain ⟨s₁, hs₁, hkey₁, d₁, -, hd₁, hd₁', -⟩ := hdisk r₁ hr₁
    obtain ⟨s₂, hs₂, hkey₂, d₂, -, hd₂, hd₂', -⟩ := hdisk r₂ hr₂
    obtain rfl := Option.some.inj (hd₁'.symm.trans h₁)
    obtain rfl := Option.some.inj (hd₂'.symm.trans h₂)
    apply Table.key_inj hr₁ hr₂
    rw [hkey₁, hkey₂, h.distinct s₁ hs₁ s₂ hs₂ _ hd₁ hd₂]
  · obtain ⟨r, -, -, hspec, -⟩ := hrows r' hr'
    exact hspec
  · exact (hnew image himage).elim (h.registered image) id

/-! ## Operations that only add -/

variable (E) in
/-- the VMs are the same, and no spec and no image is gone -/
structure Extends (w w' : World δ) : Prop where
  vms : w'.db.vms = w.db.vms
  specs : ∀ k s, w.db.specs.find k = some s → w'.db.specs.find k = some s
  images : ∀ name image, w.db.vmImages.find name = some image → w'.db.vmImages.find name = some image
  new : ∀ image ∈ w'.db.vmImages.rows, image ∈ w.db.vmImages.rows ∨ Registered E image

theorem Extends.refl (w : World δ) : Extends E w w := ⟨rfl, fun _ _ h => h, fun _ _ h => h, fun _ h => .inl h⟩

theorem Extends.trans {w w' w'' : World δ} (h : Extends E w w') (h' : Extends E w' w'') : Extends E w w'' where
  vms := h'.vms.trans h.vms
  specs k s hs := h'.specs k s (h.specs k s hs)
  images name image hi := h'.images name image (h.images name image hi)
  new image hi := (h'.new image hi).elim (h.new image) .inr

theorem Wrote.extends {path : String} {content : Option String} {w w' : World δ} (h : Wrote E path content w w') :
    Extends E w w' := by
  obtain ⟨k, t, ht, rfl⟩ := h
  refine ⟨rfl, fun _ _ hs => hs, fun name image hi => ?_, fun image hi => ?_⟩
  · rcases ht with rfl | ⟨row, -, ht⟩
    · exact hi
    · exact Table.find_insert_of_find ht hi
  · rcases ht with rfl | ⟨row, hrow, ht⟩
    · exact .inl hi
    · refine ((Table.mem_insert ht).1 hi).imp id fun heq => ?_
      rw [heq]
      exact hrow

theorem Wrote.files {path : String} {content : Option String} {w w' : World δ} (h : Wrote E path content w w')
    (p : String) : w'.files p = if p = path then content else w.files p := by
  obtain ⟨k, t, -, rfl⟩ := h
  exact Function.update_apply ..

/-- the invariant is kept if the files in use are -/
theorem DiskInv.extend {w w' : World δ} (h : DiskInv E w) (hx : Extends E w w')
    (hfiles : ∀ path, Used E w path → (w'.files path).isSome) : DiskInv E w' := by
  refine h.transfer (fun r hr => ?_) hx.new
  rw [hx.vms] at hr
  obtain ⟨s, hs, hkey⟩ := h.keyed r hr
  refine ⟨r, hr, rfl, ⟨s, hx.specs _ s hs, hkey⟩, fun disk hdisk => ⟨diskOf_mono hx.specs hdisk, fun image hchain => ?_⟩⟩
  exact ⟨hx.images _ image hchain.mem.2, hfiles image.path ⟨r, hr, disk, hdisk, image, hchain, rfl⟩⟩

/-- a file in use is in use still -/
theorem Used.mono {w w' : World δ} (hx : Extends E w w') {path : String} (h : Used E w path) : Used E w' path := by
  obtain ⟨row, hrow, disk, hdisk, image, hchain, rfl⟩ := h
  exact ⟨row, hx.vms ▸ hrow, disk, diskOf_mono hx.specs hdisk, image, hchain.mono hx.images, rfl⟩

theorem DiskInv.wrote {path : String} {content : Option String} {w w' : World δ} (h : DiskInv E w)
    (hw : Wrote E path content w w') (hc : Used E w path → content.isSome) : DiskInv E w' := by
  refine h.extend hw.extends fun p hp => ?_
  rw [hw.files]
  split_ifs with hpath
  · exact hc (hpath ▸ hp)
  · exact h.used_there hp

theorem Wrote.spares {path : String} {content : Option String} {w w' : World δ} (hw : Wrote E path content w w')
    (h' : DisksOwned E w') (hused : Used E w path) : content.isSome := by
  have hthere := h'.used_there (hused.mono hw.extends)
  rwa [hw.files, if_pos rfl] at hthere

theorem DiskInv.after {w : World δ} (h : DiskInv E w) (k : ℕ) : DiskInv E (w.after k w.db) :=
  h.extend ⟨rfl, fun _ _ h => h, fun _ _ h => h, fun _ h => .inl h⟩ fun _ hp => h.used_there hp

/-! ## Images -/

theorem snapshotImage_exact {w : World δ} (h : DiskInv E w) (name target : String) :
    ((DiskOp.snapshotImage name target).Spares E w → DiskInv E (diskStep E w (.snapshotImage name target))) ∧
      (DisksOwned E (diskStep E w (.snapshotImage name target)) → (DiskOp.snapshotImage name target).Spares E w) := by
  change (_ → DiskInv E (snapshotVmImage E name target w).2) ∧ (DisksOwned E (snapshotVmImage E name target w).2 → _)
  rcases snapshotVmImage_wrote (E := E) name target w with ⟨k, hrun, hno⟩ | ⟨image, hbegins, hw⟩
  · rw [hrun]
    exact ⟨fun _ => h.after k, fun _ image hbegins => absurd hbegins (hno image)⟩
  · refine ⟨fun hspares => h.wrote hw (hspares image hbegins), fun h' image' hbegins' hused => ?_⟩
    obtain rfl := Option.some.inj (hbegins.found.symm.trans hbegins'.found)
    exact hw.spares h' hused

theorem cloneImage_exact {w : World δ} (h : DiskInv E w) (name target : String) :
    ((DiskOp.cloneImage name target).Spares E w → DiskInv E (diskStep E w (.cloneImage name target))) ∧
      (DisksOwned E (diskStep E w (.cloneImage name target)) → (DiskOp.cloneImage name target).Spares E w) := by
  change (_ → DiskInv E (cloneVmImage E name target w).2) ∧ (DisksOwned E (cloneVmImage E name target w).2 → _)
  rcases cloneVmImage_wrote (E := E) name target w with ⟨k, hrun, hno⟩ | ⟨image, hkind, hbegins, hw⟩
  · rw [hrun]
    exact ⟨fun _ => h.after k, fun _ image hkind hbegins => absurd ⟨hkind, hbegins⟩ (hno image)⟩
  · refine ⟨fun hspares => h.wrote hw (hspares image hkind hbegins), fun h' image' _ hbegins' hused => ?_⟩
    obtain rfl := Option.some.inj (hbegins.found.symm.trans hbegins'.found)
    exact hw.spares h' hused

theorem importImage_exact {w : World δ} (h : DiskInv E w) (name content : String) :
    ((DiskOp.importImage name content).Spares E w → DiskInv E (diskStep E w (.importImage name content))) ∧
      (DisksOwned E (diskStep E w (.importImage name content)) → (DiskOp.importImage name content).Spares E w) := by
  change (_ → DiskInv E (importVmImage E name content w).2) ∧ (DisksOwned E (importVmImage E name content w).2 → _)
  rcases importVmImage_wrote (E := E) name content w with ⟨k, hrun, hno⟩ | ⟨c, hsome, hw⟩
  · rw [hrun]
    exact ⟨fun _ => h.after k, fun _ harrives => absurd harrives hno⟩
  · refine ⟨fun hspares => h.wrote hw fun hused => hsome.2 fun ⟨harrives, hd⟩ => hspares harrives hused hd, ?_⟩
    exact fun h' harrives hused hd => hsome.1 (hw.spares h' hused) ⟨harrives, hd⟩

/-! ### The pass at the start -/

theorem syncFile_extends (w : World δ) (file : String) : Extends E w (syncFile E w file) := by
  rcases syncFile_wrote (E := E) w file with ⟨-, k, hrun⟩ | ⟨c, -, -, hw⟩
  · rw [hrun]
    exact ⟨rfl, fun _ _ h => h, fun _ _ h => h, fun _ h => .inl h⟩
  · exact hw.extends

/-- the pass makes no file -/
theorem syncFile_files (w : World δ) (file path : String) (h : ((syncFile E w file).files path).isSome) :
    (w.files path).isSome := by
  rcases syncFile_wrote (E := E) w file with ⟨-, k, hrun⟩ | ⟨c, hbegins, -, hw⟩
  · rw [hrun] at h
    exact h
  · rw [hw.files] at h
    split_ifs at h with hpath
    · rw [hpath]
      exact hbegins.there
    · exact h

theorem syncFile_inv {w : World δ} (h : DiskInv E w) {file : String} (hspares : SyncSpares E w file) :
    DiskInv E (syncFile E w file) := by
  rcases syncFile_wrote (E := E) w file with ⟨-, k, hrun⟩ | ⟨c, hbegins, hsome, hw⟩
  · rw [hrun]
    exact h.after k
  · exact h.wrote hw fun hused => hsome.2 (hspares hbegins hused)

theorem syncFile_spares {w : World δ} {file : String}
    (hkept : ∀ path, Used E w path → ((syncFile E w file).files path).isSome) : SyncSpares E w file := by
  intro hbegins hused
  rcases syncFile_wrote (E := E) w file with ⟨hno, -⟩ | ⟨c, -, hsome, hw⟩
  · exact absurd hbegins hno
  · have hthere := hkept _ hused
    rw [hw.files, if_pos rfl] at hthere
    exact hsome.1 hthere

theorem syncFiles_extends (files : List String) (w : World δ) :
    Extends E w (run (syncFile E) w files) ∧ ∀ path, ((run (syncFile E) w files).files path).isSome → (w.files path).isSome := by
  induction files generalizing w with
  | nil => exact ⟨.refl w, fun _ h => h⟩
  | cons file files ih =>
    obtain ⟨hx, hfiles⟩ := ih (syncFile E w file)
    exact ⟨(syncFile_extends w file).trans hx, fun path h => syncFile_files w file path (hfiles path h)⟩

/-- if the disks are owned at the end of the pass, it spared the files in use all along: what is lost stays lost -/
theorem syncFiles_spares (files : List String) {w : World δ} (h' : DisksOwned E (run (syncFile E) w files)) :
    Along (syncFile E) (SyncSpares E) w files := by
  induction files generalizing w with
  | nil => trivial
  | cons file files ih =>
    refine ⟨syncFile_spares fun path hused => ?_, ih h'⟩
    obtain ⟨hx, hfiles⟩ := syncFiles_extends (E := E) files (syncFile E w file)
    exact hfiles path (h'.used_there (hused.mono ((syncFile_extends w file).trans hx)))

theorem syncVmImage_ok (file : String) (w : World δ) : (syncVmImage E file w).1 = .ok () := by
  rw [syncVmImage, Prog.bind_of_ok (Prog.run_attempt _ w)]
  cases (readVmImage E (registeredName file) w).1 <;> rfl

/-- the loop of the pass never fails, and folds its body -/
theorem syncVmImages_world (files : List String) (w : World δ) :
    (syncVmImages E files w).2 = if E.fault w.calls = none then run (syncFile E) w.tick files else w.tick := by
  unfold syncVmImages
  cases hf : E.fault w.calls with
  | some e =>
    rw [Prog.bind_of_error (call_of_fault hf), if_neg (by simp)]
  | none =>
    rw [Prog.bind_of_ok (call_of_answer hf), if_pos rfl]
    refine congrArg Prod.snd (Prog.forEach_eq_foldl (fun _ => True) (syncFile E) (fun file _ s _ => ⟨?_, trivial⟩) trivial).1
    rw [Prog.get_bind, syncFile]
    by_cases hthere : (s.files (E.stateDir ++ "/vms/images/" ++ file)).isSome
    · rw [if_pos hthere, if_pos hthere]
      exact Prog.eq_of_ok (syncVmImage_ok file s)
    · rw [if_neg hthere, if_neg hthere]
      rfl

theorem startImages_exact {w : World δ} (h : DiskInv E w) (files : List String) :
    ((DiskOp.startImages files).Spares E w → DiskInv E (diskStep E w (.startImages files))) ∧
      (DisksOwned E (diskStep E w (.startImages files)) → (DiskOp.startImages files).Spares E w) := by
  change (_ → DiskInv E (syncVmImages E files w).2) ∧ (DisksOwned E (syncVmImages E files w).2 → _)
  rw [syncVmImages_world]
  by_cases hf : E.fault w.calls = none
  · rw [if_pos hf]
    refine ⟨fun hspares => ?_, fun h' _ => syncFiles_spares files h'⟩
    exact inv_run (I := DiskInv E) (fun _ _ hs hC => syncFile_inv hs hC) (h.after 1) (hspares hf)
  · rw [if_neg hf]
    exact ⟨fun _ => h.after 1, fun _ hf' => absurd hf' hf⟩

/-! ## Requests that touch neither VMs nor images -/

variable (E) in
/-- nothing is gone, and the files are the same -/
structure Adds (w w' : World δ) : Prop extends Extends E w w' where
  files : w'.files = w.files

instance : IsPreorder (World δ) (Adds E) where
  refl w := ⟨.refl w, rfl⟩
  trans _ _ _ h h' := ⟨h.toExtends.trans h'.toExtends, h'.files.trans h.files⟩

theorem adds_after (w : World δ) (k : ℕ) : Adds E w (w.after k w.db) :=
  ⟨⟨rfl, fun _ _ h => h, fun _ _ h => h, fun _ h => .inl h⟩, rfl⟩

theorem DiskInv.adds {w w' : World δ} (h : DiskInv E w) (ha : Adds E w w') : DiskInv E w' :=
  h.extend ha.toExtends fun _ hp => ha.files ▸ h.used_there hp

theorem adds_query {α : Type} (f : Tables δ → Except HttpError α) : Prog.Keeps (Adds E) (query E f) := by
  intro w
  rw [query_world]
  exact adds_after w 1

/-- a statement that leaves the VMs, the specs and the images alone -/
theorem adds_exec {f : Tables δ → Except HttpError (Tables δ)}
    (hf : ∀ db db', f db = .ok db' → db'.vms = db.vms ∧ db'.specs = db.specs ∧ db'.vmImages = db.vmImages) :
    Prog.Keeps (Adds E) (exec E f) := by
  intro w
  rcases hrun : exec E f w with ⟨e | u, w'⟩
  · rw [exec_error hrun]
    exact adds_after w 1
  · obtain ⟨db, -, hdb, rfl⟩ := exec_ok hrun
    obtain ⟨hv, hspecs, himages⟩ := hf _ _ hdb
    exact ⟨⟨hv, fun k s h => hspecs ▸ h, fun k i h => himages ▸ h, fun i h => .inl (himages ▸ h)⟩, rfl⟩

theorem adds_updateStatus (pk : String) (u : ObjPsStatusUpdate) : Prog.Keeps (Adds E) (updateStatus E pk u) := by
  refine adds_exec fun db db' h => ?_
  unfold setStatus at h
  split at h
  · obtain rfl := Except.ok.inj h
    exact ⟨rfl, rfl, rfl⟩
  · cases h

theorem adds_createNamespace (row : NamespaceDb) : Prog.Keeps (Adds E) (createNamespace E row) := by
  refine adds_exec fun db db' h => ?_
  unfold insertNamespace at h
  split at h
  · obtain rfl := Except.ok.inj h
    exact ⟨rfl, rfl, rfl⟩
  · cases h

theorem adds_createCargo (obj : CargoObjCreateIn δ) : Prog.Keeps (Adds E) (createCargo E obj) := by
  intro w
  rcases hrun : createCargo E obj w with ⟨r, w'⟩
  rcases createCargo_cases hrun with ⟨e, k, -, rfl, -⟩ | ⟨t, -, ht, ⟨e, k, -, -, rfl⟩ | ⟨e, k, st, -, -, -, rfl⟩ |
    ⟨cargo, st, ct, -, -, -, -, rfl⟩⟩
  · exact adds_after w k
  · exact ⟨⟨rfl, find_insert_mono ht, fun _ _ h => h, fun _ h => .inl h⟩, rfl⟩
  · exact ⟨⟨rfl, find_insert_mono ht, fun _ _ h => h, fun _ h => .inl h⟩, rfl⟩
  · exact ⟨⟨rfl, find_insert_mono ht, fun _ _ h => h, fun _ h => .inl h⟩, rfl⟩

theorem adds_updateCargo (key : String) (item : CargoSpecPartial δ) (version : String) :
    Prog.Keeps (Adds E) (updateCargoFromSpec E key item version) := by
  intro w
  rcases hrun : updateFromSpec E (cargoFormat E) key item version w with ⟨r, w'⟩
  change Adds E w (updateFromSpec E (cargoFormat E) key item version w).2
  rw [hrun]
  rcases updateFromSpec_cases hrun with ⟨e, -, rfl, -⟩ | ⟨e, old, -, rfl, -⟩ | ⟨old, t, -, -, ht, ⟨e, -, rfl, -⟩ |
    ⟨-, -, rfl⟩⟩
  · exact adds_after w 1
  · exact adds_after w 2
  · exact ⟨⟨rfl, find_insert_mono ht, fun _ _ h => h, fun _ h => .inl h⟩, rfl⟩
  · exact ⟨⟨rfl, find_insert_mono ht, fun _ _ h => h, fun _ h => .inl h⟩, rfl⟩

theorem syncKeeps_adds : SyncKeeps E (Adds E) where
  query := adds_query
  status := adds_updateStatus
  namespace_ := adds_createNamespace
  create := adds_createCargo
  update key _ _ _ container version := adds_updateCargo key (specOf _ container) version

theorem adds_delVm (pk : String) : Prog.Keeps (Adds E) (delVm E pk) := by
  have hread : Prog.Keeps (Adds E) (readVm E pk) := Prog.keeps_bind (adds_query _) fun _ => fun w => Std.Refl.refl w
  refine Prog.keeps_bind hread fun vm => Prog.keeps_bind (adds_query _) fun status => ?_
  exact Prog.keeps_bind (adds_updateStatus _ _) fun _ => Prog.keeps_pure vm

/-! ## A patch -/

/-- a VM that is read is found by its key, and its disk is that of its row -/
theorem DiskInv.vm_found {w : World δ} (h : DiskInv E w) {pk : String} {vm : Vm δ}
    (hvm : objectOf (vmFormat E) w.db pk = .ok vm) :
    ∃ row s, w.db.vms.find pk = some row ∧ w.db.specs.find row.specKey = some s ∧ tryToVmSpec E s = .ok vm.spec ∧
      vm.spec.vmKey = pk ∧ diskOf E w.db row = some vm.spec.disk.image := by
  obtain ⟨row, s, status, hj, hread, -⟩ := objectOf_ok hvm
  obtain ⟨hrow, hs, -⟩ := joined_eq_some.1 hj
  obtain ⟨s', hs', hkey⟩ := h.keyed row (Table.find_eq_some.1 hrow).1
  obtain rfl := Option.some.inj (hs.symm.trans hs')
  refine ⟨row, s, hrow, hs, hread, ?_, diskOf_eq_some.2 ⟨s, vm.spec, hs, hread, rfl⟩⟩
  calc vm.spec.vmKey = s.kindKey := (columns_of_tryToVmSpec E hread).2
    _ = row.key := hkey
    _ = pk := Table.key_of_find hrow

/-- a VM that is pointed to another spec of its key and its disk -/
theorem DiskInv.point {w w' : World δ} (h : DiskInv E w) {key name disk : String} {row : ObjectDb} {s : SpecDb δ}
    {t : Table (SpecDb.key (δ := δ))} (ht : w.db.specs.insert s = some t) (hkind : s.kindKey = key)
    (hrow : w.db.vms.find key = some row) (hold : diskOf E w.db row = some disk)
    {spec : VmSpec δ} (hread : tryToVmSpec E s = .ok spec) (hdisk : spec.disk.image = disk)
    (hvms : w'.db.vms = w.db.vms.update key (fun r => { r with name := name, specKey := s.key }) fun _ => rfl)
    (hspecs : w'.db.specs = t) (himages : w'.db.vmImages = w.db.vmImages) (hfiles : w'.files = w.files) : DiskInv E w' := by
  have hmono : ∀ k s, w.db.specs.find k = some s → w'.db.specs.find k = some s := by
    rw [hspecs]
    exact find_insert_mono ht
  have hnew : w'.db.specs.find s.key = some s := by
    rw [hspecs]
    exact Table.find_insert_self ht
  refine h.transfer (fun r' hr' => ?_) fun image hi => .inl (himages ▸ hi)
  rw [hvms] at hr'
  obtain ⟨r, hr, rfl⟩ := Table.mem_update.1 hr'
  have hchain : ∀ d, diskOf E w.db r = some d → ∀ image, w.ImageChain d image →
      w'.db.vmImages.find image.name = some image ∧ (w'.files image.path).isSome := by
    intro d hd image hc
    rw [himages, hfiles]
    exact ⟨hc.mem.2, h.used_there ⟨r, hr, d, hd, image, hc, rfl⟩⟩
  by_cases hkey : r.key = key
  · rw [if_pos hkey]
    have hfound : w.db.vms.find key = some r := Table.find_eq_some.2 ⟨hr, hkey⟩
    obtain rfl := Option.some.inj (hrow.symm.trans hfound)
    refine ⟨row, hr, rfl, ⟨s, hnew, hkind.trans hkey.symm⟩, fun d hd => ⟨?_, hchain d hd⟩⟩
    obtain rfl := Option.some.inj (hold.symm.trans hd)
    exact diskOf_eq_some.2 ⟨s, spec, hnew, hread, hdisk⟩
  · rw [if_neg hkey]
    obtain ⟨s', hs', hkey'⟩ := h.keyed r hr
    exact ⟨r, hr, rfl, ⟨s', hmono _ s' hs', hkey'⟩, fun d hd => ⟨diskOf_mono hmono hd, hchain d hd⟩⟩

/-- a patch keeps the disk of its VM -/
theorem patchVm_inv {w : World δ} (h : DiskInv E w) (pk : String) (obj : VmObjPatchIn δ) :
    DiskInv E ((PutRequest.patchVm pk obj).run E w).2 := by
  rw [PutRequest.run_patchVm]
  rcases reads_put_cases (F := vmFormat E) (PutRequest.reads_patchVm E pk) pk (fun a => a.2.2.spec.vmKey)
    (fun a => patchVmSpec a.1.spec.name a.2.1 obj.spec) (fun _ => obj.version) w with
    ⟨e, k, hrun⟩ | ⟨a, k, u, r, w', ha, hupd, hrun⟩
  · rw [hrun]
    exact h.after k
  · rw [hrun]
    have hstatus : DiskInv E (w.after k (withStatus w.db pk u)) :=
      h.adds ⟨⟨rfl, fun _ _ h => h, fun _ _ h => h, fun _ h => .inl h⟩, rfl⟩
    rcases updateFromSpec_cases hupd with ⟨e, -, rfl, -⟩ | ⟨e, old, -, rfl, -⟩ | ⟨old, t, -, hobj, ht, ⟨e, -, rfl, -⟩ |
      ⟨-, -, rfl⟩⟩
    · exact hstatus.after 1
    · exact hstatus.after 2
    · exact hstatus.adds ⟨⟨rfl, find_insert_mono ht, fun _ _ h => h, fun _ h => .inl h⟩, rfl⟩
    · obtain ⟨vm, hvm, rfl⟩ := PutRequest.patchVm_found.1 ha
      obtain ⟨row, s, hrow, hs, hread, hpk, hdisk⟩ := h.vm_found hvm
      obtain ⟨row', s', hrow', hs', hread', hpk', -⟩ := hstatus.vm_found hobj
      change w.db.vms.find vm.spec.vmKey = some row' at hrow'
      change w.db.specs.find row'.specKey = some s' at hs'
      rw [hpk] at hrow'
      obtain rfl := Option.some.inj (hrow.symm.trans hrow')
      obtain rfl := Option.some.inj (hs.symm.trans hs')
      obtain hspec := Except.ok.inj (hread.symm.trans hread')
      set item := patchVmSpec vm.spec.name vm.spec obj.spec with hitem
      set uuid := E.uuid ((w.after k (withStatus w.db pk u)).calls + 1) with huuid
      have hback : tryToVmSpec E (tryFromVmPartial E old.spec.vmKey obj.version item uuid) = .ok _ :=
        tryToVmSpec_tryFrom E old.spec.vmKey obj.version item uuid
      exact hstatus.point ht hpk' (hpk ▸ hrow) hdisk hback rfl rfl rfl rfl rfl

/-! ## A creation -/

/-- a new VM whose disk is a snapshot that no VM names -/
theorem DiskInv.insertVm {w w' : World δ} (h : DiskInv E w) {row : ObjectDb} {s : SpecDb δ} {spec : VmSpec δ}
    {image : VmImageDb} {vt : Table ObjectDb.key} (hvt : w.db.vms.insert row = some vt)
    (hs : w.db.specs.find row.specKey = some s) (hkey : s.kindKey = row.key) (hread : tryToVmSpec E s = .ok spec)
    (himage : w.db.vmImages.find spec.disk.image = some image) (hkind : image.kind = .snapshot)
    (hbacked : w.ImageBacked spec.disk.image) (hnew : ∀ r ∈ w.db.vms.rows, diskOf E w.db r ≠ some spec.disk.image)
    (hw' : w' = { w with db := { w.db with vms := vt } }) : DiskInv E w' := by
  subst hw'
  have hdisk : diskOf E w.db row = some spec.disk.image := diskOf_eq_some.2 ⟨s, spec, hs, hread, rfl⟩
  refine ⟨⟨fun r hr => ?_, fun r hr r' hr' disk hd hd' => ?_⟩, fun r hr => ?_, h.registered⟩
  · rcases (Table.mem_insert hvt).1 hr with hr | rfl
    · exact h.backed r hr
    · exact ⟨spec.disk.image, image, hdisk, himage, hkind, hbacked⟩
  · rcases (Table.mem_insert hvt).1 hr with hr | rfl <;> rcases (Table.mem_insert hvt).1 hr' with hr' | rfl
    · exact h.distinct r hr r' hr' disk hd hd'
    · exact absurd (hd.trans (hd'.symm.trans hdisk)) (hnew r hr)
    · exact absurd (hd'.trans (hd.symm.trans hdisk)) (hnew r' hr')
    · rfl
  · rcases (Table.mem_insert hvt).1 hr with hr | rfl
    · exact h.keyed r hr
    · exact ⟨s, hs, hkey⟩

theorem createVm_exact {w : World δ} (h : DiskInv E w) (obj : VmObjCreateIn δ) :
    ((DiskOp.createVm obj).Spares E w → DiskInv E (diskStep E w (.createVm obj))) ∧
      (DisksOwned E (diskStep E w (.createVm obj)) → (DiskOp.createVm obj).Spares E w) := by
  have hstep : diskStep E w (.createVm obj) = (createVm E obj w).2 := Prog.snd_bind_pure _ _ w
  rw [hstep]
  rcases hrun : createVm E obj w with ⟨r, w'⟩
  rcases createVm_cases hrun with ⟨e, k, -, rfl, hno⟩ | ⟨image, hprep, hbegins, hrest⟩
  · exact ⟨fun _ => h.after k, fun _ image hp hb => absurd ⟨hp, hb⟩ (hno image)⟩
  set snap := obj.snapName image with hsnap
  set content := snapContent E (w.after 2 w.db) snap obj.size image with hcontent
  have hfound : ∀ image', VmPrepared E w obj image' → image' = image := fun image' hp =>
    Option.some.inj (hp.found.symm.trans hprep.found)
  rcases hrest with ⟨e, k, -, -, rfl⟩ | ⟨t, st, sp, hstored, hsome, ht, hend⟩
  · have hw : Wrote E (imagePath E snap) content w ((w.setFile (imagePath E snap) content).after k w.db) :=
      wrote_setFile w _ _ k
    refine ⟨fun hspares => h.wrote hw (hspares image hprep hbegins), fun h' image' hp _ hused => ?_⟩
    obtain rfl := hfound image' hp
    exact hw.spares h' hused
  · have hspares : (DiskOp.createVm obj).Spares E w := by
      intro image' hp _ _
      obtain rfl := hfound image' hp
      exact hsome
    refine ⟨fun _ => ?_, fun _ => hspares⟩
    set disk := w.setFile (imagePath E snap) content with hdisk
    have hrow : Registered E (snapRow E (w.after 2 w.db) snap image) :=
      registered_imageRow (imagePath_eq snap) (registeredName_image snap) fun h => by cases h
    have hstoredDisk : ∀ k, DiskInv E (disk.after k { w.db with vmImages := t }) := fun k =>
      h.wrote ⟨k, t, .inr ⟨_, hrow, ht⟩, rfl⟩ fun _ => hsome
    rcases hend with ⟨e, k, -, -, hsp, rfl⟩ | ⟨vm, vt, -, -, -, hsp, hvt, rfl⟩
    · have hmono : ∀ k s, w.db.specs.find k = some s → sp.find k = some s := by
        rcases hsp with rfl | hsp
        · exact fun _ _ h => h
        · exact find_insert_mono hsp
      exact (hstoredDisk k).adds ⟨⟨rfl, hmono, fun _ _ h => h, fun _ h => .inl h⟩, rfl⟩
    · set w₁ := disk.after 10 { w.db with vmImages := t, statuses := st, specs := sp } with hw₁
      have hinv : DiskInv E w₁ :=
        (hstoredDisk 10).adds ⟨⟨rfl, find_insert_mono hsp, fun _ _ h => h, fun _ h => .inl h⟩, rfl⟩
      have hback : tryToVmSpec E (vmSpecRow E obj image (E.uuid (w.calls + 8))) = .ok _ :=
        tryToVmSpec_tryFrom E obj.key obj.version (obj.vm image) (E.uuid (w.calls + 8))
      have hself : w₁.db.vmImages.find snap = some (snapRow E (w.after 2 w.db) snap image) := Table.find_insert_self ht
      have hfiles : ∀ path, (w.files path).isSome → (w₁.files path).isSome := by
        intro path hpath
        change (Function.update w.files (imagePath E snap) content path).isSome
        rw [Function.update_apply]
        split_ifs
        · exact hsome
        · exact hpath
      refine hinv.insertVm hvt (Table.find_insert_self hsp) rfl hback hself rfl ?_ (fun r hr hd => ?_) rfl
      · refine .intro hself ?_ fun p hp => ?_
        · exact (congrArg Option.isSome (World.setFile_files w (imagePath E snap) content)).trans hsome
        · obtain rfl := Option.some.inj hp
          have hbase : Registered E image := h.registered image (Table.find_eq_some.1 hprep.found).1
          refine .intro (i := image) ?_ (hfiles _ hbegins.backing) fun p hp => ?_
          · exact Table.find_insert_of_find ht (by rw [Table.key_of_find hprep.found, hprep.found])
          · rw [hbase.base hprep.base] at hp
            cases hp
      -- the name was free, and the disk of a VM is found
      · obtain ⟨d, i, hd', hi, -⟩ := h.backed r hr
        obtain rfl := Option.some.inj ((diskOf_mono (find_insert_mono hsp) hd').symm.trans hd)
        have hfree : w.db.vmImages.find snap = none := (Table.insert_eq_some.1 ht).1
        exact absurd (hi.symm.trans hfree) nofun

/-! ## A deletion -/

/-- the chain of another disk does not meet an image without children -/
theorem ImageChain.avoids {w : World δ} {name disk : String} {image : VmImageDb} (hleaf : Leaf w.db name)
    (hchain : w.ImageChain disk image) (hne : disk ≠ name) : image.name ≠ name := by
  rcases OnChain.first_or_parent hchain with hfirst | ⟨k, i, p, hi, hp, hj⟩
  · rw [Table.key_of_find hfirst]
    exact hne
  · rw [Table.key_of_find hj]
    rintro rfl
    exact hleaf i (Table.find_eq_some.1 hi).1 hp

/-- an image without children goes, or its file, and no VM that is left names it -/
theorem DiskInv.drop {w w' : World δ} (h : DiskInv E w) {image : VmImageDb}
    (himage : w.db.vmImages.find image.name = some image) (hleaf : Leaf w.db image.name)
    (hvms : ∀ r ∈ w'.db.vms.rows, r ∈ w.db.vms.rows ∧ diskOf E w.db r ≠ some image.name ∧
      ∀ s, w.db.specs.find r.specKey = some s → w'.db.specs.find r.specKey = some s)
    (himages : w'.db.vmImages = w.db.vmImages ∨ w'.db.vmImages = w.db.vmImages.delete image.name)
    (hfiles : ∀ path, path ≠ image.path → w'.files path = w.files path) : DiskInv E w' := by
  refine h.transfer (fun r hr => ?_) fun i hi => .inl ?_
  · obtain ⟨hr, hother, hspecs⟩ := hvms r hr
    obtain ⟨s, hs, hkey⟩ := h.keyed r hr
    refine ⟨r, hr, rfl, ⟨s, hspecs s hs, hkey⟩, fun disk hdisk => ⟨?_, fun i hchain => ⟨?_, ?_⟩⟩⟩
    · obtain ⟨s', spec, hs', hspec⟩ := diskOf_eq_some.1 hdisk
      exact diskOf_eq_some.2 ⟨s', spec, hspecs s' hs', hspec⟩
    · have hname : i.name ≠ image.name := ImageChain.avoids hleaf hchain fun heq => hother (heq ▸ hdisk)
      rcases himages with heq | heq
      · rw [heq]
        exact hchain.mem.2
      · rw [heq, Table.find_delete, if_neg hname]
        exact hchain.mem.2
    · have hname : i.name ≠ image.name := ImageChain.avoids hleaf hchain fun heq => hother (heq ▸ hdisk)
      rw [hfiles]
      · exact h.used_there ⟨r, hr, disk, hdisk, i, hchain, rfl⟩
      · exact fun heq => hname (h.name_of_path hchain.mem.1 (Table.find_eq_some.1 himage).1 heq)
  · rcases himages with heq | heq
    · exact heq ▸ hi
    · rw [heq] at hi
      exact (Table.mem_deleteWhere.1 hi).1

/-- the removal of a file leaves the others -/
theorem removeFile_files (path : String) (w : World δ) :
    (removeFile E path w).2.files path = (if E.fault w.calls = none then none else w.files path) ∧
      ∀ p, p ≠ path → (removeFile E path w).2.files p = w.files p := by
  rw [removeFile_world]
  by_cases hf : E.fault w.calls = none
  · rw [if_pos hf, if_pos hf]
    exact ⟨World.setFile_files .., fun p hp => Function.update_of_ne hp ..⟩
  · rw [if_neg hf, if_neg hf]
    exact ⟨rfl, fun _ _ => rfl⟩

/-- a VM whose disk is found in the same row needs its file -/
theorem DisksOwned.there {w : World δ} (h : DisksOwned E w) {row : ObjectDb} (hrow : row ∈ w.db.vms.rows) {disk : String}
    (hdisk : diskOf E w.db row = some disk) :
    ∃ image, w.db.vmImages.find disk = some image ∧ (w.files image.path).isSome := by
  obtain ⟨d, image, hd, himage, -⟩ := h.backed row hrow
  obtain rfl := Option.some.inj (hdisk.symm.trans hd)
  exact ⟨image, himage, h.used_there ⟨row, hrow, disk, hdisk, image, .here himage, rfl⟩⟩

theorem deleteImage_exact {w : World δ} (h : DiskInv E w) (pk : String) :
    ((DiskOp.deleteImage pk).Spares E w → DiskInv E (diskStep E w (.deleteImage pk))) ∧
      (DisksOwned E (diskStep E w (.deleteImage pk)) → (DiskOp.deleteImage pk).Spares E w) := by
  change (_ → DiskInv E (deleteVmImage E pk w).2) ∧ (DisksOwned E (deleteVmImage E pk w).2 → _)
  rcases hrun : deleteVmImage E pk w with ⟨r, w'⟩
  rcases deleteVmImage_cases hrun with ⟨e, k, -, rfl, hno⟩ | ⟨image, h2, himage, hleaf, hend⟩
  · refine ⟨fun _ => h.after k, fun _ ⟨row, hrow, hdisk⟩ h2 hleaf => absurd ⟨h2, ?_, hleaf⟩ hno⟩
    obtain ⟨image, himage, -⟩ := h.there hrow hdisk
    rw [himage]
    rfl
  have hname : image.name = pk := Table.key_of_find himage
  obtain ⟨hgone, hother⟩ := removeFile_files (E := E) image.path (w.after 2 w.db)
  rw [World.after_calls] at hgone
  set w₁ := (removeFile E image.path (w.after 2 w.db)).2 with hw₁
  have hdb : w₁.db = w.db := removeFile_db _ _
  have himages : w'.db.vmImages = w.db.vmImages ∧ E.fault (w.calls + 3) ≠ none ∨
      w'.db.vmImages = w.db.vmImages.delete image.name ∧ E.fault (w.calls + 3) = none := by
    rcases hend with ⟨e, -, hf, rfl⟩ | ⟨-, hf, rfl⟩
    · exact .inl ⟨by rw [World.tick_db, hdb], hf⟩
    · exact .inr ⟨by rw [hname, World.after_db], hf⟩
  have hrest : w'.db.vms = w.db.vms ∧ w'.db.specs = w.db.specs ∧ w'.files = w₁.files := by
    rcases hend with ⟨e, -, -, rfl⟩ | ⟨-, -, rfl⟩
    · exact ⟨by rw [World.tick_db, hdb], by rw [World.tick_db, hdb], rfl⟩
    · exact ⟨rfl, rfl, rfl⟩
  obtain ⟨hvms, hspecs, hfiles⟩ := hrest
  constructor
  · intro hspares
    by_cases hnamed : ∃ row ∈ w.db.vms.rows, diskOf E w.db row = some pk
    · obtain ⟨hf2, hf3⟩ := hspares hnamed h2 hleaf
      have hsame : w'.db.vmImages = w.db.vmImages := himages.elim (·.1) fun hi => absurd hi.2 hf3
      refine h.extend ⟨hvms, fun k s hs => hspecs ▸ hs, fun n i hi => hsame ▸ hi, fun i hi => .inl (hsame ▸ hi)⟩ ?_
      intro path hused
      rw [hfiles]
      by_cases hpath : path = image.path
      · rw [hpath, hgone, if_neg hf2]
        exact hpath ▸ h.used_there hused
      · rw [hother path hpath]
        exact h.used_there hused
    · refine h.drop (hname ▸ himage) (hname ▸ hleaf) (fun r hr => ⟨hvms ▸ hr, fun hd => ?_, fun s hs => hspecs ▸ hs⟩)
        (himages.imp And.left And.left) fun path hpath => ?_
      · exact hnamed ⟨r, hvms ▸ hr, hname ▸ hd⟩
      · rw [hfiles]
        exact hother path hpath
  · rintro h' ⟨row, hrow, hdisk⟩ - -
    have hdisk' : diskOf E w'.db row = some pk := diskOf_mono (fun k s hs => hspecs ▸ hs) hdisk
    obtain ⟨i, hi, hthere⟩ := h'.there (hvms ▸ hrow) hdisk'
    rcases himages with ⟨hsame, hf3⟩ | ⟨hdel, -⟩
    · refine ⟨fun hf2 => ?_, hf3⟩
      rw [hsame] at hi
      obtain rfl := Option.some.inj (himage.symm.trans hi)
      rw [hfiles, hgone, if_pos hf2] at hthere
      cases hthere
    · rw [hdel, hname, Table.find_delete, if_pos rfl] at hi
      cases hi

/-- what the task does after the row of the VM -/
theorem clearRest (key : String) (w : World δ) :
    let w' := (do
      delSpecsByKindKey E key
      delStatus E key : Io δ Unit) w |>.2
    w'.db.vms = w.db.vms ∧ w'.db.vmImages = w.db.vmImages ∧ w'.files = w.files ∧
      ∀ k s, w.db.specs.find k = some s → s.kindKey ≠ key → w'.db.specs.find k = some s := by
  intro w'
  rcases hspecs : delSpecsByKindKey E key w with ⟨e | u, w₁⟩
  · have hw' : w' = w₁ := congrArg Prod.snd (Prog.bind_of_error hspecs)
    rw [hw', exec_error hspecs]
    exact ⟨rfl, rfl, rfl, fun _ _ h _ => h⟩
  · have hw' : w' = (delStatus E key w₁).2 := congrArg Prod.snd (Prog.bind_of_ok hspecs)
    obtain ⟨db, -, hdb, rfl⟩ := exec_ok hspecs
    obtain rfl := deleteSpecs_ok hdb
    have hfind : ∀ k s, w.db.specs.find k = some s → s.kindKey ≠ key →
        (w.db.specs.deleteWhere fun s => s.kindKey = key).find k = some s := by
      intro k s hs hkey
      rw [Table.find_deleteWhere, hs, Option.filter_some, if_pos]
      simpa using hkey
    rcases hstatus : delStatus E key _ with ⟨e | u, w₂⟩
    · rw [hw', hstatus, exec_error hstatus]
      exact ⟨rfl, rfl, rfl, hfind⟩
    · obtain ⟨db, -, hdb, rfl⟩ := exec_ok hstatus
      obtain rfl := deleteStatus_ok hdb
      rw [hw', hstatus]
      exact ⟨rfl, rfl, rfl, hfind⟩

theorem deleteTask_exact {w : World δ} (h : DiskInv E w) (key : String) :
    ((DiskOp.deleteTask key).Spares E w → DiskInv E (diskStep E w (.deleteTask key))) ∧
      (DisksOwned E (diskStep E w (.deleteTask key)) → (DiskOp.deleteTask key).Spares E w) := by
  change (_ → DiskInv E (deleteVmTask E key w).2) ∧ (DisksOwned E (deleteVmTask E key w).2 → _)
  rw [deleteVmTask_eq]
  rcases hdrop : dropVm E key w with ⟨r, w'⟩
  rcases dropVm_cases hdrop with ⟨e, k, rfl, rfl, hno⟩ | ⟨vm, image, h5, hvm, himage, hleaf, hend⟩
  · rw [Prog.bind_of_error hdrop]
    refine ⟨fun _ => h.after k, fun _ vm h5 hvm hleaf => absurd ⟨h5, vm, hvm, ?_, hleaf⟩ hno⟩
    obtain ⟨row, s, hrow, -, -, -, hdisk⟩ := h.vm_found hvm
    obtain ⟨image, himage, -⟩ := h.there (Table.find_eq_some.1 hrow).1 hdisk
    rw [himage]
    rfl
  obtain ⟨row, s, hrow, hs, hread, hkey, hdisk⟩ := h.vm_found hvm
  have hmem : row ∈ w.db.vms.rows := (Table.find_eq_some.1 hrow).1
  have hname : image.name = vm.spec.disk.image := Table.key_of_find himage
  have hfound : ∀ vm', objectOf (vmFormat E) w.db key = .ok vm' → vm' = vm := fun vm' hvm' =>
    Except.ok.inj (hvm'.symm.trans hvm)
  obtain ⟨hgone, hother⟩ := removeFile_files (E := E) image.path (w.after 5 w.db)
  rw [World.after_calls] at hgone
  change (withoutDisk E w image).files image.path = _ at hgone
  change ∀ p, p ≠ image.path → (withoutDisk E w image).files p = w.files p at hother
  rcases hend with ⟨e, rfl, hf6, rfl⟩ | ⟨e, rfl, hf6, hf7, rfl⟩ | ⟨rfl, hf6, hf7, rfl⟩
  · rw [Prog.bind_of_error hdrop]
    have hdb : (withoutDisk E w image).tick.db = w.db := by rw [World.tick_db, withoutDisk_db]
    constructor
    · intro hspares
      have hf5 := hspares vm h5 hvm hleaf
      rw [if_neg hf6] at hf5
      refine h.extend ?_ fun path hused => ?_
      · exact ⟨by rw [hdb], fun k s hs => hdb ▸ hs, fun n i hi => hdb ▸ hi, fun i hi => .inl (hdb ▸ hi)⟩
      · change ((withoutDisk E w image).files path).isSome
        by_cases hpath : path = image.path
        · rw [hpath, hgone, if_neg hf5]
          exact hpath ▸ h.used_there hused
        · rw [hother path hpath]
          exact h.used_there hused
    · intro h' vm' _ hvm' _
      rw [if_neg hf6]
      intro hf5
      obtain ⟨i, hi, hthere⟩ := h'.there (hdb ▸ hmem) (hdb ▸ hdisk)
      rw [hdb] at hi
      obtain rfl := Option.some.inj (himage.symm.trans hi)
      change ((withoutDisk E w image).files image.path).isSome at hthere
      rw [hgone, if_pos hf5] at hthere
      cases hthere
  · rw [Prog.bind_of_error hdrop]
    constructor
    · intro hspares
      have hf := hspares vm h5 hvm hleaf
      rw [if_pos hf6] at hf
      exact absurd hf hf7
    · intro h'
      obtain ⟨i, hi, -⟩ := h'.there hmem hdisk
      change (w.db.vmImages.delete vm.spec.disk.image).find vm.spec.disk.image = some i at hi
      rw [Table.find_delete, if_pos rfl] at hi
      cases hi
  · rw [Prog.bind_of_ok hdrop]
    refine ⟨fun _ => ?_, fun _ vm' _ _ _ => by rw [if_pos hf6]; exact hf7⟩
    obtain ⟨hvms, himages, hfiles, hspecs⟩ :=
      clearRest (E := E) vm.spec.vmKey ((withoutDisk E w image).after 2 (withoutVm w.db vm))
    refine h.drop (hname ▸ himage) (hname ▸ hleaf) (fun r hr => ?_) (.inr ?_) fun path hpath => ?_
    · rw [hvms] at hr
      obtain ⟨hr, hother⟩ := Table.mem_deleteWhere.1 hr
      have hne : r.key ≠ key := by
        rw [← hkey]
        simpa using hother
      have hrow' : r ≠ row := fun heq => hne (heq ▸ Table.key_of_find hrow)
      refine ⟨hr, fun hd => hrow' (h.distinct r hr row hmem _ (hname ▸ hd) hdisk), fun s' hs' => hspecs _ s' hs' ?_⟩
      obtain ⟨s'', hs'', hkey'⟩ := h.keyed r hr
      obtain rfl := Option.some.inj (hs'.symm.trans hs'')
      rw [hkey', hkey]
      exact hne
    · rw [himages, hname]
      rfl
    · rw [hfiles]
      exact hother path hpath

/-! ## Runs -/

/-- **Each operation**: it keeps the invariant if it spares the disks, and does not leave them owned if it does not -/
theorem diskStep_exact {w : World δ} (h : DiskInv E w) (op : DiskOp δ) :
    (op.Spares E w → DiskInv E (diskStep E w op)) ∧ (DisksOwned E (diskStep E w op) → op.Spares E w) := by
  cases op with
  | createVm obj => exact createVm_exact h obj
  | patchVm pk obj => exact ⟨fun _ => patchVm_inv h pk obj, fun _ => trivial⟩
  | delVm pk =>
    have hadds : Adds E w (diskStep E w (.delVm pk)) := Prog.keeps_bind (adds_delVm pk) (fun _ => Prog.keeps_pure ()) w
    exact ⟨fun _ => h.adds hadds, fun _ => trivial⟩
  | deleteTask key => exact deleteTask_exact h key
  | importImage name content => exact importImage_exact h name content
  | snapshotImage name target => exact snapshotImage_exact h name target
  | cloneImage name target => exact cloneImage_exact h name target
  | deleteImage pk => exact deleteImage_exact h pk
  | startProcesses containers => exact ⟨fun _ => h.adds (syncKeeps_adds.syncProcesses containers w), fun _ => trivial⟩
  | startImages files => exact startImages_exact h files

/-- **The disks are owned after every operation of a run exactly if every operation spares them**, from a node without
VMs and images -/
theorem disks_owned_iff (E : Env δ) (w : World δ) (hvms : w.db.vms.rows = []) (himages : w.db.vmImages.rows = [])
    (ops : List (DiskOp δ)) :
    Along (diskStep E) (fun w op => DisksOwned E (diskStep E w op)) w ops ↔
      Along (diskStep E) (fun (w : World δ) op => op.Spares E w) w ops :=
  along_inv_iff (I := DisksOwned E) (J := DiskInv E) (fun _ h => h.toDisksOwned) (fun _ op h => (diskStep_exact h op).1)
    (fun _ op h => (diskStep_exact h op).2) (diskInv_of_empty hvms himages) ops

/-- a VM on an image of a name -/
def diskVm (image : String) : VmObjCreateIn Value where
  namespace_ := "global"
  spec := ⟨"vm", none, none, none, none, none, ⟨image, none⟩, none, none, none⟩
  version := "v0.16"

/-- an image is imported and a VM is created on it -/
theorem disks_owned_create :
    Along (diskStep Env.plain) (fun w op => DisksOwned Env.plain (diskStep Env.plain w op)) globalWorld
      [.importImage "debian" "qcow2", .createVm (diskVm "debian")] := by
  refine (disks_owned_iff Env.plain globalWorld rfl rfl _).2 ⟨?_, ?_, trivial⟩
  · rintro - ⟨row, hrow, -⟩
    exact absurd hrow List.not_mem_nil
  · rintro image - - ⟨row, hrow, -⟩
    exact absurd hrow List.not_mem_nil

/-- the node after an import, a creation of a VM on it and the deletion of the disk of that VM -/
def diskWorld : World Value :=
  run (diskStep Env.plain) globalWorld
    [.importImage "debian" "qcow2", .createVm (diskVm "debian"), .deleteImage "debian.vm.global"]

/-- the disk of a VM is deleted: its spec names an image that is gone -/
theorem deleted_under_vm :
    ¬ Along (diskStep Env.plain) (fun w op => DisksOwned Env.plain (diskStep Env.plain w op)) globalWorld
      [.importImage "debian" "qcow2", .createVm (diskVm "debian"), .deleteImage "debian.vm.global"] := by
  rintro ⟨-, -, h, -⟩
  change DisksOwned Env.plain diskWorld at h
  obtain ⟨row, hrow, hdisk⟩ : ∃ row ∈ diskWorld.db.vms.rows, diskOf Env.plain diskWorld.db row = some "debian.vm.global" := by
    decide
  have hgone : diskWorld.db.vmImages.find "debian.vm.global" = none := by decide
  obtain ⟨image, himage, -⟩ := h.there hrow hdisk
  rw [hgone] at himage
  cases himage

end Nanocl.Objects
