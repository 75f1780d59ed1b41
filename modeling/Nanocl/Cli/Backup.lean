/-
The backup of the daemon's state into Statefiles (`commands/backup.rs`): one file for each namespace, with its cargoes and
its VMs, and then one for the jobs, one for the secrets and one for the resources.

Each listing goes without a limit, and such a listing answers the 100 newest rows. A file of a namespace has its name, so
that it may be overwritten by a later one, of the same name or of a name with the same path.

- `listObjects_ok`, `listJobs_ok`, `listResources_eq`: what the listings answer.
- `written_of_ok`: the files that a backup leaves.
- `complete_iff`: a backup that returns is complete exactly if no listing has more than 100 rows, and the file of each
  namespace that has something in it is inside the directory and not overwritten.
- `fits_of_plain`: what this says of names without `/`.
- `jobs_namespace_lost`: a backup loses the cargo of a namespace that is called `jobs`.
-/
import Nanocl.Cli.Statefile
import Nanocl.Lib.Overwrite
import Nanocl.Objects.Job
import Nanocl.Objects.Vm

namespace Nanocl.Cli

open Nanocl.Lib Nanocl.Objects

variable {δ σ π : Type}

/-! ## Daemon -/

/-- the references of the migrations -/
structure References (db : Tables δ) : Prop where
  spec : ∀ kind, ∀ row ∈ (db.objects kind).rows, (db.specs.find row.specKey).isSome
  status : ∀ kind, ∀ row ∈ (db.objects kind).rows, (db.statuses.find row.statusKey).isSome
  namespace_ : ∀ kind, ∀ row ∈ (db.objects kind).rows, (db.namespaces.find row.namespaceName).isSome
  jobStatus : ∀ row ∈ db.jobs.rows, (db.statuses.find row.statusKey).isSome
  resourceSpec : ∀ row ∈ db.resources.rows, (db.specs.find row.specKey).isSome

/-- the state of the daemon -/
structure DaemonState (δ : Type) where
  db : Tables δ
  secrets : Lib.Table (SecretDb.key (δ := δ))
  references : References db

/-- `NamespaceDb::list`, in what the backup reads of it -/
def listNamespaces (db : Tables δ) : List String := (newest db.namespaces.rows).map NamespaceDb.name

/-- the rows of a namespace -/
def rowsOf (db : Tables δ) (kind : ObjectKind) (nsp : String) : List ObjectDb :=
  (db.objects kind).rows.filter fun row => row.namespaceName = nsp

/-- `CargoDb::list` and `VmDb::list`: each spec is read once more -/
def listObjects (F : Format δ σ π) (db : Tables δ) (nsp : String) : Except HttpError (List σ) := do
  let _ ← orNotFound "NamespaceDb" (db.namespaces.find nsp)
  let objs ← (newest ((rowsOf db F.kind nsp).filterMap fun row => db.joined F.kind row.key)).mapM (transform F)
  objs.mapM fun obj => do
    let spec ← orNotFound "SpecDb" (db.specs.find (F.specKey obj.spec))
    F.read spec

/-- `JobDb::list` -/
def listJobs (E : Env δ) (db : Tables δ) : Except HttpError (List (Job δ)) :=
  (newest (db.jobs.rows.filterMap fun row => (db.statuses.find row.statusKey).map fun status => (row, status))).mapM
    fun r => tryToJob E r.1 r.2.status

/-- `list_resource` -/
def listResources (db : Tables δ) : List (Resource δ) :=
  (newest (db.resources.rows.filterMap fun row => (db.specs.find row.specKey).map fun spec => (row, spec))).map
    fun r => ⟨r.1.kind, toResourceSpec r.2⟩

/-- `From<Secret> for SecretPartial` -/
def secretPartial (row : SecretDb δ) : SecretPartial δ := ⟨row.key, row.kind, row.immutable, row.metadata, row.data⟩

/-- `From<Resource> for ResourcePartial` -/
def resourcePartial (r : Resource δ) : ResourcePartial δ := ⟨r.spec.resourceKey, r.kind, r.spec.data, r.spec.metadata⟩

/-! ## Backup -/

/-- a request of the backup -/
inductive Listing where
  | namespaces
  | cargoes (nsp : String)
  | vms (nsp : String)
  | jobs
  | secrets
  | resources

/-- why a backup stops -/
inductive BackupError where
  | io (e : IoError)
  | http (e : HttpError)

structure BackupEnv (δ : Type) where
  env : Env δ
  /-- the requests that get no answer -/
  fault : Listing → Option IoError
  /-- the jobs are counted all at once, and listed in the order in which that ends -/
  jobOrder : List (Job δ) → List (Job δ)
  jobOrder_perm : ∀ l, (jobOrder l).Perm l
  /-- `client.version` -/
  version : String
  /-- the output directory, by its components -/
  dir : Path
  skipConfirm : Bool
  createDirAll : Option IoError
  /-- the files that are there before -/
  existing : Path → Bool
  confirm : Path → Option IoError
  write : Path → Option IoError

/-- follow the components of a path -/
def resolve (path : Path) : Path := path.foldl (fun dir c => if c = ".." then dir.dropLast else dir ++ [c]) []

/-- the path of `{dir}/{name}.yml` -/
def filePath (dir : Path) (name : String) : Path := resolve (dir ++ components (name ++ ".yml"))

/-- the files that the backup has written -/
abbrev Written (δ : Type) := List (Path × Statefile δ)

abbrev BackupIo (δ α : Type) := Prog (Written δ) BackupError α

def check (e : Option IoError) : BackupIo δ Unit :=
  match e with
  | some e => Prog.fail (.io e)
  | none => pure ()

variable (B : BackupEnv δ) (D : DaemonState δ)

def ask {α : Type} (l : Listing) (answer : Except HttpError α) : BackupIo δ α := do
  check (B.fault l)
  match answer with
  | .ok a => pure a
  | .error e => Prog.fail (.http e)

/-- ask before a file is overwritten -/
def confirmOverride (written : Written δ) (path : Path) : BackupIo δ Unit :=
  if (B.existing path || written.any fun f => f.1 = path) && !B.skipConfirm then check (B.confirm path) else pure ()

/-- write a Statefile -/
def writeState (name : String) (file : Statefile δ) : BackupIo δ Unit := do
  let path := filePath B.dir name
  let written ← Prog.get
  confirmOverride B written path
  check (B.write path)
  Prog.modify fun written => put written (path, file)

/-- a Statefile with nothing in it -/
def emptyFile : Statefile δ := ⟨B.version, none, none, none, none, none, none, none, none⟩

def namespaceFile (nsp : String) (cargoes : List (CargoSpec δ)) (vms : List (VmSpec δ)) : Statefile δ :=
  { emptyFile B with
    namespace_ := some nsp
    cargoes := some (cargoes.map CargoSpec.toCargoSpecPartial)
    virtualMachines := some (vms.map VmSpec.toVmSpecPartial) }

def jobsFile (jobs : List (Job δ)) : Statefile δ := { emptyFile B with jobs := some (jobs.map Job.toJobPartial) }

def secretsFile (secrets : List (SecretDb δ)) : Statefile δ := { emptyFile B with secrets := some (secrets.map secretPartial) }

def resourcesFile (resources : List (Resource δ)) : Statefile δ :=
  { emptyFile B with resources := some (resources.map resourcePartial) }

/-- a round of the loop over the namespaces -/
def backupNamespace (nsp : String) : BackupIo δ Unit := do
  let cargoes ← ask B (.cargoes nsp) (listObjects (cargoFormat B.env) D.db nsp)
  let vms ← ask B (.vms nsp) (listObjects (vmFormat B.env) D.db nsp)
  writeState B nsp (namespaceFile B nsp cargoes vms)

/-- `exec_backup` -/
def execBackup : BackupIo δ Unit := do
  check B.createDirAll
  let namespaces ← ask B .namespaces (.ok (listNamespaces D.db))
  Prog.forEach namespaces (backupNamespace B D)
  let jobs ← ask B .jobs (listJobs B.env D.db)
  writeState B "jobs" (jobsFile B (B.jobOrder jobs))
  let secrets ← ask B .secrets (.ok (newest D.secrets.rows))
  writeState B "secrets" (secretsFile B secrets)
  let resources ← ask B .resources (.ok (listResources D.db))
  writeState B "resources" (resourcesFile B resources)

/-! ## Property -/

/-- the current spec of a cargo or of a VM -/
def current (F : Format δ σ π) (db : Tables δ) (row : ObjectDb) : Except HttpError σ :=
  (objectOf F db row.key).map fun obj => obj.spec

/-- a job as it stands -/
def currentJob (E : Env δ) (db : Tables δ) (row : JobDb δ) : Except HttpError (Job δ) := do
  let status ← orNotFound "JobDb" (db.statuses.find row.statusKey)
  tryToJob E row status.status

/-- a resource with its current spec -/
def currentResource (db : Tables δ) (row : ResourceDb) : Option (Resource δ) :=
  (db.specs.find row.specKey).map fun spec => ⟨row.kind, toResourceSpec spec⟩

/-- what the Statefiles in the output directory hold, all together -/
def held {α : Type} (get : Statefile δ → Option (List α)) (written : Written δ) : List α :=
  (written.filter fun f => (resolve B.dir).isPrefixOf f.1).flatMap fun f => (get f.2).getD []

/-- what they hold for a namespace -/
def ofNamespace {α : Type} (get : Statefile δ → Option (List α)) (nsp : String) (file : Statefile δ) : Option (List α) :=
  if file.namespace_ = some nsp then get file else none

/-- the Statefiles hold everything, each once and with its current spec -/
structure Complete (written : Written δ) : Prop where
  cargoes : ∀ nsp, ((held B (ofNamespace Statefile.cargoes nsp) written).map Except.ok).Perm
    ((rowsOf D.db .cargo nsp).map fun row => (current (cargoFormat B.env) D.db row).map CargoSpec.toCargoSpecPartial)
  vms : ∀ nsp, ((held B (ofNamespace Statefile.virtualMachines nsp) written).map Except.ok).Perm
    ((rowsOf D.db .vm nsp).map fun row => (current (vmFormat B.env) D.db row).map VmSpec.toVmSpecPartial)
  jobs : ((held B Statefile.jobs written).map Except.ok).Perm
    (D.db.jobs.rows.map fun row => (currentJob B.env D.db row).map Job.toJobPartial)
  secrets : (held B Statefile.secrets written).Perm (D.secrets.rows.map secretPartial)
  resources : ((held B Statefile.resources written).map some).Perm
    (D.db.resources.rows.map fun row => (currentResource D.db row).map resourcePartial)

/-! ## Condition -/

/-- the names of the files that are written after that of a namespace -/
def writtenAfter (listing : List String) (nsp : String) : List String :=
  (listing.dropWhile fun other => other ≠ nsp).tail ++ ["jobs", "secrets", "resources"]

/-- the file of a namespace is written into the directory, and not overwritten -/
structure Kept (nsp : String) : Prop where
  listed : nsp ∈ listNamespaces D.db
  inside : resolve B.dir <+: filePath B.dir nsp
  last : ∀ other ∈ writtenAfter (listNamespaces D.db) nsp, filePath B.dir other ≠ filePath B.dir nsp

/-- what a backup needs to be complete -/
structure Fits : Prop where
  objects : ∀ kind nsp, rowsOf D.db kind nsp ≠ [] → Kept B D nsp ∧ (rowsOf D.db kind nsp).length ≤ 100
  jobs : D.db.jobs.rows.length ≤ 100
  secrets : D.secrets.rows.length ≤ 100
  resources : D.db.resources.rows.length ≤ 100

/-! ## Listings -/

section Newest

variable {α β : Type}

theorem newest_map (f : α → β) (l : List α) : newest (l.map f) = (newest l).map f := by
  rw [newest, newest, ← List.map_reverse, List.map_take]

/-- a listing shows all rows if there are not more than 100 -/
theorem newest_map_perm_iff (f : α → β) (l : List α) : ((newest l).map f).Perm (l.map f) ↔ l.length ≤ 100 := by
  constructor
  · intro h
    have hlen := h.length_eq
    simp only [newest, List.length_map, List.length_take, List.length_reverse] at hlen
    omega
  · intro h
    rw [newest, List.take_of_length_le (by simpa using h)]
    exact (List.reverse_perm l).map f

/-- a join that finds something for each row -/
theorem map_eq_of_isSome {f : α → Option β} {l : List α} (h : ∀ a ∈ l, (f a).isSome) :
    l.map f = (l.filterMap f).map some := by
  induction l with
  | nil => rfl
  | cons a l ih =>
    obtain ⟨b, hb⟩ := Option.isSome_iff_exists.1 (h a List.mem_cons_self)
    rw [List.map_cons, hb, List.filterMap_cons_some hb, List.map_cons, ih fun c hc => h c (List.mem_cons_of_mem a hc)]

theorem newest_filterMap {f : α → Option β} {l : List α} (h : ∀ a ∈ l, (f a).isSome) :
    (newest (l.filterMap f)).map some = (newest l).map f := by
  rw [← newest_map, ← newest_map, map_eq_of_isSome h]

/-- a loop that returns has an answer for each row -/
theorem map_ok_of_mapM {ε : Type} {f : α → Except ε β} {l : List α} {bs : List β} (h : l.mapM f = .ok bs) :
    bs.map Except.ok = l.map f := by
  have hforall := mapM_eq_ok_iff.1 h
  clear h
  induction hforall with
  | nil => rfl
  | cons hab _ ih => rw [List.map_cons, List.map_cons, hab, ih]

/-- the answers, converted -/
theorem map_ok_map {ε ρ : Type} {part : α → β} {f : ρ → Except ε α} {l : List α} {rows : List ρ}
    (h : l.map Except.ok = rows.map f) : (l.map part).map Except.ok = rows.map fun row => (f row).map part := by
  have h := congrArg (List.map (Except.map part)) h
  rw [List.map_map, List.map_map] at h
  rw [List.map_map]
  exact h

end Newest

section Listings

variable {B D} {F : Format δ σ π} {nsp : String}

theorem mem_of_mem_rowsOf {db : Tables δ} {kind : ObjectKind} {row : ObjectDb} (h : row ∈ rowsOf db kind nsp) :
    row ∈ (db.objects kind).rows := (List.mem_filter.1 h).1

/-- each row is joined with its spec and its status -/
theorem joined_of_mem {kind : ObjectKind} {row : ObjectDb} (h : row ∈ (D.db.objects kind).rows) :
    ∃ spec status, D.db.joined kind row.key = some (row, spec, status) ∧ D.db.specs.find row.specKey = some spec := by
  obtain ⟨spec, hspec⟩ := Option.isSome_iff_exists.1 (D.references.spec kind row h)
  obtain ⟨status, hstatus⟩ := Option.isSome_iff_exists.1 (D.references.status kind row h)
  refine ⟨spec, status, ?_, hspec⟩
  simp [Tables.joined, Lib.Table.find_eq_some.2 ⟨h, rfl⟩, hspec, hstatus]

/-- the spec of an object is read once more as it was -/
theorem reread {row : ObjectDb} {spec : SpecDb δ} {status : ObjPsStatusDb} {obj : Object σ}
    (hspec : D.db.specs.find row.specKey = some spec) (hobj : transform F (row, spec, status) = .ok obj) :
    (do
      let s ← orNotFound "SpecDb" (D.db.specs.find (F.specKey obj.spec))
      F.read s : Except HttpError σ) = .ok obj.spec := by
  unfold transform at hobj
  obtain ⟨read, hread, hobj⟩ := Except.bind_eq_ok_iff.1 hobj
  cases hobj
  have hkey : F.specKey read = row.specKey := (F.specKey_read _ _ hread).trans (Lib.Table.find_eq_some.1 hspec).2
  rw [hkey, hspec]
  exact hread

/-- **What a listing answers**: the current specs of the newest rows of the namespace. -/
theorem listObjects_ok {specs : List σ} (h : listObjects F D.db nsp = .ok specs) :
    specs.map Except.ok = (newest (rowsOf D.db F.kind nsp)).map (current F D.db) := by
  unfold listObjects at h
  obtain ⟨-, -, h⟩ := Except.bind_eq_ok_iff.1 h
  obtain ⟨objs, hobjs, hspecs⟩ := Except.bind_eq_ok_iff.1 h
  have hjoined := newest_filterMap (l := rowsOf D.db F.kind nsp) (f := fun row => D.db.joined F.kind row.key) fun row hrow => by
    obtain ⟨spec, status, hrow, -⟩ := joined_of_mem (mem_of_mem_rowsOf hrow)
    simp [hrow]
  have hall : objs.map Except.ok = (newest (rowsOf D.db F.kind nsp)).map fun row => objectOf F D.db row.key := by
    have h := congrArg (List.map fun r => orNotFound F.kind.table r >>= transform F) hjoined
    rw [List.map_map, List.map_map] at h
    exact (map_ok_of_mapM hobjs).trans h
  have hread : ∀ obj ∈ objs, (do
      let spec ← orNotFound "SpecDb" (D.db.specs.find (F.specKey obj.spec))
      F.read spec : Except HttpError σ) = .ok obj.spec := by
    intro obj hobj
    obtain ⟨r, hr, htransform⟩ := exists_of_mem_mapM hobjs hobj
    obtain ⟨row, hrow, hjoin⟩ := List.mem_filterMap.1 (mem_of_mem_newest hr)
    obtain ⟨spec, status, hjoin', hspec⟩ := joined_of_mem (mem_of_mem_rowsOf hrow)
    obtain rfl : (row, spec, status) = r := by simpa [hjoin'] using hjoin
    exact reread hspec htransform
  calc specs.map Except.ok = objs.map fun obj => .ok obj.spec := by
        rw [map_ok_of_mapM hspecs]
        exact List.map_congr_left hread
    _ = (objs.map Except.ok).map fun obj => obj.map fun obj => obj.spec := by
        rw [List.map_map]
        rfl
    _ = (newest (rowsOf D.db F.kind nsp)).map (current F D.db) := by
        rw [hall, List.map_map]
        rfl

/-- the jobs as they stand, the newest of them -/
theorem listJobs_ok {E : Env δ} {jobs : List (Job δ)} (h : listJobs E D.db = .ok jobs) :
    jobs.map Except.ok = (newest D.db.jobs.rows).map (currentJob E D.db) := by
  have hjoined := newest_filterMap (l := D.db.jobs.rows)
    (f := fun row => (D.db.statuses.find row.statusKey).map fun status => (row, status)) fun row hrow => by
      simpa using D.references.jobStatus row hrow
  have h' := congrArg (List.map fun r => orNotFound "JobDb" r >>= fun r => tryToJob E r.1 r.2.status) hjoined
  rw [List.map_map, List.map_map] at h'
  rw [map_ok_of_mapM h]
  refine Eq.trans h' (List.map_congr_left fun row _ => ?_)
  simp only [Function.comp_apply, currentJob]
  cases D.db.statuses.find row.statusKey <;> rfl

/-- the resources with their current specs, the newest of them -/
theorem listResources_eq : (listResources D.db).map some = (newest D.db.resources.rows).map (currentResource D.db) := by
  have hjoined := newest_filterMap (l := D.db.resources.rows)
    (f := fun row => (D.db.specs.find row.specKey).map fun spec => (row, spec)) fun row hrow => by
      simpa using D.references.resourceSpec row hrow
  have h := congrArg (List.map (Option.map fun r : ResourceDb × SpecDb δ =>
    (⟨r.1.kind, toResourceSpec r.2⟩ : Resource δ))) hjoined
  rw [List.map_map, List.map_map] at h
  rw [listResources, List.map_map]
  refine Eq.trans h (List.map_congr_left fun row _ => ?_)
  simp [currentResource, Function.comp_def]

end Listings

/-! ## Files of a backup -/

section Run

variable {B D} {s s' : Written δ}

theorem check_ok {e : Option IoError} (h : check e s = (.ok (), s')) : s' = s := by
  cases e with
  | some e => cases h
  | none => exact (Prod.mk.inj h).2.symm

theorem ask_ok {α : Type} {l : Listing} {answer : Except HttpError α} {a : α} (h : ask B l answer s = (.ok a, s')) :
    answer = .ok a ∧ s' = s := by
  obtain ⟨_, s₁, hcheck, hanswer⟩ := Prog.bind_eq_ok h
  obtain rfl := check_ok hcheck
  cases answer with
  | error e => cases hanswer
  | ok b =>
    cases hanswer
    exact ⟨rfl, rfl⟩

theorem writeState_ok {name : String} {file : Statefile δ} (h : writeState B name file s = (.ok (), s')) :
    s' = put s (filePath B.dir name, file) := by
  obtain ⟨written, s₁, hget, h₁⟩ := Prog.bind_eq_ok h
  obtain ⟨_, s₂, hconfirm, h₂⟩ := Prog.bind_eq_ok h₁
  obtain ⟨_, s₃, hwrite, hput⟩ := Prog.bind_eq_ok h₂
  obtain rfl := check_ok hwrite
  obtain rfl : s₁ = s := (Prod.mk.inj hget).2.symm
  obtain rfl : s₃ = s₁ := by
    unfold confirmOverride at hconfirm
    split at hconfirm
    · exact check_ok hconfirm
    · exact (Prod.mk.inj hconfirm).2.symm
  exact (Prod.mk.inj hput).2.symm

variable (B D) in
/-- the file of a namespace, where its listings are answered -/
def fileOf (nsp : String) : Statefile δ :=
  namespaceFile B nsp ((listObjects (cargoFormat B.env) D.db nsp).toOption.getD [])
    ((listObjects (vmFormat B.env) D.db nsp).toOption.getD [])

variable (B D) in
/-- the listings of a namespace are answered -/
def Answered (nsp : String) : Prop :=
  (∃ cargoes, listObjects (cargoFormat B.env) D.db nsp = .ok cargoes) ∧ ∃ vms, listObjects (vmFormat B.env) D.db nsp = .ok vms

theorem backupNamespace_ok {nsp : String} (h : backupNamespace B D nsp s = (.ok (), s')) :
    Answered B D nsp ∧ s' = put s (filePath B.dir nsp, fileOf B D nsp) := by
  obtain ⟨cargoes, s₁, haskcargoes, h'⟩ := Prog.bind_eq_ok h
  obtain ⟨vms, s₂, haskvms, hwrite⟩ := Prog.bind_eq_ok h'
  obtain ⟨hcargoes, rfl⟩ := ask_ok haskcargoes
  obtain ⟨hvms, rfl⟩ := ask_ok haskvms
  refine ⟨⟨⟨cargoes, hcargoes⟩, vms, hvms⟩, ?_⟩
  rw [writeState_ok hwrite, fileOf, hcargoes, hvms]
  rfl

variable (B D) in
/-- the three files at the end -/
def lastWrites (jobs : List (Job δ)) : Written δ :=
  [(filePath B.dir "jobs", jobsFile B (B.jobOrder jobs)), (filePath B.dir "secrets", secretsFile B (newest D.secrets.rows)),
    (filePath B.dir "resources", resourcesFile B (listResources D.db))]

variable (B D) in
/-- the writes of a backup -/
def writes (jobs : List (Job δ)) : Written δ :=
  (listNamespaces D.db).map (fun nsp => (filePath B.dir nsp, fileOf B D nsp)) ++ lastWrites B D jobs

/-- **The files that a backup leaves.** -/
theorem written_of_ok {written : Written δ} (h : execBackup B D [] = (.ok (), written)) :
    ∃ jobs, listJobs B.env D.db = .ok jobs ∧ (∀ nsp ∈ listNamespaces D.db, Answered B D nsp) ∧
      written = survivors (writes B D jobs) := by
  obtain ⟨_, s₁, hdir, h₁⟩ := Prog.bind_eq_ok h
  obtain ⟨listing, s₂, hasklisting, h₂⟩ := Prog.bind_eq_ok h₁
  obtain ⟨_, s₃, hloop, h₃⟩ := Prog.bind_eq_ok h₂
  obtain ⟨jobs, s₄, haskjobs, h₄⟩ := Prog.bind_eq_ok h₃
  obtain ⟨_, s₅, hwjobs, h₅⟩ := Prog.bind_eq_ok h₄
  obtain ⟨secrets, s₆, hasksecrets, h₆⟩ := Prog.bind_eq_ok h₅
  obtain ⟨_, s₇, hwsecrets, h₇⟩ := Prog.bind_eq_ok h₆
  obtain ⟨resources, s₈, haskresources, hwresources⟩ := Prog.bind_eq_ok h₇
  obtain rfl := check_ok hdir
  obtain ⟨hlisting, rfl⟩ := ask_ok hasklisting
  obtain ⟨hjobs, rfl⟩ := ask_ok haskjobs
  obtain ⟨hsecrets, rfl⟩ := ask_ok hasksecrets
  obtain ⟨hresources, rfl⟩ := ask_ok haskresources
  obtain rfl := Except.ok.inj hlisting
  obtain rfl := Except.ok.inj hsecrets
  obtain rfl := Except.ok.inj hresources
  obtain ⟨hall, hfold⟩ : (∀ nsp ∈ listNamespaces D.db, Answered B D nsp) ∧
      s₄ = (listNamespaces D.db).foldl (fun s nsp => put s (filePath B.dir nsp, fileOf B D nsp)) [] :=
    Prog.forEach_ok_foldl (P := Answered B D) (g := fun s nsp => put s (filePath B.dir nsp, fileOf B D nsp))
      (fun nsp s s' h => backupNamespace_ok h) hloop
  refine ⟨jobs, hjobs, hall, ?_⟩
  have hwrites : written = (writes B D jobs).foldl put [] := by
    rw [writeState_ok hwresources, writeState_ok hwsecrets, writeState_ok hwjobs, hfold, writes, List.foldl_append,
      List.foldl_map]
    rfl
  rw [hwrites, foldl_put]
  rfl

end Run

/-! ## What the files hold -/

section Held

variable {B D}

theorem resolve_append_singleton (dir : Path) {c : String} (hc : c ≠ "..") : resolve (dir ++ [c]) = resolve dir ++ [c] := by
  rw [resolve, List.foldl_append, List.foldl_cons, List.foldl_nil, if_neg hc]
  rfl

/-- the file of a name without `/` -/
theorem filePath_of_plain (dir : Path) {name : String} (h : '/' ∉ name.toList) :
    filePath dir name = resolve dir ++ [name ++ ".yml"] := by
  have hlast : ∀ c : String, c.toList.getLast? ≠ some 'l' → name ++ ".yml" ≠ c := by
    rintro c hc rfl
    exact hc (by simp)
  have hplain : '/' ∉ (name ++ ".yml").toList := by simpa using h
  have hcomponents : components (name ++ ".yml") = [name ++ ".yml"] := by
    rw [components, List.splitOn_eq_singleton hplain, List.map_singleton, String.ofList_toList]
    simp [hlast "" (by decide), hlast "." (by decide)]
  rw [filePath, hcomponents, resolve_append_singleton dir (hlast ".." (by decide))]

theorem held_eq {α : Type} (get : Statefile δ → Option (List α)) (written : Written δ) : held B get written =
    written.flatMap fun f => if (resolve B.dir).isPrefixOf f.1 then (get f.2).getD [] else [] := flatMap_filter_eq written

/-- a file that is written into the directory and not overwritten is there -/
theorem held_survivors {α : Type} {get : Statefile δ → Option (List α)} {pre suf : Written δ} {path : Path}
    {file : Statefile δ} (hpre : ∀ w ∈ pre, get w.2 = none) (hsuf : ∀ w ∈ suf, get w.2 = none)
    (hinside : resolve B.dir <+: path) (hlast : path ∉ suf.map Prod.fst) :
    held B get (survivors (pre ++ (path, file) :: suf)) = (get file).getD [] := by
  rw [held_eq, flatMap_survivors, if_neg hlast, if_pos (List.isPrefixOf_iff_prefix.2 hinside)]
  · intro w hw
    simp [hpre w hw]
  · intro w hw
    simp [hsuf w hw]

/-- a file that is not has nothing in it that is left -/
theorem held_lost {α : Type} {get : Statefile δ → Option (List α)} {pre suf : Written δ} {path : Path}
    {file : Statefile δ} (hpre : ∀ w ∈ pre, get w.2 = none) (hsuf : ∀ w ∈ suf, get w.2 = none)
    (hlost : ¬ (resolve B.dir <+: path ∧ path ∉ suf.map Prod.fst)) :
    held B get (survivors (pre ++ (path, file) :: suf)) = [] := by
  rw [held_eq, flatMap_survivors]
  · split_ifs with hlast hinside
    · rfl
    · exact absurd ⟨List.isPrefixOf_iff_prefix.1 hinside, hlast⟩ hlost
    · rfl
  · intro w hw
    simp [hpre w hw]
  · intro w hw
    simp [hsuf w hw]

theorem nodup_listNamespaces (db : Tables δ) : (listNamespaces db).Nodup := by
  have hreverse : (db.namespaces.rows.reverse.map NamespaceDb.name).Nodup := by
    rw [List.map_reverse]
    exact List.nodup_reverse.2 db.namespaces.nodup
  exact hreverse.sublist ((List.take_sublist _ _).map _)

/-- what is listed before a namespace and after it -/
theorem listing_split {db : Tables δ} {nsp : String} (h : nsp ∈ listNamespaces db) :
    ∃ before after, listNamespaces db = before ++ nsp :: after ∧ nsp ∉ before ∧ nsp ∉ after ∧
      writtenAfter (listNamespaces db) nsp = after ++ ["jobs", "secrets", "resources"] := by
  have hnodup := nodup_listNamespaces db
  obtain ⟨before, after, hsplit⟩ := List.append_of_mem h
  rw [hsplit] at hnodup ⊢
  obtain ⟨-, hafter, hdisjoint⟩ := List.nodup_append.1 hnodup
  have hbefore : ∀ other ∈ before, other ≠ nsp := fun other hother => hdisjoint other hother nsp List.mem_cons_self
  have hdrop : (before ++ nsp :: after).dropWhile (fun other => decide (other ≠ nsp)) = nsp :: after := by
    rw [List.dropWhile_append_of_pos fun other hother => by simpa using hbefore other hother,
      List.dropWhile_cons_of_neg (by simp)]
  refine ⟨before, after, rfl, fun hmem => hbefore nsp hmem rfl, (List.nodup_cons.1 hafter).1, ?_⟩
  rw [writtenAfter, hdrop, List.tail_cons]

/-- the writes of other namespaces and those at the end are not of the namespace -/
theorem namespace_fileOf {nsp : String} {others : List String} (h : nsp ∉ others) :
    ∀ w ∈ others.map (fun other => (filePath B.dir other, fileOf B D other)), w.2.namespace_ ≠ some nsp := by
  intro w hw heq
  obtain ⟨other, hother, rfl⟩ := List.mem_map.1 hw
  exact h (Option.some.inj heq ▸ hother)

theorem namespace_lastWrites (nsp : String) (jobs : List (Job δ)) : ∀ w ∈ lastWrites B D jobs, w.2.namespace_ ≠ some nsp := by
  intro w hw
  simp only [lastWrites, List.mem_cons, List.not_mem_nil, or_false] at hw
  rcases hw with rfl | rfl | rfl <;> exact nofun

/-- the writes before and after that of a namespace have nothing for it -/
theorem writes_split {nsp : String} (h : nsp ∈ listNamespaces D.db) (jobs : List (Job δ)) :
    ∃ pre suf, writes B D jobs = pre ++ (filePath B.dir nsp, fileOf B D nsp) :: suf ∧
      (∀ w ∈ pre, w.2.namespace_ ≠ some nsp) ∧ (∀ w ∈ suf, w.2.namespace_ ≠ some nsp) ∧
      suf.map Prod.fst = (writtenAfter (listNamespaces D.db) nsp).map (filePath B.dir) := by
  obtain ⟨before, after, hsplit, hbefore, hafter, hwritten⟩ := listing_split h
  refine ⟨before.map fun other => (filePath B.dir other, fileOf B D other),
    after.map (fun other => (filePath B.dir other, fileOf B D other)) ++ lastWrites B D jobs, ?_,
    namespace_fileOf hbefore, ?_, ?_⟩
  · simp [writes, hsplit]
  · intro w hw
    rcases List.mem_append.1 hw with hw | hw
    · exact namespace_fileOf hafter w hw
    · exact namespace_lastWrites nsp jobs w hw
  · rw [hwritten]
    simp [lastWrites, Function.comp_def]

theorem held_of_kept {α : Type} (get : Statefile δ → Option (List α)) {nsp : String} (h : Kept B D nsp) (jobs : List (Job δ)) :
    held B (ofNamespace get nsp) (survivors (writes B D jobs)) = (get (fileOf B D nsp)).getD [] := by
  obtain ⟨pre, suf, hwrites, hpre, hsuf, hpaths⟩ := writes_split h.listed jobs
  rw [hwrites, held_survivors (fun w hw => if_neg (hpre w hw)) (fun w hw => if_neg (hsuf w hw)) h.inside]
  · rw [ofNamespace, if_pos (by rfl)]
  · rw [hpaths, List.mem_map]
    rintro ⟨other, hother, heq⟩
    exact h.last other hother heq

theorem held_of_not_kept {α : Type} (get : Statefile δ → Option (List α)) {nsp : String} (h : ¬ Kept B D nsp)
    (jobs : List (Job δ)) : held B (ofNamespace get nsp) (survivors (writes B D jobs)) = [] := by
  by_cases hlisted : nsp ∈ listNamespaces D.db
  · obtain ⟨pre, suf, hwrites, hpre, hsuf, hpaths⟩ := writes_split hlisted jobs
    rw [hwrites, held_lost (fun w hw => if_neg (hpre w hw)) (fun w hw => if_neg (hsuf w hw))]
    rintro ⟨hinside, hlast⟩
    refine h ⟨hlisted, hinside, fun other hother heq => hlast ?_⟩
    rw [hpaths]
    exact List.mem_map.2 ⟨other, hother, heq⟩
  · rw [held_eq, List.flatMap_eq_nil_iff]
    intro w hw
    have hne : w.2.namespace_ ≠ some nsp := by
      rcases List.mem_append.1 (mem_of_mem_survivors hw) with hw | hw
      · exact namespace_fileOf hlisted w hw
      · exact namespace_lastWrites nsp jobs w hw
    simp [ofNamespace, hne]

end Held

/-! ## Main theorem -/

section Main

variable {B D}

/-- the objects of a namespace are held exactly if its file is kept and its listing has all of them -/
theorem objects_iff (F : Format δ σ π) (part : σ → π) (get : Statefile δ → Option (List π)) {nsp : String}
    (hget : get (fileOf B D nsp) = some (((listObjects F D.db nsp).toOption.getD []).map part))
    (hlisted : nsp ∈ listNamespaces D.db → ∃ specs, listObjects F D.db nsp = .ok specs) (jobs : List (Job δ)) :
    ((held B (ofNamespace get nsp) (survivors (writes B D jobs))).map Except.ok).Perm
        ((rowsOf D.db F.kind nsp).map fun row => (current F D.db row).map part) ↔
      (rowsOf D.db F.kind nsp ≠ [] → Kept B D nsp ∧ (rowsOf D.db F.kind nsp).length ≤ 100) := by
  by_cases hkept : Kept B D nsp
  · obtain ⟨specs, hspecs⟩ := hlisted hkept.listed
    rw [held_of_kept get hkept, hget, hspecs]
    change ((specs.map part).map Except.ok).Perm _ ↔ _
    rw [map_ok_map (listObjects_ok hspecs), newest_map_perm_iff]
    constructor
    · exact fun hlen _ => ⟨hkept, hlen⟩
    · intro h
      by_cases hnil : rowsOf D.db F.kind nsp = []
      · simp [hnil]
      · exact (h hnil).2
  · rw [held_of_not_kept get hkept]
    constructor
    · intro h hne
      exact absurd (List.map_eq_nil_iff.1 (List.nil_perm.1 h)) hne
    · intro h
      have hnil : rowsOf D.db F.kind nsp = [] := by
        by_contra hne
        exact hkept (h hne).1
      simp [hnil]

/-- the three files at the end are kept -/
theorem held_last (jobs : List (Job δ)) :
    held B Statefile.jobs (survivors (writes B D jobs)) = (B.jobOrder jobs).map Job.toJobPartial ∧
      held B Statefile.secrets (survivors (writes B D jobs)) = (newest D.secrets.rows).map secretPartial ∧
      held B Statefile.resources (survivors (writes B D jobs)) = (listResources D.db).map resourcePartial := by
  have hjobs := filePath_of_plain B.dir (show '/' ∉ "jobs".toList by decide)
  have hsecrets := filePath_of_plain B.dir (show '/' ∉ "secrets".toList by decide)
  have hresources := filePath_of_plain B.dir (show '/' ∉ "resources".toList by decide)
  have hnamespaces : ∀ w ∈ (listNamespaces D.db).map (fun nsp => (filePath B.dir nsp, fileOf B D nsp)),
      w.2.jobs = none ∧ w.2.secrets = none ∧ w.2.resources = none := by
    intro w hw
    obtain ⟨nsp, -, rfl⟩ := List.mem_map.1 hw
    exact ⟨rfl, rfl, rfl⟩
  refine ⟨?_, ?_, ?_⟩
  · rw [writes, lastWrites, held_survivors (fun w hw => (hnamespaces w hw).1)]
    · rfl
    · simp [secretsFile, resourcesFile, emptyFile]
    · rw [hjobs]
      exact List.prefix_append _ _
    · simp [hjobs, hsecrets, hresources]
  · rw [writes, lastWrites, List.append_cons, held_survivors]
    · rfl
    · intro w hw
      rcases List.mem_append.1 hw with hw | hw
      · exact (hnamespaces w hw).2.1
      · obtain rfl := List.mem_singleton.1 hw
        rfl
    · simp [resourcesFile, emptyFile]
    · rw [hsecrets]
      exact List.prefix_append _ _
    · simp [hsecrets, hresources]
  · rw [writes, lastWrites, List.append_cons, List.append_cons, held_survivors]
    · rfl
    · intro w hw
      rcases List.mem_append.1 hw with hw | hw
      · rcases List.mem_append.1 hw with hw | hw
        · exact (hnamespaces w hw).2.2
        · obtain rfl := List.mem_singleton.1 hw
          rfl
      · obtain rfl := List.mem_singleton.1 hw
        rfl
    · simp
    · rw [hresources]
      exact List.prefix_append _ _
    · simp

/-- **A backup that returns is complete exactly if it fits.** -/
theorem complete_iff (B : BackupEnv δ) (D : DaemonState δ) (h : (execBackup B D []).1 = .ok ()) :
    Complete B D (execBackup B D []).2 ↔ Fits B D := by
  obtain ⟨jobs, hjobs, hanswered, hwritten⟩ := written_of_ok (Prog.eq_of_ok h)
  rw [hwritten]
  obtain ⟨hheldjobs, hheldsecrets, hheldresources⟩ := held_last (B := B) (D := D) jobs
  have hcargoes := fun nsp => objects_iff (cargoFormat B.env) CargoSpec.toCargoSpecPartial Statefile.cargoes
    (B := B) (D := D) rfl (fun hmem => (hanswered nsp hmem).1) jobs
  have hvms := fun nsp => objects_iff (vmFormat B.env) VmSpec.toVmSpecPartial Statefile.virtualMachines
    (B := B) (D := D) rfl (fun hmem => (hanswered nsp hmem).2) jobs
  have hjobsiff : ((held B Statefile.jobs (survivors (writes B D jobs))).map Except.ok).Perm
      (D.db.jobs.rows.map fun row => (currentJob B.env D.db row).map Job.toJobPartial) ↔ D.db.jobs.rows.length ≤ 100 := by
    have horder := ((B.jobOrder_perm jobs).map Job.toJobPartial).map (Except.ok (ε := HttpError))
    rw [hheldjobs, horder.congr_left, map_ok_map (listJobs_ok hjobs), newest_map_perm_iff]
  have hsecretsiff : (held B Statefile.secrets (survivors (writes B D jobs))).Perm (D.secrets.rows.map secretPartial) ↔
      D.secrets.rows.length ≤ 100 := by
    rw [hheldsecrets]
    exact newest_map_perm_iff secretPartial D.secrets.rows
  have hresourcesiff : ((held B Statefile.resources (survivors (writes B D jobs))).map some).Perm
      (D.db.resources.rows.map fun row => (currentResource D.db row).map resourcePartial) ↔
        D.db.resources.rows.length ≤ 100 := by
    have hall : ((listResources D.db).map resourcePartial).map some =
        (newest D.db.resources.rows).map fun row => (currentResource D.db row).map resourcePartial := by
      have h := congrArg (List.map (Option.map resourcePartial)) (listResources_eq (D := D))
      rw [List.map_map, List.map_map] at h
      rw [List.map_map]
      exact h
    rw [hheldresources, hall, newest_map_perm_iff]
  constructor
  · intro hcomplete
    refine ⟨fun kind nsp => ?_, hjobsiff.1 hcomplete.jobs, hsecretsiff.1 hcomplete.secrets,
      hresourcesiff.1 hcomplete.resources⟩
    cases kind with
    | cargo => exact (hcargoes nsp).1 (hcomplete.cargoes nsp)
    | vm => exact (hvms nsp).1 (hcomplete.vms nsp)
  · intro hfits
    exact ⟨fun nsp => (hcargoes nsp).2 (hfits.objects .cargo nsp), fun nsp => (hvms nsp).2 (hfits.objects .vm nsp),
      hjobsiff.2 hfits.jobs, hsecretsiff.2 hfits.secrets, hresourcesiff.2 hfits.resources⟩

end Main

/-! ## Plain names -/

/-- **With at most 100 rows in each listing, only the three names of the last files collide** with a name without `/`. -/
theorem fits_of_plain (B : BackupEnv δ) (D : DaemonState δ) (hnamespaces : D.db.namespaces.rows.length ≤ 100)
    (hplain : ∀ row ∈ D.db.namespaces.rows, '/' ∉ row.name.toList ∧ row.name ∉ ["jobs", "secrets", "resources"])
    (hobjects : ∀ kind nsp, (rowsOf D.db kind nsp).length ≤ 100) (hjobs : D.db.jobs.rows.length ≤ 100)
    (hsecrets : D.secrets.rows.length ≤ 100) (hresources : D.db.resources.rows.length ≤ 100) : Fits B D := by
  have hlisted : ∀ nsp, nsp ∈ listNamespaces D.db → '/' ∉ nsp.toList ∧ nsp ∉ ["jobs", "secrets", "resources"] := by
    intro nsp hnsp
    obtain ⟨row, hrow, rfl⟩ := List.mem_map.1 hnsp
    exact hplain row (mem_of_mem_newest hrow)
  refine ⟨fun kind nsp hne => ⟨?_, hobjects kind nsp⟩, hjobs, hsecrets, hresources⟩
  obtain ⟨row, hrow⟩ := List.exists_mem_of_ne_nil _ hne
  obtain ⟨hrow, hnsp⟩ := List.mem_filter.1 hrow
  obtain ⟨namespace_, hfound⟩ := Option.isSome_iff_exists.1 (D.references.namespace_ kind row hrow)
  obtain ⟨hmem, hname⟩ := Lib.Table.find_eq_some.1 hfound
  have hin : nsp ∈ listNamespaces D.db :=
    List.mem_map.2 ⟨namespace_, (mem_newest_of_le hnamespaces).2 hmem, hname.trans (by simpa using hnsp)⟩
  obtain ⟨hslash, hthree⟩ := hlisted nsp hin
  obtain ⟨before, after, hsplit, -, hafter, hwritten⟩ := listing_split hin
  refine ⟨hin, ?_, fun other hother heq => ?_⟩
  · rw [filePath_of_plain B.dir hslash]
    exact List.prefix_append _ _
  · rw [hwritten] at hother
    have hother' : '/' ∉ other.toList ∧ other ≠ nsp := by
      rcases List.mem_append.1 hother with hmem | hmem
      · exact ⟨(hlisted other (by simp [hsplit, hmem])).1, fun heq => hafter (heq ▸ hmem)⟩
      · refine ⟨?_, fun heq => hthree (heq ▸ hmem)⟩
        simp only [List.mem_cons, List.not_mem_nil, or_false] at hmem
        rcases hmem with rfl | rfl | rfl <;> decide
    rw [filePath_of_plain B.dir hother'.1, filePath_of_plain B.dir hslash] at heq
    have hnames : other ++ ".yml" = nsp ++ ".yml" := by simpa using heq
    exact hother'.2 (by simpa using hnames)

/-! ## Two namespaces, and a namespace called jobs -/

/-- a virtual machine -/
def dbSpec : VmSpecPartial Objects.Value := ⟨"db", none, none, none, none, none, ⟨"debian", none⟩, none, none, none⟩

def backupJob : JobPartial Objects.Value :=
  ⟨"nightly", none, none, some "0 3 * * *", none, [{ Runtime.Config.default with image := some "dump:latest" }], none, none⟩

/-- a cargo in each of two namespaces, a virtual machine in one of them, a job, a secret and a resource -/
def fleet : DaemonState Objects.Value where
  db :=
    { specs :=
        ⟨[tryFromCargoPartial Env.plain "web.global" "v0.16" webSpec 0,
            tryFromCargoPartial Env.plain "web.prod" "v0.16" { webSpec with replication := some (.static ⟨2⟩) } 1,
            tryFromVmPartial Env.plain "db.prod" "v0.16" dbSpec 2,
            ⟨3, .resource, "web", "v0.9", .text "nginx", none⟩],
          by decide⟩
      statuses :=
        ⟨[⟨"web.global", Status.created⟩, ⟨"web.prod", Status.created⟩, ⟨"db.prod", Status.created⟩,
            ⟨"nightly", Status.created⟩],
          by decide⟩
      namespaces := ⟨[⟨"global"⟩, ⟨"prod"⟩], by decide⟩
      cargoes :=
        ⟨[⟨"web.global", "web", 0, "web.global", "global"⟩, ⟨"web.prod", "web", 1, "web.prod", "prod"⟩], by decide⟩
      vms := ⟨[⟨"db.prod", "db", 2, "db.prod", "prod"⟩], by decide⟩
      jobs := ⟨[tryFromJobPartial Env.plain backupJob], by decide⟩
      resources := ⟨[⟨"web", "ncproxy.io/rule", 3⟩], by decide⟩
      resourceKinds := .empty
      vmImages := .empty }
  secrets := ⟨[⟨"cert", "nanocl.io/tls", false, .text "cert", none⟩], by decide⟩
  references := by
    constructor
    · intro kind
      cases kind <;> decide
    · intro kind
      cases kind <;> decide
    · intro kind
      cases kind <;> decide
    · decide
    · decide

/-- one cargo in one namespace -/
def cargoIn (nsp : String) : DaemonState Objects.Value where
  db :=
    { specs := ⟨[tryFromCargoPartial Env.plain ("web." ++ nsp) "v0.16" webSpec 0], List.nodup_singleton _⟩
      statuses := ⟨[⟨"web." ++ nsp, Status.created⟩], List.nodup_singleton _⟩
      namespaces := ⟨[⟨nsp⟩], List.nodup_singleton _⟩
      cargoes := ⟨[⟨"web." ++ nsp, "web", 0, "web." ++ nsp, nsp⟩], List.nodup_singleton _⟩
      vms := .empty
      jobs := .empty
      resources := .empty
      resourceKinds := .empty
      vmImages := .empty }
  secrets := .empty
  references := by
    constructor
    · intro kind row hrow
      cases kind with
      | cargo =>
        obtain rfl := List.mem_singleton.1 hrow
        rfl
      | vm => cases hrow
    · intro kind row hrow
      cases kind with
      | cargo =>
        obtain rfl := List.mem_singleton.1 hrow
        simp [Lib.Table.find]
      | vm => cases hrow
    · intro kind row hrow
      cases kind with
      | cargo =>
        obtain rfl := List.mem_singleton.1 hrow
        simp [Lib.Table.find]
      | vm => cases hrow
    · intro row hrow
      cases hrow
    · intro row hrow
      cases hrow

/-- a backup to `/backup` in which nothing fails -/
def plainBackup : BackupEnv Objects.Value where
  env := Env.plain
  fault _ := none
  jobOrder := id
  jobOrder_perm := List.Perm.refl
  version := "0.16"
  dir := ["backup"]
  skipConfirm := true
  createDirAll := none
  existing _ := false
  confirm _ := none
  write _ := none

theorem fits_fleet : Fits plainBackup fleet := by
  refine fits_of_plain plainBackup fleet (by decide) (by decide) (fun kind nsp => ?_) (by decide) (by decide) (by decide)
  have hrows : (fleet.db.objects kind).rows.length ≤ 100 := by
    cases kind <;> decide
  exact (List.length_filter_le _ _).trans hrows

/-- everything of both namespaces is in the files -/
theorem complete_fleet : Complete plainBackup fleet (execBackup plainBackup fleet []).2 :=
  (complete_iff plainBackup fleet rfl).2 fits_fleet

/-- the file of the namespace `jobs` is overwritten by that of the jobs -/
theorem jobs_namespace_lost :
    ¬ ∀ (B : BackupEnv Objects.Value) (D : DaemonState Objects.Value), (execBackup B D []).1 = .ok () →
      Complete B D (execBackup B D []).2 := by
  intro h
  have hcargoes := ((h plainBackup (cargoIn "jobs") rfl).cargoes "jobs").length_eq
  cases hcargoes

end Nanocl.Cli
