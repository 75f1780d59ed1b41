/-
The store as the requests of the daemon see it: the tables of the migrations with their primary keys and references, and
what a request writes beside them (image files, the crontab, the rules of the controllers, the events).

The rows of a table stand in the order of their insertion, which is that of `created_at`. A request is a program over
this world (`Io`). Each of its calls, to the database or to a tool, may fail on its own (`Env.fault`): then it has done
nothing. The database refuses a row whose key is taken, whose references are missing, and the deletion of a row that
another one refers to. JSON is a parameter δ; how a type is written as JSON and read back is a `Codec`.
-/
import Nanocl.Lib.Table
import Nanocl.Lib.Prog
import Nanocl.Status.Row

namespace Nanocl.Objects

open Nanocl.Lib Nanocl.Status

abbrev Uuid := ℕ

structure HttpError where
  status : ℕ
  msg : String
deriving DecidableEq

/-- serde: a value that is written is read back as it was -/
structure Codec (δ π : Type) where
  toValue : π → δ
  fromValue : δ → Except String π
  fromValue_toValue : ∀ p, fromValue (toValue p) = .ok p

/-! ## Specifications -/

section

variable (δ : Type)

structure CargoSpecPartial where
  name : String
  metadata : Option δ
  initContainer : Option Runtime.Config
  secrets : Option (List String)
  imagePullSecret : Option String
  imagePullPolicy : Option Runtime.ImagePullPolicy
  container : Runtime.Config
  replication : Option Runtime.ReplicationMode
deriving DecidableEq

/-- `CargoSpec`: the columns of the row beside the specification -/
structure CargoSpec extends CargoSpecPartial δ where
  key : Uuid
  cargoKey : String
  version : String
deriving DecidableEq

structure VmDisk where
  image : String
  size : Option ℕ
deriving DecidableEq

structure VmSpecPartial where
  name : String
  metadata : Option δ
  hostname : Option String
  user : Option String
  password : Option String
  sshKey : Option String
  disk : VmDisk
  macAddress : Option String
  labels : Option Labels
  hostConfig : Option Runtime.VmHostConfig
deriving DecidableEq

/-- `VmSpec`: its host configuration is always there -/
structure VmSpec extends VmSpecPartial δ where
  key : Uuid
  vmKey : String
  version : String
deriving DecidableEq

structure JobPartial where
  name : String
  metadata : Option δ
  secrets : Option (List String)
  schedule : Option String
  ttl : Option ℕ
  containers : List Runtime.Config
  imagePullSecret : Option String
  imagePullPolicy : Option Runtime.ImagePullPolicy
deriving DecidableEq

/-- `ResourceKindSpec`: where the controller of a kind listens, and the schema of its resources -/
structure ResourceKindSpec where
  schema : Option δ
  url : Option String
deriving DecidableEq

end

/-! ## Tables -/

/-- the values of `specs.kind_name` -/
inductive SpecKind where
  | cargo | vm | resource | resourceKind
deriving DecidableEq, Repr

/-- a row of `specs` -/
structure SpecDb (δ : Type) where
  key : Uuid
  kindName : SpecKind
  kindKey : String
  version : String
  data : δ
  metadata : Option δ
deriving DecidableEq

structure ObjPsStatusDb where
  key : String
  status : ObjPsStatus
deriving DecidableEq

structure NamespaceDb where
  name : String
deriving DecidableEq

/-- the two tables with the columns of `ObjectDb` -/
inductive ObjectKind where
  | cargo | vm
deriving DecidableEq, Repr

/-- a row of `cargoes` or of `vms` -/
structure ObjectDb where
  key : String
  name : String
  specKey : Uuid
  statusKey : String
  namespaceName : String
deriving DecidableEq

/-- a row keeps its key where its name and its spec change -/
theorem ObjectDb.key_repointed (name : String) (specKey : Uuid) (r : ObjectDb) :
    { r with name := name, specKey := specKey }.key = r.key := rfl

structure JobDb (δ : Type) where
  key : String
  statusKey : String
  data : δ
  metadata : Option δ
deriving DecidableEq

structure ResourceDb where
  key : String
  kind : String
  specKey : Uuid
deriving DecidableEq

theorem ResourceDb.key_repointed (specKey : Uuid) (r : ResourceDb) : { r with specKey := specKey }.key = r.key := rfl

structure ResourceKindDb where
  name : String
  specKey : Uuid
deriving DecidableEq

inductive VmImageKind where
  | base | snapshot
deriving DecidableEq, Repr

structure VmImageDb where
  name : String
  nodeName : String
  kind : VmImageKind
  path : String
  format : String
  sizeActual : ℤ
  sizeVirtual : ℤ
  parent : Option String
deriving DecidableEq

structure Tables (δ : Type) where
  specs : Table (SpecDb.key (δ := δ))
  statuses : Table ObjPsStatusDb.key
  namespaces : Table NamespaceDb.name
  cargoes : Table ObjectDb.key
  vms : Table ObjectDb.key
  jobs : Table (JobDb.key (δ := δ))
  resources : Table ResourceDb.key
  resourceKinds : Table ResourceKindDb.name
  vmImages : Table VmImageDb.name

variable {δ : Type}

namespace Tables

def objects (db : Tables δ) : ObjectKind → Table ObjectDb.key
  | .cargo => db.cargoes
  | .vm => db.vms

def setObjects (db : Tables δ) (kind : ObjectKind) (t : Table ObjectDb.key) : Tables δ :=
  match kind with
  | .cargo => { db with cargoes := t }
  | .vm => { db with vms := t }

@[simp] theorem objects_setObjects (db : Tables δ) (kind kind' : ObjectKind) (t : Table ObjectDb.key) :
    (db.setObjects kind t).objects kind' = if kind' = kind then t else db.objects kind' := by
  cases kind <;> cases kind' <;> rfl

/-- the rows that an inner join of an object with its spec and its status finds for a key -/
def joined (db : Tables δ) (kind : ObjectKind) (pk : String) : Option (ObjectDb × SpecDb δ × ObjPsStatusDb) := do
  let row ← (db.objects kind).find pk
  let spec ← db.specs.find row.specKey
  let status ← db.statuses.find row.statusKey
  return (row, spec, status)

/-- some row refers to the spec -/
def refersToSpec (db : Tables δ) (key : Uuid) : Bool :=
  db.cargoes.rows.any (·.specKey = key) || db.vms.rows.any (·.specKey = key) ||
    db.resources.rows.any (·.specKey = key) || db.resourceKinds.rows.any (·.specKey = key)

end Tables

/-! ## World -/

/-- a rule that the controller at an url holds -/
structure Rule where
  url : String
  name : String
deriving DecidableEq

/-- a request about a rule: `/{version}/rules/{name}` at an url -/
structure RuleRequest where
  url : String
  version : String
  name : String
deriving DecidableEq

/-- the rule that a request is about: the controllers know their rules by the name and never look at the version -/
def RuleRequest.rule (r : RuleRequest) : Rule := ⟨r.url, r.name⟩

structure World (δ : Type) where
  db : Tables δ
  /-- the files of the node by their path, each with what it holds -/
  files : String → Option String
  /-- root's crontab -/
  crontab : String
  /-- `/tmp/crontab` -/
  tmpCrontab : String
  /-- the rules that the controllers hold -/
  rules : List Rule
  events : List Runtime.Emitted
  /-- how many calls the requests have made -/
  calls : ℕ

/-- `n` calls later, with another database -/
def World.after (w : World δ) (n : ℕ) (db : Tables δ) : World δ := { w with db := db, calls := w.calls + n }

def World.tick (w : World δ) : World δ := w.after 1 w.db

@[simp] theorem World.after_db (w : World δ) (n : ℕ) (db : Tables δ) : (w.after n db).db = db := rfl

@[simp] theorem World.after_calls (w : World δ) (n : ℕ) (db : Tables δ) : (w.after n db).calls = w.calls + n := rfl

@[simp] theorem World.after_after (w : World δ) (n m : ℕ) (db db' : Tables δ) :
    (w.after n db).after m db' = w.after (n + m) db' := by
  simp [World.after, Nat.add_assoc]

@[simp] theorem World.tick_db (w : World δ) : w.tick.db = w.db := rfl

@[simp] theorem World.tick_calls (w : World δ) : w.tick.calls = w.calls + 1 := rfl

/-- the output of `qemu-img info` -/
structure QemuImgInfo where
  format : String
  virtualSize : ℤ
  actualSize : ℤ
deriving DecidableEq

/-- one run of `qemu-img` -/
structure QemuRun where
  success : Bool
  /-- what the file it writes holds afterwards, from what it held before -/
  written : Option String → Option String
  info : QemuImgInfo
  /-- a run that succeeds leaves the file it writes -/
  isSome_written : success = true → ∀ content, (written content).isSome

/-- `char::is_alphanumeric` -/
structure Alphanumeric where
  is : Char → Bool
  is_dot : is '.' = false

structure Env (δ : Type) where
  /-- the calls that fail -/
  fault : ℕ → Option HttpError
  /-- `Uuid::new_v4` -/
  uuid : ℕ → Uuid
  /-- what the database says about a write it refuses -/
  details : String → String
  cargoSpec : Codec δ (CargoSpecPartial δ)
  vmSpec : Codec δ (VmSpecPartial δ)
  job : Codec δ (JobPartial δ)
  resourceKind : Codec δ (ResourceKindSpec δ)
  alphanumeric : Alphanumeric
  hostname : String
  stateDir : String
  /-- the hosts the daemon listens on -/
  hosts : List String
  /-- `vars::VERSION` -/
  version : String
  /-- the runs of `qemu-img` by their call and their arguments -/
  qemu : ℕ → List String → QemuRun
  /-- the part of an import's payload that arrives, where not all of it does -/
  payload : ℕ → Option String
  /-- `crontab` takes the file over -/
  crontabAccepts : String → Bool
  /-- a JSON schema compiles, and accepts a value -/
  validate : δ → δ → Except String Unit
  /-- what the controller at an url answers to a rule; one that it refuses it does not hold -/
  applyRule : ℕ → RuleRequest → δ → Except HttpError δ
  /-- what it answers to the deletion of one -/
  deleteRule : ℕ → RuleRequest → Except HttpError Unit

/-- JSON with a constructor for each type that the daemon writes as a whole -/
inductive Value where
  | cargo (p : CargoSpecPartial Value)
  | vm (p : VmSpecPartial Value)
  | job (p : JobPartial Value)
  | resourceKind (p : ResourceKindSpec Value)
  | text (s : String)

/-- an environment where every call answers and every tool does its work -/
def Env.plain : Env Value where
  fault _ := none
  uuid n := n
  details _ := ""
  cargoSpec := ⟨.cargo, fun | .cargo p => .ok p | _ => .error "missing field", fun _ => rfl⟩
  vmSpec := ⟨.vm, fun | .vm p => .ok p | _ => .error "missing field", fun _ => rfl⟩
  job := ⟨.job, fun | .job p => .ok p | _ => .error "missing field", fun _ => rfl⟩
  resourceKind := ⟨.resourceKind, fun | .resourceKind p => .ok p | _ => .error "missing field", fun _ => rfl⟩
  alphanumeric := ⟨Char.isAlphanum, rfl⟩
  hostname := "node"
  stateDir := "/var/lib/nanocl"
  hosts := ["unix:///run/nanocl/nanocl.sock"]
  version := "0.16.2"
  qemu _ _ := ⟨true, fun _ => some "qcow2", ⟨"qcow2", 0, 0⟩, fun _ _ => rfl⟩
  payload _ := none
  crontabAccepts _ := true
  validate _ _ := .ok ()
  applyRule _ _ data := .ok data
  deleteRule _ _ := .ok ()

/-- an empty database that no request has touched -/
def World.init : World δ where
  db := ⟨.empty, .empty, .empty, .empty, .empty, .empty, .empty, .empty, .empty⟩
  files _ := none
  crontab := ""
  tmpCrontab := ""
  rules := []
  events := []
  calls := 0

abbrev Io (δ α : Type) := Prog (World δ) HttpError α

/-! ## Calls -/

section Calls

variable (E : Env δ) {α : Type}

/-- a call that may fail on its own -/
def call (f : World δ → Except HttpError α × World δ) : Io δ α := fun w =>
  match E.fault w.calls with
  | some e => (.error e, w.tick)
  | none => f w.tick

/-- a query of the database -/
def query (f : Tables δ → Except HttpError α) : Io δ α := call E fun w => (f w.db, w)

/-- a statement that changes the database, or is refused -/
def exec (f : Tables δ → Except HttpError (Tables δ)) : Io δ Unit := call E fun w =>
  match f w.db with
  | .ok db => (.ok (), { w with db := db })
  | .error e => (.error e, w)

/-- diesel's `NotFound` -/
def notFound (table : String) : HttpError := ⟨404, table ++ ": Record not found"⟩

def uniqueViolation (table : String) : HttpError := ⟨409, table ++ ": " ++ E.details table⟩

/-- every other error of the database, the violation of a reference among them -/
def invalidData (table : String) : HttpError := ⟨400, table ++ ": " ++ E.details table⟩

def badRequest (msg : String) : HttpError := ⟨400, msg⟩

def conflict (msg : String) : HttpError := ⟨409, msg⟩

def internalServerError (msg : String) : HttpError := ⟨500, msg⟩

/-- the `?` on an error of serde -/
def serde {π : Type} (r : Except String π) : Except HttpError π := r.mapError fun e => ⟨400, "serde_json: " ++ e⟩

/-- a row that is there, or `NotFound` -/
def orNotFound (table : String) (row : Option α) : Except HttpError α :=
  match row with
  | some a => .ok a
  | none => .error (notFound table)

/-- `?` on a result -/
def ofExcept (r : Except HttpError α) : Io δ α := fun w => (r, w)

@[simp] theorem run_ofExcept (r : Except HttpError α) (w : World δ) : ofExcept r w = (r, w) := rfl

variable {E}

/-- the next `n` calls answer -/
def Env.Answers (E : Env δ) (w : World δ) (n : ℕ) : Prop := ∀ i < n, E.fault (w.calls + i) = none

instance (E : Env δ) (w : World δ) (n : ℕ) : Decidable (E.Answers w n) := inferInstanceAs (Decidable (∀ i < n, _))

theorem Env.answers_succ {w : World δ} {n : ℕ} :
    E.Answers w (n + 1) ↔ E.Answers w n ∧ E.fault (w.calls + n) = none := Nat.forall_lt_succ_right

@[simp] theorem Env.answers_zero {w : World δ} : E.Answers w 0 := fun _ h => absurd h (Nat.not_lt_zero _)

theorem Env.answers_one {w : World δ} : E.Answers w 1 ↔ E.fault w.calls = none := by
  rw [Env.answers_succ]
  exact ⟨And.right, And.intro Env.answers_zero⟩

theorem Env.answers_two {w : World δ} : E.Answers w 2 ↔ E.fault w.calls = none ∧ E.fault (w.calls + 1) = none := by
  rw [Env.answers_succ, Env.answers_one]

theorem Env.answers_three {w : World δ} :
    E.Answers w 3 ↔ E.fault w.calls = none ∧ E.fault (w.calls + 1) = none ∧ E.fault (w.calls + 2) = none := by
  rw [Env.answers_succ, Env.answers_two, and_assoc]

theorem Env.answers_add {w : World δ} {m n : ℕ} (db : Tables δ) :
    E.Answers w (m + n) ↔ E.Answers w m ∧ E.Answers (w.after m db) n := by
  constructor
  · intro h
    exact ⟨fun i hi => h i (by omega), fun i hi => by simpa [Nat.add_assoc] using h (m + i) (by omega)⟩
  · rintro ⟨hm, hn⟩ i hi
    by_cases him : i < m
    · exact hm i him
    · have := hn (i - m) (by omega)
      rwa [World.after_calls, Nat.add_assoc, Nat.add_sub_cancel' (by omega)] at this

theorem call_of_fault {f : World δ → Except HttpError α × World δ} {w : World δ} {e : HttpError}
    (h : E.fault w.calls = some e) : call E f w = (.error e, w.tick) := by
  simp [call, h]

theorem call_of_answer {f : World δ → Except HttpError α × World δ} {w : World δ} (h : E.fault w.calls = none) :
    call E f w = f w.tick := by
  simp [call, h]

theorem query_of_answer {f : Tables δ → Except HttpError α} {w : World δ} (h : E.fault w.calls = none) :
    query E f w = (f w.db, w.tick) := call_of_answer h

theorem exec_of_ok {f : Tables δ → Except HttpError (Tables δ)} {w : World δ} {db : Tables δ}
    (h : E.fault w.calls = none) (hf : f w.db = .ok db) : exec E f w = (.ok (), w.after 1 db) := by
  rw [exec, call_of_answer h]
  simp [World.tick, World.after, hf]

theorem exec_of_error {f : Tables δ → Except HttpError (Tables δ)} {w : World δ} {e : HttpError}
    (h : E.fault w.calls = none) (hf : f w.db = .error e) : exec E f w = (.error e, w.tick) := by
  rw [exec, call_of_answer h]
  simp [hf]

/-- a query changes nothing but the number of calls -/
@[simp] theorem query_world (f : Tables δ → Except HttpError α) (w : World δ) : (query E f w).2 = w.tick := by
  cases h : E.fault w.calls with
  | some e => rw [query, call_of_fault h]
  | none => rw [query_of_answer h]

theorem query_ok {f : Tables δ → Except HttpError α} {w w' : World δ} {a : α} (h : query E f w = (.ok a, w')) :
    E.fault w.calls = none ∧ f w.db = .ok a ∧ w' = w.tick := by
  cases hf : E.fault w.calls with
  | some e =>
    rw [query, call_of_fault hf] at h
    cases h
  | none =>
    rw [query_of_answer hf, Prod.mk.injEq] at h
    exact ⟨rfl, h.1, h.2.symm⟩

theorem exec_ok {f : Tables δ → Except HttpError (Tables δ)} {w w' : World δ} {u : Unit} (h : exec E f w = (.ok u, w')) :
    ∃ db, E.fault w.calls = none ∧ f w.db = .ok db ∧ w' = w.after 1 db := by
  cases hf : E.fault w.calls with
  | some e =>
    rw [exec, call_of_fault hf] at h
    cases h
  | none =>
    cases hdb : f w.db with
    | error e =>
      rw [exec_of_error hf hdb] at h
      cases h
    | ok db =>
      rw [exec_of_ok hf hdb, Prod.mk.injEq] at h
      exact ⟨db, rfl, rfl, h.2.symm⟩

/-- a statement that fails changes nothing but the number of calls -/
theorem exec_error {f : Tables δ → Except HttpError (Tables δ)} {w w' : World δ} {e : HttpError}
    (h : exec E f w = (.error e, w')) : w' = w.tick := by
  cases hf : E.fault w.calls with
  | some e' =>
    rw [exec, call_of_fault hf, Prod.mk.injEq] at h
    exact h.2.symm
  | none =>
    cases hdb : f w.db with
    | error e' =>
      rw [exec_of_error hf hdb, Prod.mk.injEq] at h
      exact h.2.symm
    | ok db =>
      rw [exec_of_ok hf hdb] at h
      cases h

/-! ### Programs that only read -/

/-- the program only reads: its `n` calls answer and it returns what `f` finds in the database, or it fails and has
changed nothing -/
structure Reads (E : Env δ) (m : Io δ α) (n : ℕ) (f : Tables δ → Except HttpError α) : Prop where
  ok : ∀ w a, E.Answers w n → f w.db = .ok a → m w = (.ok a, w.after n w.db)
  error : ∀ w, ¬ (E.Answers w n ∧ ∃ a, f w.db = .ok a) → ∃ e k, m w = (.error e, w.after k w.db)

theorem reads_query (f : Tables δ → Except HttpError α) : Reads E (query E f) 1 f where
  ok w a h hf := by rw [query_of_answer (Env.answers_one.1 h), hf]; rfl
  error w h := by
    cases hc : E.fault w.calls with
    | some e => exact ⟨e, 1, by rw [query, call_of_fault hc]; rfl⟩
    | none =>
      cases hf : f w.db with
      | error e => exact ⟨e, 1, by rw [query_of_answer hc, hf]; rfl⟩
      | ok a => exact absurd ⟨Env.answers_one.2 hc, a, hf⟩ h

theorem reads_ofExcept (r : Except HttpError α) : Reads E (ofExcept r) 0 fun _ => r where
  ok w a _ h := by rw [run_ofExcept, h]; rfl
  error w h := by
    cases r with
    | error e => exact ⟨e, 0, rfl⟩
    | ok a => exact absurd ⟨Env.answers_zero, a, rfl⟩ h

theorem reads_pure (a : α) : Reads E (pure a : Io δ α) 0 fun _ => .ok a := reads_ofExcept (.ok a)

theorem reads_bind {β : Type} {m : Io δ α} {g : α → Io δ β} {n k : ℕ} {f : Tables δ → Except HttpError α}
    {h : α → Tables δ → Except HttpError β} (hm : Reads E m n f) (hg : ∀ a, Reads E (g a) k (h a)) :
    Reads E (m >>= g) (n + k) fun db => f db >>= fun a => h a db where
  ok w b ha hb := by
    cases hf : f w.db with
    | error e => simp [hf, bind, Except.bind] at hb
    | ok a =>
      simp only [hf, bind, Except.bind] at hb
      obtain ⟨h1, h2⟩ := (Env.answers_add w.db).1 ha
      rw [Prog.bind_of_ok (hm.ok w a h1 hf), (hg a).ok _ b h2 hb, World.after_after, World.after_db]
  error w hn := by
    by_cases hfirst : E.Answers w n ∧ ∃ a, f w.db = .ok a
    · obtain ⟨h1, a, hf⟩ := hfirst
      obtain ⟨e, i, hrun⟩ := (hg a).error (w.after n w.db) fun ⟨h2, b, hb⟩ =>
        hn ⟨(Env.answers_add w.db).2 ⟨h1, h2⟩, b, by simpa [hf, bind, Except.bind] using hb⟩
      exact ⟨e, n + i, by rw [Prog.bind_of_ok (hm.ok w a h1 hf), hrun, World.after_after, World.after_db]⟩
    · obtain ⟨e, i, hrun⟩ := hm.error w hfirst
      exact ⟨e, i, Prog.bind_of_error hrun⟩

end Calls

end Nanocl.Objects
