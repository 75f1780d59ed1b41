/-
What the event loop does with one event (`system/event.rs::exec_event`), over the tables it reads and writes.

The tasks that `exec_event` spawns run elsewhere; the update of a secret and `job_ttl` run in the loop itself, and so does
the wait for the task that the task manager holds for a cargo or a VM. Every call to the database may fail (`Env.fate`),
and a task may never end (`Env.ends`). A program ends with a value, with an error or with a panic, or it never ends.
`exec_event` hands an error to the loop, which logs it; a panic unwinds the loop, and a wait without end holds it.

Results:
- `secretUpdate_eq`: the update of a secret, in one equation.
- `readByKindKey_eq`: the read of the processes of an object decodes the 100 newest rows.
-/
import Nanocl.Lib.Prog
import Nanocl.Store.Listing
import Nanocl.Tasks.TaskManager
import Nanocl.Runtime.World

namespace Nanocl.System

open Nanocl.Lib Nanocl.Listing

/-! ## State -/

/-- a row of `jobs` -/
structure JobDb where
  key : String
  statusKey : String
  data : Json

/-- what `job_ttl` reads of a decoded job -/
structure JobPartial where
  ttl : Option ℕ
deriving DecidableEq

structure Job where
  name : String
  status : ObjPsStatusKind
  ttl : Option ℕ
deriving DecidableEq

/-- a row of `processes`; its data is whatever docker's inspection was -/
structure ProcessRow where
  key : String
  name : String
  kind : String
  kindKey : String
  nodeName : String
  createdAt : ℤ
  data : Json

structure Daemon where
  cargoes : List ObjectDb
  specs : List SpecDb
  statuses : List ObjPsStatusDb
  jobs : List JobDb
  processes : List ProcessRow
  /-- the events that were persisted and sent, oldest first -/
  events : List Runtime.Emitted
  /-- the tasks that the task manager holds, with their keys -/
  tasks : List (String × TaskManager.ObjTaskFuture)
  /-- the deletions that wait for the ttl of a job: its name and the seconds to wait -/
  deletions : List (String × ℕ)

/-- the tables that a read of the cargoes joins -/
def Daemon.store (d : Daemon) : Store := ⟨[], d.cargoes, [], d.specs, d.statuses, []⟩

/-- the calls to the database -/
inductive DbCall where
  | readCargoes (secret : String)
  | readJob (key : String)
  | readProcesses (kindKey : String)
  | readStatus (key : String)
  | updateStatus (key : String)
  | createEvent (kind : EventActorKind) (key : String) (action : NativeEventAction)
deriving DecidableEq

structure Env where
  externals : Externals
  /-- `serde_json::from_value::<CargoSpecPartial>`: whether it succeeds -/
  decodeCargo : Json → Option Unit
  /-- `serde_json::from_value::<JobPartial>` -/
  decodeJob : Json → Option JobPartial
  /-- `serde_json::from_value::<ContainerInspectResponse>` -/
  decodeProcess : Json → Option ContainerInspect
  /-- the error of a call that fails -/
  fate : DbCall → Option String
  /-- the task that is held under the key ends, with whatever result -/
  ends : String → Bool

/-- how a program stops early -/
inductive Stop where
  | err (message : String)
  | panic (message : String)
  /-- it waits for a task that never ends -/
  | waiting (key : String)
deriving DecidableEq

abbrev Io := Prog Daemon Stop

def Stop.kills : Stop → Bool
  | .err _ => false
  | .panic _ | .waiting _ => true

/-- the program has killed, or never ends: whoever awaits it does not get past it -/
def killed {α : Type} : Except Stop α → Bool
  | .ok _ => false
  | .error e => e.kills

/-- `Result::unwrap` -/
def unwrap {α : Type} (m : Io α) : Io α := fun s =>
  match m s with
  | (.error (.err message), s') => (.error (.panic message), s')
  | r => r

/-- a result whose error is dropped (`.ok()`) or only logged -/
def ignore (m : Io Unit) : Io Unit := fun s =>
  match m s with
  | (.error (.err _), s') => (.ok (), s')
  | r => r

/-! ## The event loop's own work -/

section

variable (E : Env)

def call (c : DbCall) : Io Unit :=
  match E.fate c with
  | none => pure ()
  | some message => Prog.fail (.err message)

def ofExcept {α : Type} : Except QueryError α → Io α
  | .ok a => pure a
  | .error message => Prog.fail (.err message)

/-- a read of the tables -/
def read {α : Type} (c : DbCall) (f : Daemon → Except QueryError α) : Io α := do
  call E c
  ofExcept (f (← Prog.get))

def ofOption {α : Type} (message : String) : Option α → Io α
  | some a => pure a
  | none => Prog.fail (.err message)

/-- the status row of a key -/
def Daemon.status (d : Daemon) (key : String) : Option ObjPsStatusDb := d.statuses.find? fun st => st.key = key

/-- `update_actual_status` on the row -/
def setActual (status : ObjPsStatusKind) (st : ObjPsStatusDb) : ObjPsStatusDb :=
  if st.actual = status.display then st else { st with actual := status.display, prevActual := st.actual }

def Daemon.mapStatus (d : Daemon) (key : String) (f : ObjPsStatusDb → ObjPsStatusDb) : Daemon :=
  { d with statuses := d.statuses.map fun st => if st.key = key then f st else st }

/-- `ObjPsStatusDb::update_actual_status` -/
def updateActualStatus (key : String) (status : ObjPsStatusKind) : Io Unit := do
  call E (.readStatus key)
  let currStatus ← ofOption "ObjPsStatusDb not found" ((← Prog.get).status key)
  if currStatus.actual = status.display then
    return ()
  call E (.updateStatus key)
  Prog.modify fun d => d.mapStatus key (setActual status)

/-- `emit_normal_native_action_sync`: the event is persisted, then sent; an error is only logged -/
def emitNormal (kind : EventActorKind) (key : String) (action : NativeEventAction) : Io Unit :=
  ignore do
    call E (.createEvent kind key action)
    Prog.modify fun d => { d with events := d.events ++ [⟨.normal, action, kind, key⟩] }

/-- the filter for the cargoes whose spec lists the secret -/
def secretFilter (key : String) : GenericFilter :=
  GenericFilter.new.where "data" (.contains (.obj [("Secrets", .arr [.str key])]))

/-- `CargoDb::transform_read_by` -/
def readCargoes (key : String) : Io (List (Object Unit)) :=
  read E (.readCargoes key) fun d =>
    cargoTable.transformReadBy E.externals E.decodeCargo (secretFilter key) d.store

/-- the body of the loop over the cargoes that use a secret -/
def updateUser (cargo : Object Unit) : Io Unit := do
  ignore (updateActualStatus E cargo.spec.kindKey .updating)
  emitNormal E .cargo cargo.spec.kindKey .updating

/-- `update`: the update of a secret -/
def update (key : String) (actor : EventActor) : Io (Option TaskManager.ObjTaskFuture) :=
  match actor.kind with
  | .secret => do
    let cargoes ← unwrap (readCargoes E key)
    Prog.forEach cargoes (updateUser E)
    return none
  | _ => return none

/-- the job of a key, joined with its status -/
def Daemon.job (d : Daemon) (key : String) : Except String Job :=
  match d.jobs.find? fun j => j.key = key with
  | none => .error "JobDb not found"
  | some j =>
    match d.status j.statusKey with
    | none => .error "JobDb not found"
    | some st =>
      match E.decodeJob j.data with
      | none => .error "invalid data"
      | some p => .ok ⟨j.key, .fromStr st.actual, p.ttl⟩

/-- `JobDb::transform_read_by_pk` -/
def readJob (key : String) : Io Job := read E (.readJob key) fun d => d.job E key

def ProcessRow.toRow (p : ProcessRow) : Row
  | "processes.key" => .text p.key
  | "processes.name" => .text p.name
  | "processes.kind" => .text p.kind
  | "processes.node_name" => .text p.nodeName
  | "processes.kind_key" => .text p.kindKey
  | "processes.data" => .json p.data
  | "processes.created_at" => .time p.createdAt
  | _ => .null

/-- `created_at.desc()` -/
def ProcessRow.newer (a b : ProcessRow) : Bool := b.createdAt ≤ a.createdAt

/-- `ProcessKind::try_from` -/
def tryToProcessKind (value : String) : Except QueryError ProcessKind :=
  match value with
  | "vm" => return .vm
  | "job" => return .job
  | "cargo" => return .cargo
  | _ => throw ("Invalid process kind " ++ value)

/-- `Process::try_from`, of which `count_status` reads the data -/
def ProcessRow.tryToProcess (p : ProcessRow) : Except QueryError ContainerInspect := do
  let _ ← tryToProcessKind p.kind
  match E.decodeProcess p.data with
  | none => throw "invalid data"
  | some data => return data

/-- `ProcessDb::read_by_kind_key` without a filter, on the table -/
def readByKindKey (kindKey : String) (processes : List ProcessRow) : Except QueryError (List ContainerInspect) := do
  let query ← genReadQuery E.externals ProcessDb.columns ProcessRow.toRow ProcessRow.newer
    (GenericFilter.new.where "kind_key" (.eq kindKey))
  (query.run processes).mapM (ProcessRow.tryToProcess E)

def readProcesses (kindKey : String) : Io (List ContainerInspect) :=
  read E (.readProcesses kindKey) fun d => readByKindKey E kindKey d.processes

/-- what `count_status` adds up: the failed, the successful and the running instances; `none` where it panics -/
def countInstances (instances : List ContainerInspect) : Option (ℕ × ℕ × ℕ) :=
  instances.foldlM (fun (n : ℕ × ℕ × ℕ) i => do
    let (f, s, r) ← countInstance i
    return (n.1 + f, n.2.1 + s, n.2.2 + r)) (0, 0, 0)

/-- `count_status`: `finished_at.unwrap()` panics -/
def countStatus (instances : List ContainerInspect) : Io (ℕ × ℕ × ℕ) :=
  match countInstances instances with
  | some n => pure n
  | none => Prog.fail (.panic "called Option::unwrap() on a None value")

def finishJob (job : Job) (status : ObjPsStatusKind) (action : NativeEventAction) : Io Unit := do
  updateActualStatus E job.name status
  emitNormal E .job job.name action

/-- the job an event is about: the label `io.nanocl.j` among the attributes of its actor -/
def jobLabel (actor : EventActor) : Option String :=
  (actor.attributes.find? fun a => a.1 = "io.nanocl.j").map Prod.snd

/-- `job_ttl` -/
def jobTtl (actor : EventActor) : Io Unit :=
  match jobLabel actor with
  | none => return ()
  | some jobId => do
    let job ← readJob E jobId
    if job.status = .finish ∨ job.status = .fail then
      return ()
    let instances ← readProcesses E job.name
    let (failed, _, running) ← countStatus instances
    if running ≠ 0 then
      return ()
    if failed > 0 then finishJob E job .fail .fail else finishJob E job .finish .finish
    match job.ttl with
    | none => return ()
    | some ttl => Prog.modify fun d => { d with deletions := d.deletions ++ [(job.name, ttl)] }

/-- the `match action` of `exec_event`; the tasks are built without a call that can fail -/
def buildTask (key : String) (actor : EventActor) (action : NativeEventAction) :
    Io (Option TaskManager.ObjTaskFuture) :=
  match action with
  | .update => update E key actor
  | .die => do
    jobTtl E actor
    return none
  | action => return TaskManager.taskOf action actor

/-- `remove_task` -/
def removeTask (key : String) : Io Unit := Prog.modify fun d => { d with tasks := d.tasks.filter fun t => t.1 ≠ key }

/-- `wait_task`; a task that has ended is held no more -/
def waitTask (key : String) : Io Unit := do
  if (← Prog.get).tasks.any fun t => t.1 = key then
    if E.ends key then removeTask key else Prog.fail (.waiting key)

/-- `add_task`; how the task runs is `TaskManager` -/
def addTask (key : String) (task : TaskManager.ObjTaskFuture) : Io Unit :=
  Prog.modify fun d => { d with tasks := (d.tasks.filter fun t => t.1 ≠ key) ++ [(key, task)] }

/-- the `match` on the kind of the actor and the action, before the task of the event is built -/
def awaitTask (taskKey : String) (kind : EventActorKind) (action : NativeEventAction) : Io Unit :=
  match kind, action with
  | .cargo, _ | .vm, _ => waitTask E taskKey
  | .job, .destroying => removeTask taskKey
  | _, _ => return ()

/-- `exec_event` -/
def execEvent (e : Event) : Io Unit :=
  match e.kind, e.actor with
  | .normal, some actor => do
    let key := actor.key.getD ""
    let taskKey := taskKey actor.kind key
    awaitTask E taskKey actor.kind (.fromStr e.action)
    match ← buildTask E key actor (.fromStr e.action) with
    | none => return ()
    | some task => addTask taskKey task
  | _, _ => return ()

/-! ## Reads -/

/-- the current spec lists the secret -/
def listsSecret (secret : String) : Json → Bool
  | .obj fields =>
    match Json.field fields "Secrets" with
    | some (.arr secrets) => secrets.any fun j => match j with | .str s => s = secret | _ => false
    | _ => false
  | _ => false

/-- the cargoes whose spec lists the secret, joined with spec and status -/
def Daemon.users (d : Daemon) (secret : String) : List Joined :=
  (cargoTable.rows d.store).filter fun r => listsSecret secret r.2.1.data

/-- the ones a read without a limit returns: the 100 newest -/
def Daemon.newestUsers (d : Daemon) (secret : String) : List Joined :=
  ((d.users secret).insertionSort fun a b => newer a b = true).take 100

/-- the 100 newest process rows of an object -/
def Daemon.newestProcesses (d : Daemon) (kindKey : String) : List ProcessRow :=
  ((d.processes.filter fun p => p.kindKey = kindKey).insertionSort fun a b => a.newer b = true).take 100

/-- an array contains an array of one text exactly if it has the text -/
theorem itemsIn_text (secrets : List Json) (secret : String) :
    Json.deepContains (.arr secrets) (.arr [.str secret]) =
      secrets.any fun j => match j with | .str s => s = secret | _ => false := by
  have h : Json.deepContains (.arr secrets) (.arr [.str secret]) =
      (secrets.any (fun u => Json.deepContains u (.str secret)) && true) := rfl
  rw [h, Bool.and_true]
  refine congrArg (secrets.any ·) (funext fun j => ?_)
  cases j with
  | str s => exact beq_eq_decide (a := s) (b := secret)
  | _ => rfl

/-- the containment filter accepts exactly the specs that list the secret -/
theorem contains_secrets (data : Json) (secret : String) :
    data.contains (.obj [("Secrets", .arr [.str secret])]) = listsSecret secret data := by
  cases data with
  | obj fields =>
    rw [listsSecret]
    cases hsecrets : Json.field fields "Secrets" with
    | none => simp [Json.contains, Json.deepContains, Json.fieldsIn, hsecrets]
    | some v =>
      have h : (Json.obj fields).contains (.obj [("Secrets", .arr [.str secret])]) = Json.deepContains v (.arr [.str secret]) := by
        rw [Json.contains, Json.deepContains, Json.fieldsIn, hsecrets, Json.fieldsIn, Bool.and_true]
        intro _ harr
        cases harr
      rw [h]
      cases v with
      | arr secrets => exact itemsIn_text secrets secret
      | _ => rfl
  | arr items => simp [Json.contains, Json.isScalar, Json.deepContains, listsSecret]
  | _ => rfl

theorem columns_data : cargoTable.columns.get "data" = some (.json, "specs.data") := by decide

theorem toRow_data (r : Joined) : cargoTable.toRow r "specs.data" = .json r.2.1.data := rfl

/-- the query of a read of the users of a secret -/
theorem genReadQuery_secret (secret : String) :
    genReadQuery E.externals cargoTable.columns cargoTable.toRow newer (secretFilter secret) =
      .ok { clause := some fun r => listsSecret secret r.2.1.data, le := newer, limit := some 100, offset := 0 } := by
  simp [genReadQuery, readOrder, genSqlQuery, secretFilter, GenericFilter.where, GenericFilter.new, Conditions.insert,
    genSqlWhere, genSqlWhere4json, filterBy, jsonClause, Where.filter, onJson, columns_data, toRow_data, contains_secrets]

theorem checkOperators_secret (secret : String) : checkOperators cargoTable.columns (secretFilter secret) = .ok () := by
  simp [checkOperators, secretFilter, GenericFilter.where, GenericFilter.new, Conditions.insert, columns_data, schemaType]

/-- a read of the users of a secret decodes the 100 newest -/
theorem readCargoes_secret (secret : String) (d : Daemon) :
    cargoTable.transformReadBy E.externals E.decodeCargo (secretFilter secret) d.store =
      (d.newestUsers secret).mapM (transform E.decodeCargo) := by
  simp only [Table.transformReadBy, genReadQuery_secret, checkOperators_secret, Except.ok_bind]
  rfl

/-- the query of a read of the processes of an object -/
theorem genReadQuery_kindKey (kindKey : String) :
    genReadQuery E.externals ProcessDb.columns ProcessRow.toRow ProcessRow.newer
        (GenericFilter.new.where "kind_key" (.eq kindKey)) =
      .ok { clause := some fun p => p.kindKey = kindKey, le := ProcessRow.newer, limit := some 100, offset := 0 } := by
  simp [genReadQuery, readOrder, genSqlQuery, GenericFilter.where, GenericFilter.new, Conditions.insert, genSqlWhere,
    genSqlWhere4string, filterBy, stringClause, Where.filter, onText, ProcessRow.toRow]

/-- a read of the processes of an object decodes the 100 newest -/
theorem readByKindKey_eq (kindKey : String) (d : Daemon) :
    readByKindKey E kindKey d.processes = (d.newestProcesses kindKey).mapM (ProcessRow.tryToProcess E) := by
  simp only [readByKindKey, genReadQuery_kindKey, Except.ok_bind]
  rfl

theorem transform_isOk {S : Type} (decode : Json → Option S) (r : Joined) :
    (∃ o, transform decode r = .ok o) ↔ (decode r.2.1.data).isSome := by
  cases h : decode r.2.1.data <;> simp [transform, SpecDb.tryToSpec, h]

/-- the row is one of a known kind, and its data decode -/
def ProcessRow.Readable (p : ProcessRow) : Prop :=
  p.kind ∈ ["vm", "job", "cargo"] ∧ (E.decodeProcess p.data).isSome

theorem tryToProcessKind_isOk (value : String) : (∃ k, tryToProcessKind value = .ok k) ↔ value ∈ ["vm", "job", "cargo"] := by
  unfold tryToProcessKind
  split <;> simp_all

theorem tryToProcess_eq_ok {p : ProcessRow} {c : ContainerInspect} :
    p.tryToProcess E = .ok c ↔ p.kind ∈ ["vm", "job", "cargo"] ∧ E.decodeProcess p.data = some c := by
  rw [ProcessRow.tryToProcess, ← tryToProcessKind_isOk]
  cases tryToProcessKind p.kind with
  | error e => simp
  | ok kind => cases h : E.decodeProcess p.data <;> simp

theorem tryToProcess_isOk (p : ProcessRow) : (∃ c, p.tryToProcess E = .ok c) ↔ p.Readable E := by
  simp only [tryToProcess_eq_ok, ProcessRow.Readable, Option.isSome_iff_exists, exists_and_left]

/-! ## Programs that end -/

/-- the program ends, with a value or with an error -/
abbrev Ends {α : Type} (m : Io α) : Prop := Prog.FailsOnly (fun e => e.kills = false) m

theorem Ends.killed {α : Type} {m : Io α} (h : Ends m) (d : Daemon) : killed (m d).1 = false := by
  rcases hm : (m d).1 with e | a
  · exact h d e hm
  · rfl

theorem killed_bind {α β : Type} (m : Io α) (f : α → Io β) (d : Daemon) :
    killed ((m >>= f) d).1 = match m d with
      | (.ok a, d') => killed (f a d').1
      | (.error e, _) => e.kills := by
  rw [Prog.run_bind]
  rcases m d with ⟨e | a, d'⟩ <;> rfl

theorem ends_call (c : DbCall) : Ends (call E c) := by
  unfold call
  split
  · exact Prog.failsOnly_pure ()
  · exact Prog.failsOnly_fail rfl

theorem ends_ignore {m : Io Unit} (h : Ends m) : Ends (ignore m) := by
  intro d e he
  unfold ignore at he
  rcases hm : m d with ⟨e' | a, d'⟩
  · have hp := h d e' (by rw [hm])
    cases e' with
    | err message => simp [hm] at he
    | panic message => cases hp
    | waiting key => cases hp
  · simp [hm] at he

theorem ends_ofOption {α : Type} (message : String) (o : Option α) : Ends (ofOption message o) := by
  cases o with
  | none => exact Prog.failsOnly_fail rfl
  | some a => exact Prog.failsOnly_pure a

theorem ends_updateActualStatus (key : String) (status : ObjPsStatusKind) :
    Ends (updateActualStatus E key status) := by
  refine Prog.failsOnly_bind (ends_call E _) fun _ => Prog.failsOnly_bind Prog.failsOnly_get fun d => ?_
  refine Prog.failsOnly_bind (ends_ofOption _ _) fun st => ?_
  split_ifs
  · exact Prog.failsOnly_pure ()
  · exact Prog.failsOnly_bind (ends_call E _) fun _ => Prog.failsOnly_modify _

theorem ends_emitNormal (kind : EventActorKind) (key : String) (action : NativeEventAction) :
    Ends (emitNormal E kind key action) :=
  ends_ignore (Prog.failsOnly_bind (ends_call E _) fun _ => Prog.failsOnly_modify _)

theorem ends_updateUser (cargo : Object Unit) : Ends (updateUser E cargo) :=
  Prog.failsOnly_bind (ends_ignore (ends_updateActualStatus E _ _)) fun _ => ends_emitNormal E _ _ _

theorem ends_finishJob (job : Job) (status : ObjPsStatusKind) (action : NativeEventAction) :
    Ends (finishJob E job status action) :=
  Prog.failsOnly_bind (ends_updateActualStatus E _ _) fun _ => ends_emitNormal E _ _ _

/-- the read of the users of a secret does not return -/
def UsersUnread (d : Daemon) (secret : String) : Prop :=
  E.fate (.readCargoes secret) ≠ none ∨ ∃ r ∈ d.newestUsers secret, E.decodeCargo r.2.1.data = none

theorem call_ok {c : DbCall} (h : E.fate c = none) (d : Daemon) : call E c d = (.ok (), d) := by
  simp [call, h]

theorem call_error {c : DbCall} {message : String} (h : E.fate c = some message) (d : Daemon) :
    call E c d = (.error (.err message), d) := by
  simp [call, h]

/-- a read leaves the tables as they are; it fails with an error of the call or of the query -/
theorem read_cases {α : Type} (c : DbCall) (f : Daemon → Except QueryError α) (d : Daemon) :
    (∃ message, read E c f d = (.error (.err message), d) ∧ (E.fate c = none → ∃ m, f d = .error m)) ∨
    ∃ a, E.fate c = none ∧ f d = .ok a ∧ read E c f d = (.ok a, d) := by
  have hread : read E c f = (call E c >>= fun _ => Prog.get >>= fun d => ofExcept (f d)) := rfl
  cases hf : E.fate c with
  | some message =>
    refine Or.inl ⟨message, ?_, fun h => by cases h⟩
    rw [hread, Prog.bind_of_error (call_error E hf d)]
  | none =>
    have hget : read E c f d = ofExcept (f d) d := by
      rw [hread, Prog.bind_of_ok (call_ok E hf d), Prog.get_bind]
    cases hx : f d with
    | error message => exact Or.inl ⟨message, by rw [hget, hx]; rfl, fun _ => ⟨message, rfl⟩⟩
    | ok a => exact Or.inr ⟨a, rfl, rfl, by rw [hget, hx]; rfl⟩

/-- the read of the users fails exactly if it is `UsersUnread` -/
theorem readCargoes_cases (secret : String) (d : Daemon) :
    (UsersUnread E d secret ∧ ∃ message, readCargoes E secret d = (.error (.err message), d)) ∨
    (¬ UsersUnread E d secret ∧ ∃ cargoes, (d.newestUsers secret).mapM (transform E.decodeCargo) = .ok cargoes ∧
      readCargoes E secret d = (.ok cargoes, d)) := by
  rcases read_cases E (.readCargoes secret)
    (fun d => cargoTable.transformReadBy E.externals E.decodeCargo (secretFilter secret) d.store) d with
    ⟨message, hm, herr⟩ | ⟨cargoes, hf, hq, hok⟩
  · refine Or.inl ⟨?_, message, hm⟩
    by_contra hu
    simp only [UsersUnread, not_or, not_not, not_exists, not_and] at hu
    obtain ⟨m, he⟩ := herr hu.1
    rw [readCargoes_secret] at he
    obtain ⟨cargoes, hc⟩ := (mapM_isOk_iff (f := transform E.decodeCargo)).2 fun r hr =>
      (transform_isOk E.decodeCargo r).2 (Option.isSome_iff_ne_none.2 (hu.2 r hr))
    rw [hc] at he
    cases he
  · rw [readCargoes_secret] at hq
    refine Or.inr ⟨?_, cargoes, hq, hok⟩
    rintro (h | ⟨r, hr, hdec⟩)
    · exact h hf
    · have := (transform_isOk E.decodeCargo r).1 (mapM_isOk_iff.1 ⟨cargoes, hq⟩ r hr)
      rw [hdec] at this
      cases this

end

end Nanocl.System
