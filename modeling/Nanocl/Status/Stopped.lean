/-
One object after a stop request: the request and its stop task beside everything else that is under way for the object.

The stop request updates the row and sends its event; the event loop creates the stop task, for a cargo or a VM once the
earlier tasks of the object have ended, for a job at once. The task reads the processes, stops their containers one after
the other and sets the actual status. Meanwhile docker reports what its containers do, to a thread of its own that runs
`exec_docker`; the event loop runs `job_ttl` on the death of a job's container; earlier tasks and requests run on. All of
them set the actual status with a read and a later update, and each takes one step at a time, in any order.

Results:
- `stays_stopped`: in every run whose steps are harmless (`Harmless`) the status is stop, no container runs and no deletion
  has been scheduled, as soon as nothing is under way.
- `harmless_iff`: the condition is exact for a single step, as it keeps the invariant that the result rests on.
- `job_not_stopped`: the stop of a job that runs. The death of its container is handled by `job_ttl`, which finishes the job
  and schedules its deletion.
- `cargo_not_stopped`: the start event of a cargo's container is handled after the stop task has set its status.
-/
import Nanocl.Lib.Transition
import Nanocl.Runtime.World
import Nanocl.Status.Row

namespace Nanocl.Stopped

open Nanocl.Lib Nanocl.Status
open Nanocl.Runtime (Container)

/-! ## Model -/

/-- what docker reports about a container of the object -/
inductive EventMessage where
  | start (id : ContainerId)
  | die (id : ContainerId) (name : String)
  | destroy (id : ContainerId)
  | other (id : ContainerId)
deriving DecidableEq

/-- an event on the way to the event loop -/
inductive LoopEvent where
  /-- the event of the stop request -/
  | stopping
  /-- the event of an earlier request, or of the update of a secret; `n` tells its task -/
  | task (n : ℕ)
  /-- a container of the object died -/
  | die
deriving DecidableEq

/-- what a task, a handler or a request does between two points where the others may run -/
inductive Instr where
  /-- `update_actual_status`: its read -/
  | setActual (status : ObjPsStatusKind)
  /-- an update of the row, which was computed from an earlier read -/
  | write (u : ObjPsStatusUpdate)
  /-- the emission of an event -/
  | send (e : LoopEvent)
  /-- `exec_docker`: the read before it sets the status -/
  | handle (e : DockerEvent)
  /-- `spawn_emit_event` for the death of a container -/
  | emitDie
  /-- the inspection of a container and the update of its process row -/
  | refresh (id : ContainerId)
  | insertProcess (p : ProcessDb)
  | deleteProcess (id : ContainerId)
  /-- `stop_instances`: the read of the processes and the loop over them -/
  | stopProcesses
  | createContainer (id : ContainerId) (c : Container)
  | startContainer (id : ContainerId)
  | stopContainer (id : ContainerId)
  | waitContainer (id : ContainerId)
  | removeContainer (id : ContainerId)
  /-- `job_ttl`: its check of the job's status -/
  | ttlStatus
  /-- `job_ttl`: its check of the instances -/
  | ttlCount
  /-- `job_ttl`: the deletion after the time to live -/
  | ttlSchedule
  /-- a panic: the event loop goes on no further -/
  | panic
deriving DecidableEq

structure Thread where
  /-- it is the body of a task, and the task manager holds it -/
  task : Bool
  code : List Instr
deriving DecidableEq

/-- where the stop request and its task stand -/
inductive StopPhase where
  /-- `emit_stopping` is about to read the row -/
  | read
  | write (u : ObjPsStatusUpdate)
  | send
  /-- the event is in the channel -/
  | queued
  /-- `stop_instances` is about to read the processes -/
  | list
  /-- the containers that are still to be stopped -/
  | stopping (ids : List ContainerId)
  | setActual
  | setWrite (u : ObjPsStatusUpdate)
  | emit
  /-- the task has ended, or the request found the object stopped -/
  | stopped
  /-- the request or the task has failed -/
  | failed
deriving DecidableEq

/-- the stop task has begun, and the task manager holds it -/
def StopPhase.inTask : StopPhase → Bool
  | .list | .stopping _ | .setActual | .setWrite _ | .emit => true
  | _ => false

structure St where
  row : ObjPsStatus
  containers : ContainerId → Option Container
  /-- the process rows of the object -/
  processes : List ProcessDb
  stop : StopPhase
  /-- what docker has reported and the daemon has not received -/
  messages : List EventMessage
  /-- what is left of `exec_docker` -/
  docker : List Instr
  channel : List LoopEvent
  /-- what is left of the event loop's own work -/
  loop : List Instr
  threads : List Thread
  /-- how often a deletion of the job was scheduled since the stop request -/
  deletions : ℕ

/-- the object, and what its environment decides -/
structure Env where
  kind : ProcessKind
  /-- the code of the tasks that start or update the object: any creations, starts and removals of containers, and
  whatever they set the status to -/
  task : ℕ → List Instr
  /-- the time to live of a job -/
  ttl : Option ℕ
  finishedAt : ContainerId → String
  exitCode : ContainerId → ℤ

variable (E : Env)

/-- the container runs -/
def Runs (s : St) (id : ContainerId) : Prop := ∃ c, s.containers id = some c ∧ c.running = true

/-- `read_by_kind_key`: the 100 newest process rows -/
def listed (s : St) : List ProcessDb := (s.processes.insertionSort fun a b => ProcessDb.newer a b = true).take 100

/-! ### Docker -/

def setContainer (s : St) (id : ContainerId) (c : Option Container) : St :=
  { s with containers := Function.update s.containers id c }

def report (s : St) (m : EventMessage) : St := { s with messages := s.messages ++ [m] }

/-- the container ends; docker reports its death -/
def endContainer (s : St) (id : ContainerId) : St :=
  match s.containers id with
  | some c =>
    if c.running then
      report (setContainer s id (some { c.ended (E.finishedAt id) with exitCode := E.exitCode id })) (.die id c.name)
    else s
  | none => s

/-- the container starts, if it does not run -/
def startContainer (s : St) (id : ContainerId) : St :=
  match s.containers id with
  | some c => if c.running then s else report (setContainer s id (some { c with running := true })) (.start id)
  | none => s

def removeContainer (s : St) (id : ContainerId) : St :=
  report (setContainer (endContainer E s id) id none) (.destroy id)

/-! ### Code -/

/-- how a step of the code goes on -/
inductive Next where
  | cont (code : List Instr)
  | ret
  | err

/-- a call on a container that is not there fails -/
def onContainer (s s' : St) (id : ContainerId) : St × Next :=
  if (s.containers id).isSome then (s', .cont []) else (s, .err)

def exec (s : St) : Instr → St × Next
  | .setActual status =>
    match (Writer.updateActualStatus status).update s.row with
    | some u => (s, .cont [.write u])
    | none => (s, .cont [])
  | .write u => ({ s with row := u.set s.row }, .cont [])
  | .send e => ({ s with channel := s.channel ++ [e] }, .cont [])
  | .handle e =>
    match e.sets s.row with
    | some status => (s, .cont [.setActual status])
    | none => (s, .cont [])
  | .emitDie => ({ s with threads := s.threads ++ [⟨false, [.send .die]⟩] }, .cont [])
  | .refresh id =>
    match s.containers id with
    | some c =>
      ({ s with processes := s.processes.map fun p =>
          if p.key = id then { p with data := c.inspect p.key, data_id := c.inspect_key p } else p }, .cont [])
    | none => (s, .err)
  | .insertProcess p => ({ s with processes := s.processes ++ [p] }, .cont [])
  | .deleteProcess id => ({ s with processes := s.processes.filter fun p => p.key ≠ id }, .cont [])
  | .stopProcesses => (s, .cont ((listed s).map fun p => .stopContainer p.key))
  | .createContainer id c =>
    if (s.containers id).isSome then (s, .err) else (setContainer s id (some { c with running := false }), .cont [])
  | .startContainer id => onContainer s (startContainer s id) id
  | .stopContainer id => onContainer s (endContainer E s id) id
  | .waitContainer id =>
    match s.containers id with
    | some c => (s, .cont (if c.running then [.waitContainer id] else []))
    | none => (s, .err)
  | .removeContainer id => onContainer s (removeContainer E s id) id
  | .ttlStatus => (s, if s.row.actual = .finish ∨ s.row.actual = .fail then .ret else .cont [])
  | .ttlCount =>
    match countStatus (listed s) with
    | none => (s, .cont [.panic])
    | some (_, failed, _, running) =>
      (s, if running ≠ 0 then .ret else .cont [.setActual (if failed > 0 then .fail else .finish), .ttlSchedule])
  | .ttlSchedule => ({ s with deletions := s.deletions + if E.ttl.isSome then 1 else 0 }, .cont [])
  | .panic => (s, .cont [.panic])

/-- the call that a step makes fails, or it does not -/
def execOr (ok : Bool) (s : St) (i : Instr) : St × Next := if ok then exec E s i else (s, .err)

/-- the code that is left; an error ends it, as a return does -/
def advance (rest : List Instr) : Next → List Instr
  | .cont code => code ++ rest
  | .ret | .err => []

/-- `exec_docker` on a container of the object -/
def execDocker : EventMessage → List Instr
  | .start id => [.handle (.start E.kind), .refresh id]
  | .die id name => [.handle (.die E.kind name), .emitDie, .refresh id]
  | .destroy id => [.deleteProcess id]
  | .other id => [.refresh id]

/-- `job_ttl` -/
def jobTtl : List Instr := [.ttlStatus, .ttlCount]

/-- the event loop creates the next task of a cargo or a VM once the one before has ended -/
def free (s : St) : Bool := E.kind = .job || (!s.stop.inTask && s.threads.all fun t => !t.task || t.code.isEmpty)

/-- `exec_event` on an event about the object or one of its containers -/
def execEvent (s : St) : LoopEvent → St
  | .stopping =>
    match s.stop with
    | .queued => { s with stop := .list }
    | _ => s
  | .task n => { s with threads := s.threads ++ [⟨true, E.task n⟩] }
  | .die => { s with loop := if E.kind = .job then jobTtl else [] }

/-- the event may be taken out of the channel -/
def ready (s : St) : LoopEvent → Bool
  | .die => true
  | _ => free E s

/-! ### Steps -/

/-- the stop request and its task -/
def stopStep (ok : Bool) (s : St) : St :=
  match s.stop, ok with
  | .read, true =>
    match Writer.emitStopping.update s.row with
    | some u => { s with stop := .write u }
    | none => { s with stop := .stopped }
  | .write u, true => { s with row := u.set s.row, stop := .send }
  | .send, true => { s with channel := s.channel ++ [.stopping], stop := .queued }
  | .read, false | .write _, false | .send, false => { s with stop := .failed }
  | .list, true => { s with stop := .stopping ((listed s).map (·.key)) }
  | .stopping [], _ => { s with stop := .setActual }
  | .stopping (id :: ids), true =>
    if (s.containers id).isSome then { endContainer E s id with stop := .stopping ids } else onError s
  | .setActual, true =>
    match (Writer.updateActualStatus .stop).update s.row with
    | some u => { s with stop := .setWrite u }
    | none => { s with stop := .emit }
  | .setWrite u, true => { s with row := u.set s.row, stop := .emit }
  | .emit, true => { s with stop := .stopped }
  | .emit, false => { s with stop := .stopped, threads := s.threads ++ [⟨false, [.setActual .fail]⟩] }
  | .list, false | .stopping _, false | .setActual, false | .setWrite _, false => onError s
  | .queued, _ | .stopped, _ | .failed, _ => s
where
  onError (s : St) : St := { s with stop := .failed, threads := s.threads ++ [⟨false, [.setActual .fail]⟩] }

/-- the thread of docker's events: it takes the next one once it is through with the one before -/
def dockerStep (ok : Bool) (s : St) : St :=
  match s.docker, s.messages with
  | i :: rest, _ => { (execOr E ok s i).1 with docker := advance rest (execOr E ok s i).2 }
  | [], m :: messages => { s with messages := messages, docker := execDocker E m }
  | [], [] => s

def loopStep (ok : Bool) (s : St) : St :=
  match s.loop, s.channel with
  | i :: rest, _ => { (execOr E ok s i).1 with loop := advance rest (execOr E ok s i).2 }
  | [], e :: channel => if ready E s e then { execEvent E s e with channel := channel } else s
  | [], [] => s

/-- a task that fails goes on with `on_error` -/
def Thread.next (t : Thread) (rest : List Instr) : Next → Thread
  | .err => if t.task then ⟨false, [.setActual .fail]⟩ else ⟨false, []⟩
  | n => { t with code := advance rest n }

def threadStep (i : ℕ) (ok : Bool) (s : St) : St :=
  match s.threads[i]? with
  | some t =>
    match t.code with
    | [] => s
    | c :: rest => { (execOr E ok s c).1 with
        threads := (execOr E ok s c).1.threads.set i (t.next rest (execOr E ok s c).2) }
  | none => s

inductive Op where
  /-- the stop request or its task takes its next step -/
  | stop (ok : Bool)
  | docker (ok : Bool)
  | loop (ok : Bool)
  /-- another task or request takes its next step -/
  | thread (i : ℕ) (ok : Bool)
  /-- a container ends on its own, or it is killed -/
  | dies (id : ContainerId)
  /-- docker starts a container again -/
  | restarts (id : ContainerId)
  /-- a secret that the cargo uses is updated; `n` tells the update task of the cargo -/
  | secretUpdated (n : ℕ)

def step (s : St) : Op → St
  | .stop ok => stopStep E ok s
  | .docker ok => dockerStep E ok s
  | .loop ok => loopStep E ok s
  | .thread i ok => threadStep E i ok s
  | .dies id => endContainer E s id
  | .restarts id => startContainer s id
  | .secretUpdated n => { s with threads := s.threads ++ [⟨false, [.setActual .updating, .send (.task n)]⟩] }

/-! ## Property and condition -/

/-- a stop request arrives, whatever the object is like and whatever is under way for it -/
def requested (s : St) : St := { s with stop := .read, deletions := 0 }

/-- nothing is under way -/
structure Settled (s : St) : Prop where
  stop : s.stop = .stopped ∨ s.stop = .failed
  messages : s.messages = []
  docker : s.docker = []
  channel : s.channel = []
  loop : s.loop = []
  threads : ∀ t ∈ s.threads, t.code = []

structure StaysStopped (s : St) : Prop where
  actual : s.row.actual = .stop
  containers : ∀ id, ¬ Runs s id
  deletions : s.deletions = 0

/-- a container that starts now will still be stopped -/
def StopPhase.stops (id : ContainerId) : StopPhase → Prop
  | .stopping ids => id ∈ ids
  | .setActual | .setWrite _ | .emit | .stopped => False
  | _ => True

instance (id : ContainerId) (p : StopPhase) : Decidable (p.stops id) := by
  cases p <;> unfold StopPhase.stops <;> infer_instance

/-- the status is set -/
def StopPhase.isSet : StopPhase → Bool
  | .emit | .stopped => true
  | _ => false

/-- the container is there and does not run -/
def Startable (s : St) (id : ContainerId) : Prop := ∃ c, s.containers id = some c ∧ c.running = false

instance (s : St) (id : ContainerId) : Decidable (Startable s id) :=
  inferInstanceAs (Decidable (∃ c ∈ s.containers id, c.running = false))

/-- the instruction does not set another status once the stop task has set its own, starts no container that the task
will not stop, and schedules no deletion -/
def SafeInstr (s : St) : Instr → Prop
  | .write u => s.stop.isSet = true → (u.set s.row).actual = .stop
  | .startContainer id => Startable s id → s.stop.stops id
  | .ttlSchedule => E.ttl = none
  | _ => True

instance (s : St) (i : Instr) : Decidable (SafeInstr E s i) := by
  cases i <;> unfold SafeInstr <;> infer_instance

/-- the next step of the code is safe, or its call fails -/
def SafeHead (ok : Bool) (s : St) (code : List Instr) : Prop := ∀ i ∈ code.head?, ok = true → SafeInstr E s i

instance (ok : Bool) (s : St) (code : List Instr) : Decidable (SafeHead E ok s code) :=
  inferInstanceAs (Decidable (∀ i ∈ code.head?, ok = true → SafeInstr E s i))

def Harmless (s : St) : Op → Prop
  | .stop ok =>
    match s.stop with
    | .read => ok = true ∧ (s.row.actual = .stop → ∀ id, ¬ Runs s id)
    | .list => ok = true ∧ ∀ id, Runs s id → id ∈ (listed s).map (·.key)
    | .stopping (id :: _) => ok = true ∧ (s.containers id).isSome
    | .write _ | .send | .setActual | .setWrite _ => ok = true
    | .stopping [] | .queued | .emit | .stopped | .failed => True
  | .docker ok => SafeHead E ok s s.docker
  | .loop ok => SafeHead E ok s s.loop
  | .thread i ok => ∀ t ∈ s.threads[i]?, SafeHead E ok s t.code
  | .restarts id => Startable s id → s.stop.stops id
  | .dies _ | .secretUpdated _ => True

/-! ## Invariant -/

/-- what runs will still be stopped, and the status the stop task has set is there -/
structure Inv (s : St) : Prop where
  runs : ∀ id, Runs s id → s.stop.stops id
  actual : s.stop.isSet = true → s.row.actual = .stop
  update : ∀ u, s.stop = .setWrite u → u.actual = some .stop
  alive : s.stop ≠ .failed
  deletions : s.deletions = 0

theorem inv_requested (s : St) : Inv (requested s) := by
  constructor <;> simp [requested, StopPhase.stops, StopPhase.isSet]

/-- a step that starts nothing and leaves the rest alone -/
theorem Inv.of_same {s s' : St} (h : Inv s) (hruns : ∀ id, Runs s' id → Runs s id) (hstop : s'.stop = s.stop)
    (hrow : s'.row = s.row) (hdel : s'.deletions = s.deletions) : Inv s' := by
  refine ⟨fun id hid => ?_, fun hset => ?_, fun u hu => ?_, ?_, ?_⟩
  · rw [hstop]
    exact h.runs id (hruns id hid)
  · rw [hrow]
    exact h.actual (hstop ▸ hset)
  · exact h.update u (hstop ▸ hu)
  · rw [hstop]
    exact h.alive
  · rw [hdel]
    exact h.deletions

/-! ### Docker -/

variable {E}

theorem runs_setContainer {s : St} {id j : ContainerId} {c : Option Container} :
    Runs (setContainer s id c) j ↔ (j = id ∧ ∃ c', c = some c' ∧ c'.running = true) ∨ (j ≠ id ∧ Runs s j) := by
  by_cases hj : j = id
  · subst hj
    simp [Runs, setContainer]
  · simp [Runs, setContainer, hj]

theorem runs_endContainer {s : St} {id j : ContainerId} : Runs (endContainer E s id) j ↔ Runs s j ∧ j ≠ id := by
  have hid : ¬ Runs s id → (Runs s j ↔ Runs s j ∧ j ≠ id) := by
    intro hno
    constructor
    · intro hj
      refine ⟨hj, ?_⟩
      rintro rfl
      exact hno hj
    · exact fun hj => hj.1
  unfold endContainer
  cases hc : s.containers id with
  | none => exact hid fun ⟨c, h, _⟩ => by rw [hc] at h; cases h
  | some c =>
    simp only []
    split_ifs with hr
    · rw [show Runs (report _ _) j ↔ Runs (setContainer s id _) j from Iff.rfl, runs_setContainer]
      simp [and_comm]
    · refine hid fun ⟨c', h, hr'⟩ => hr ?_
      rw [hc] at h
      cases h
      exact hr'

theorem runs_startContainer {s : St} {id j : ContainerId} :
    Runs (startContainer s id) j ↔ Runs s j ∨ (j = id ∧ Startable s id) := by
  unfold startContainer
  cases hc : s.containers id with
  | none => simp [Startable, hc]
  | some c =>
    simp only []
    split_ifs with hr
    · simp [Startable, hc, hr]
    · rw [show Runs (report _ _) j ↔ Runs (setContainer s id _) j from Iff.rfl, runs_setContainer]
      by_cases hj : j = id
      · simp [hj, Startable, hc, hr]
      · simp [hj]

theorem runs_removeContainer {s : St} {id j : ContainerId} (h : Runs (removeContainer E s id) j) : Runs s j := by
  rw [removeContainer, show Runs (report _ _) j ↔ Runs (setContainer (endContainer E s id) id none) j from Iff.rfl,
    runs_setContainer] at h
  rcases h with ⟨-, c, hc, -⟩ | ⟨-, hj⟩
  · cases hc
  · exact (runs_endContainer.1 hj).1

theorem endContainer_frame (s : St) (id : ContainerId) :
    (endContainer E s id).stop = s.stop ∧ (endContainer E s id).row = s.row ∧
      (endContainer E s id).deletions = s.deletions := by
  unfold endContainer
  split
  · split_ifs <;> exact ⟨rfl, rfl, rfl⟩
  · exact ⟨rfl, rfl, rfl⟩

theorem startContainer_frame (s : St) (id : ContainerId) :
    (startContainer s id).stop = s.stop ∧ (startContainer s id).row = s.row ∧
      (startContainer s id).deletions = s.deletions := by
  unfold startContainer
  split
  · split_ifs <;> exact ⟨rfl, rfl, rfl⟩
  · exact ⟨rfl, rfl, rfl⟩

theorem endContainer_inv {s : St} (h : Inv s) (id : ContainerId) : Inv (endContainer E s id) := by
  obtain ⟨hstop, hrow, hdel⟩ := endContainer_frame (E := E) s id
  exact h.of_same (fun j hj => (runs_endContainer.1 hj).1) hstop hrow hdel

theorem startContainer_inv_iff {s : St} (h : Inv s) (id : ContainerId) :
    Inv (startContainer s id) ↔ (Startable s id → s.stop.stops id) := by
  obtain ⟨hstop, hrow, hdel⟩ := startContainer_frame s id
  constructor
  · intro h' hs
    have := h'.runs id (runs_startContainer.2 (Or.inr ⟨rfl, hs⟩))
    rwa [hstop] at this
  · intro hs
    refine ⟨fun j hj => ?_, fun hset => ?_, fun u hu => ?_, ?_, ?_⟩
    · rw [hstop]
      rcases runs_startContainer.1 hj with hj | ⟨rfl, hj⟩
      · exact h.runs j hj
      · exact hs hj
    · rw [hrow]
      exact h.actual (hstop ▸ hset)
    · exact h.update u (hstop ▸ hu)
    · rw [hstop]
      exact h.alive
    · rw [hdel]
      exact h.deletions

/-! ### Code -/

theorem exec_inv_iff {s : St} (h : Inv s) (i : Instr) : Inv (exec E s i).1 ↔ SafeInstr E s i := by
  -- most of the code neither starts a container nor touches the row
  have same : ∀ s' : St, (exec E s i).1 = s' → (∀ id, Runs s' id → Runs s id) → s'.stop = s.stop → s'.row = s.row →
      s'.deletions = s.deletions → SafeInstr E s i → (Inv (exec E s i).1 ↔ SafeInstr E s i) := by
    intro s' hs' hruns hstop hrow hdel hsafe
    rw [hs']
    exact iff_of_true (h.of_same hruns hstop hrow hdel) hsafe
  cases i with
  | setActual status =>
    refine same s ?_ (fun _ hid => hid) rfl rfl rfl trivial
    simp only [exec]
    split <;> rfl
  | write u =>
    constructor
    · exact fun h' hset => h'.actual hset
    · exact fun hu => ⟨h.runs, hu, h.update, h.alive, h.deletions⟩
  | send e => exact same _ rfl (fun _ hid => hid) rfl rfl rfl trivial
  | handle e =>
    refine same s ?_ (fun _ hid => hid) rfl rfl rfl trivial
    simp only [exec]
    split <;> rfl
  | emitDie => exact same _ rfl (fun _ hid => hid) rfl rfl rfl trivial
  | refresh id =>
    cases hc : s.containers id with
    | none => exact same s (by simp [exec, hc]) (fun _ hid => hid) rfl rfl rfl trivial
    | some c =>
      refine same _ rfl (fun j hj => ?_) ?_ ?_ ?_ trivial
      · simp only [exec, hc] at hj
        exact hj
      all_goals simp only [exec, hc]
  | insertProcess p => exact same _ rfl (fun _ hid => hid) rfl rfl rfl trivial
  | deleteProcess id => exact same _ rfl (fun _ hid => hid) rfl rfl rfl trivial
  | stopProcesses => exact same s rfl (fun _ hid => hid) rfl rfl rfl trivial
  | createContainer id c =>
    by_cases hc : (s.containers id).isSome
    · exact same s (by simp [exec, hc]) (fun _ hid => hid) rfl rfl rfl trivial
    · refine same (setContainer s id (some { c with running := false })) (by simp [exec, hc]) ?_ rfl rfl rfl trivial
      intro j hj
      rcases runs_setContainer.1 hj with ⟨-, c', hc', hr⟩ | ⟨-, hj⟩
      · cases hc'
        cases hr
      · exact hj
  | startContainer id =>
    by_cases hc : (s.containers id).isSome
    · have heq : (exec E s (.startContainer id)).1 = startContainer s id := by simp [exec, onContainer, hc]
      rw [heq]
      exact startContainer_inv_iff h id
    · refine same s (by simp [exec, onContainer, hc]) (fun _ hid => hid) rfl rfl rfl ?_
      rintro ⟨c, hsome, -⟩
      simp [hsome] at hc
  | stopContainer id =>
    obtain ⟨hstop, hrow, hdel⟩ := endContainer_frame (E := E) s id
    by_cases hc : (s.containers id).isSome
    · exact same (endContainer E s id) (by simp [exec, onContainer, hc]) (fun j hj => (runs_endContainer.1 hj).1) hstop
        hrow hdel trivial
    · exact same s (by simp [exec, onContainer, hc]) (fun _ hid => hid) rfl rfl rfl trivial
  | waitContainer id =>
    refine same s ?_ (fun _ hid => hid) rfl rfl rfl trivial
    simp only [exec]
    split <;> rfl
  | removeContainer id =>
    obtain ⟨hstop, hrow, hdel⟩ := endContainer_frame (E := E) s id
    by_cases hc : (s.containers id).isSome
    · exact same (removeContainer E s id) (by simp [exec, onContainer, hc]) (fun j hj => runs_removeContainer hj) hstop hrow
        hdel trivial
    · exact same s (by simp [exec, onContainer, hc]) (fun _ hid => hid) rfl rfl rfl trivial
  | ttlStatus => exact same s rfl (fun _ hid => hid) rfl rfl rfl trivial
  | ttlCount =>
    refine same s ?_ (fun _ hid => hid) rfl rfl rfl trivial
    simp only [exec]
    split <;> rfl
  | ttlSchedule =>
    constructor
    · intro h'
      have hdel := h'.deletions
      simp only [exec, h.deletions] at hdel
      cases ht : E.ttl with
      | none => exact ht
      | some t => simp [ht] at hdel
    · intro ht
      have ht' : E.ttl = none := ht
      refine h.of_same (fun _ hid => hid) rfl rfl ?_
      simp [exec, ht']
  | panic => exact same s rfl (fun _ hid => hid) rfl rfl rfl trivial

theorem execOr_inv_iff {s : St} (h : Inv s) (ok : Bool) (i : Instr) :
    Inv (execOr E ok s i).1 ↔ (ok = true → SafeInstr E s i) := by
  cases ok with
  | true => simpa [execOr] using exec_inv_iff h i
  | false => simpa [execOr] using h

/-- what the threads have left to do does not matter to the invariant -/
theorem inv_with (s : St) (messages : List EventMessage) (docker : List Instr) (channel : List LoopEvent)
    (loop : List Instr) (threads : List Thread) :
    Inv { s with messages := messages, docker := docker, channel := channel, loop := loop, threads := threads } ↔ Inv s := by
  constructor
  · exact fun h => ⟨h.runs, h.actual, h.update, h.alive, h.deletions⟩
  · exact fun h => ⟨h.runs, h.actual, h.update, h.alive, h.deletions⟩

/-! ### The threads -/

theorem dockerStep_inv_iff {s : St} (h : Inv s) (ok : Bool) :
    Inv (dockerStep E ok s) ↔ SafeHead E ok s s.docker := by
  unfold dockerStep SafeHead
  cases hd : s.docker with
  | nil =>
    refine iff_of_true ?_ (by simp)
    cases s.messages with
    | nil => exact h
    | cons m messages => exact (inv_with s _ _ _ _ _).2 h
  | cons i rest =>
    refine (inv_with (execOr E ok s i).1 _ _ _ _ _).trans ((execOr_inv_iff h ok i).trans ?_)
    simp

theorem execEvent_inv {s : St} (h : Inv s) (e : LoopEvent) : Inv (execEvent E s e) := by
  cases e with
  | stopping =>
    simp only [execEvent]
    split
    · rename_i hq
      refine ⟨fun id hid => trivial, fun hset => ?_, fun u hu => ?_, ?_, h.deletions⟩
      · cases hset
      · cases hu
      · exact fun hf => by cases hf
    · exact h
  | task n => exact (inv_with s _ _ _ _ _).2 h
  | die => exact (inv_with s _ _ _ _ _).2 h

theorem loopStep_inv_iff {s : St} (h : Inv s) (ok : Bool) : Inv (loopStep E ok s) ↔ SafeHead E ok s s.loop := by
  unfold loopStep SafeHead
  cases hl : s.loop with
  | nil =>
    refine iff_of_true ?_ (by simp)
    cases s.channel with
    | nil => exact h
    | cons e channel =>
      simp only []
      split_ifs
      · exact (inv_with (execEvent E s e) _ _ _ _ _).2 (execEvent_inv h e)
      · exact h
  | cons i rest =>
    refine (inv_with (execOr E ok s i).1 _ _ _ _ _).trans ((execOr_inv_iff h ok i).trans ?_)
    simp

theorem threadStep_inv_iff {s : St} (h : Inv s) (i : ℕ) (ok : Bool) :
    Inv (threadStep E i ok s) ↔ ∀ t ∈ s.threads[i]?, SafeHead E ok s t.code := by
  unfold threadStep SafeHead
  cases hi : s.threads[i]? with
  | none => simpa using h
  | some t =>
    cases hc : t.code with
    | nil => simpa [hc] using h
    | cons c rest =>
      simp only [hc]
      refine (inv_with (execOr E ok s c).1 _ _ _ _ _).trans ((execOr_inv_iff h ok c).trans ?_)
      simp [hc]

/-! ### The stop task -/

/-- a phase before the status is set, in which some containers may run -/
theorem Inv.of_phase {s s' : St} (h : Inv s) {p : StopPhase} (hp : s'.stop = p) (hruns : ∀ id, Runs s' id → p.stops id)
    (hset : p.isSet = true → s'.row.actual = .stop) (hupdate : ∀ u, p = .setWrite u → u.actual = some .stop)
    (halive : p ≠ .failed) (hdel : s'.deletions = s.deletions) : Inv s' := by
  refine ⟨fun id hid => ?_, fun hs => ?_, fun u hu => ?_, ?_, ?_⟩
  · rw [hp]
    exact hruns id hid
  · exact hset (hp ▸ hs)
  · exact hupdate u (hp ▸ hu)
  · rw [hp]
    exact halive
  · rw [hdel]
    exact h.deletions

theorem not_inv_failed {s : St} (h : s.stop = .failed) : ¬ Inv s := fun hi => hi.alive h

theorem stopStep_inv_iff {s : St} (h : Inv s) (ok : Bool) : Inv (stopStep E ok s) ↔ Harmless E s (.stop ok) := by
  cases hp : s.stop with
  | read =>
    cases ok with
    | false =>
      refine iff_of_false (not_inv_failed (by simp [stopStep, hp])) ?_
      simp [Harmless, hp]
    | true =>
      by_cases ha : s.row.actual = .stop
      · -- the request finds the object stopped and returns
        have hu : Writer.emitStopping.update s.row = none := by simp [Writer.update, ha]
        simp only [stopStep, Harmless, hp, hu, ha, true_and, true_implies]
        constructor
        · exact fun h' id hid => h'.runs id hid
        · exact fun hno => h.of_phase rfl (fun id hid => hno id hid) (fun _ => ha) (by simp) (by simp) rfl
      · obtain ⟨u, hu⟩ : ∃ u, Writer.emitStopping.update s.row = some u := by simp [Writer.update, ha]
        simp only [stopStep, Harmless, hp, hu, ha, true_and, false_implies, iff_true]
        exact h.of_phase rfl (fun _ _ => trivial) (by simp [StopPhase.isSet]) (by simp) (by simp) rfl
  | write u =>
    cases ok with
    | false => exact iff_of_false (not_inv_failed (by simp [stopStep, hp])) (by simp [Harmless, hp])
    | true =>
      refine iff_of_true ?_ (by simp [Harmless, hp])
      simp only [stopStep, hp]
      exact h.of_phase rfl (fun _ _ => trivial) (by simp [StopPhase.isSet]) (by simp) (by simp) rfl
  | send =>
    cases ok with
    | false => exact iff_of_false (not_inv_failed (by simp [stopStep, hp])) (by simp [Harmless, hp])
    | true =>
      refine iff_of_true ?_ (by simp [Harmless, hp])
      simp only [stopStep, hp]
      exact h.of_phase rfl (fun _ _ => trivial) (by simp [StopPhase.isSet]) (by simp) (by simp) rfl
  | queued => exact iff_of_true (by simpa only [stopStep, hp] using h) (by simp [Harmless, hp])
  | list =>
    cases ok with
    | false => exact iff_of_false (not_inv_failed (by simp [stopStep, hp, stopStep.onError])) (by simp [Harmless, hp])
    | true =>
      simp only [stopStep, Harmless, hp, true_and]
      constructor
      · exact fun h' id hid => h'.runs id hid
      · exact fun hl => h.of_phase rfl (fun id hid => hl id hid) (by simp [StopPhase.isSet]) (by simp) (by simp) rfl
  | stopping ids =>
    have hruns : ∀ id, Runs s id → id ∈ ids := by simpa [hp, StopPhase.stops] using h.runs
    cases ids with
    | nil =>
      refine iff_of_true ?_ (by simp [Harmless, hp])
      have hno : ∀ id, Runs s id → False := fun id hid => by simpa using hruns id hid
      have hstep : stopStep E ok s = { s with stop := .setActual } := by cases ok <;> simp [stopStep, hp]
      rw [hstep]
      exact h.of_phase rfl (fun id hid => hno id hid) (by simp [StopPhase.isSet]) (by simp) (by simp) rfl
    | cons id ids =>
      cases ok with
      | false => exact iff_of_false (not_inv_failed (by simp [stopStep, hp, stopStep.onError])) (by simp [Harmless, hp])
      | true =>
        by_cases hc : (s.containers id).isSome
        · refine iff_of_true ?_ (by simp [Harmless, hp, hc])
          simp only [stopStep, hp, hc, if_true]
          obtain ⟨-, -, hdel⟩ := endContainer_frame (E := E) s id
          refine h.of_phase rfl (fun j hj => ?_) (by simp [StopPhase.isSet]) (by simp) (by simp) hdel
          obtain ⟨hj, hne⟩ := (runs_endContainer (E := E)).1 (show Runs (endContainer E s id) j from hj)
          exact (List.mem_cons.1 (hruns j hj)).resolve_left hne
        · refine iff_of_false (not_inv_failed ?_) (by simp [Harmless, hp, hc])
          simp [stopStep, hp, hc, stopStep.onError]
  | setActual =>
    have hno : ∀ id, Runs s id → False := by simpa [hp, StopPhase.stops] using h.runs
    cases ok with
    | false => exact iff_of_false (not_inv_failed (by simp [stopStep, hp, stopStep.onError])) (by simp [Harmless, hp])
    | true =>
      refine iff_of_true ?_ (by simp [Harmless, hp])
      by_cases ha : s.row.actual = .stop
      · have hu : (Writer.updateActualStatus .stop).update s.row = none := by simp [Writer.update, ha]
        simp only [stopStep, hp, hu]
        exact h.of_phase rfl (fun id hid => hno id hid) (fun _ => ha) (by simp) (by simp) rfl
      · have hu : (Writer.updateActualStatus .stop).update s.row = some ⟨none, none, some .stop, some s.row.actual⟩ := by
          simp [Writer.update, ha]
        simp only [stopStep, hp, hu]
        refine h.of_phase rfl (fun id hid => hno id hid) (by simp [StopPhase.isSet]) (fun u' hu' => ?_) (by simp) rfl
        obtain rfl := StopPhase.setWrite.inj hu'
        rfl
  | setWrite u =>
    have hno : ∀ id, Runs s id → False := by simpa [hp, StopPhase.stops] using h.runs
    cases ok with
    | false => exact iff_of_false (not_inv_failed (by simp [stopStep, hp, stopStep.onError])) (by simp [Harmless, hp])
    | true =>
      refine iff_of_true ?_ (by simp [Harmless, hp])
      simp only [stopStep, hp]
      refine h.of_phase rfl (fun id hid => hno id hid) (fun _ => ?_) (by simp) (by simp) rfl
      simp [ObjPsStatusUpdate.set, h.update u hp]
  | emit =>
    have hno : ∀ id, Runs s id → False := by simpa [hp, StopPhase.stops] using h.runs
    have ha : s.row.actual = .stop := h.actual (by simp [hp, StopPhase.isSet])
    refine iff_of_true ?_ (by simp [Harmless, hp])
    cases ok with
    | false =>
      simp only [stopStep, hp]
      exact h.of_phase rfl (fun id hid => hno id hid) (fun _ => ha) (by simp) (by simp) rfl
    | true =>
      simp only [stopStep, hp]
      exact h.of_phase rfl (fun id hid => hno id hid) (fun _ => ha) (by simp) (by simp) rfl
  | stopped => exact iff_of_true (by simpa only [stopStep, hp] using h) (by simp [Harmless, hp])
  | failed => exact absurd hp h.alive

/-! ## Main results -/

/-- **The condition is exact for a step.** A harmless step, and no other, keeps the invariant. -/
theorem harmless_iff {s : St} (h : Inv s) (o : Op) : Inv (step E s o) ↔ Harmless E s o := by
  cases o with
  | stop ok => exact stopStep_inv_iff h ok
  | docker ok => exact dockerStep_inv_iff h ok
  | loop ok => exact loopStep_inv_iff h ok
  | thread i ok => exact threadStep_inv_iff h i ok
  | dies id => exact iff_of_true (endContainer_inv h id) trivial
  | restarts id => exact startContainer_inv_iff h id
  | secretUpdated n => exact iff_of_true ((inv_with s _ _ _ _ _).2 h) trivial

theorem Inv.staysStopped {s : St} (h : Inv s) (hs : Settled s) : StaysStopped s := by
  have hstop : s.stop = .stopped := hs.stop.resolve_right h.alive
  refine ⟨h.actual (by rw [hstop]; rfl), fun id hid => ?_, h.deletions⟩
  have := h.runs id hid
  rwa [hstop] at this

/-- **A stopped object stays stopped** in every run of harmless steps, whatever was under way when the stop request
came. -/
theorem stays_stopped (E : Env) (s : St) (ops : List Op) (hops : Along (step E) (Harmless E) (requested s) ops)
    (hs : Settled (run (step E) (requested s) ops)) : StaysStopped (run (step E) (requested s) ops) := by
  have hinv : Inv (run (step E) (requested s) ops) :=
    inv_run (I := Inv) (fun _ o h ho => (harmless_iff h o).2 ho) (inv_requested s) hops
  exact hinv.staysStopped hs

/-! ## A job and a cargo -/

/-- the container of the objects below, while it runs -/
def running (name : String) : Container := ⟨name, .default, true, false, 0, "0001-01-01T00:00:00Z", 0⟩

/-- the object is started, nothing is under way, and one container runs -/
def started (kind : ProcessKind) (key name : String) : St where
  row := ⟨if kind = .job then .finish else .start, .create, .start, .starting⟩
  containers id := if id = 0 then some (running name) else none
  processes := [⟨0, name, kind, key, "node", 0, (running name).inspect 0, rfl⟩]
  stop := .stopped
  messages := []
  docker := []
  channel := []
  loop := []
  threads := []
  deletions := 0

def jobEnv : Env := ⟨.job, fun _ => [], some 3600, fun _ => "2024-10-01T00:00:00Z", fun _ => 0⟩

def cargoEnv : Env := { jobEnv with kind := .cargo, ttl := none }

/-- the stop request and its task, as they go through -/
def stopRequest : List Op :=
  [.stop true, .stop true, .stop true, .loop true, .stop true, .stop true, .stop true, .stop true, .stop true, .stop true]

/-- the death of its container, as `exec_docker` handles it -/
def death : List Op := [.docker true, .docker true, .docker true, .docker true, .thread 0 true, .loop true]

/-- a cargo that runs and is stopped: every step is harmless -/
theorem stays_stopped_cargo :
    StaysStopped (run (step cargoEnv) (requested (started .cargo "web.global" "web.c")) (stopRequest ++ death)) := by
  refine stays_stopped cargoEnv (started .cargo "web.global" "web.c") (stopRequest ++ death) ?_ ?_
  · refine ⟨⟨rfl, fun h => ?_⟩, rfl, rfl, ?_, ⟨rfl, fun id hid => ?_⟩, ⟨rfl, rfl⟩, trivial, rfl, rfl, trivial, ?_, ?_, ?_, ?_,
      ?_, ?_, trivial⟩
    · cases h
    · simp only [Harmless]
      decide
    · -- the only container is the listed one
      obtain ⟨c, hc, -⟩ := hid
      by_cases h0 : id = 0
      · subst h0
        decide
      · have hnone : (started .cargo "web.global" "web.c").containers id = none := if_neg h0
        cases hnone.symm.trans hc
    all_goals
      simp only [Harmless]
      decide
  · constructor <;> decide

/-- **The stop of a job ends as its success.** The death of its container, of which the stop is the cause, is handled by
`job_ttl`: the job is finished, and its deletion is scheduled. -/
theorem job_not_stopped :
    ¬ ∀ (E : Env) (s : St) (ops : List Op), Settled (run (step E) (requested s) ops) →
      StaysStopped (run (step E) (requested s) ops) := by
  intro h
  have hsettled : Settled (run (step jobEnv) (requested (started .job "build" "build-0.j"))
      (stopRequest ++ death ++ List.replicate 5 (.loop true))) := by
    constructor <;> decide
  have hactual := (h jobEnv (started .job "build" "build-0.j") _ hsettled).actual
  revert hactual
  decide

/-- **A late start event.** Docker's report of the start of the container is handled after the stop task has set the
status. -/
theorem cargo_not_stopped :
    ∃ s ops, Settled (run (step cargoEnv) (requested s) ops) ∧ (run (step cargoEnv) (requested s) ops).row.actual = .start := by
  refine ⟨{ started .cargo "web.global" "web.c" with messages := [.start 0] },
    stopRequest ++ List.replicate 5 (.docker true) ++ death, ?_, ?_⟩
  · constructor <;> decide
  · decide

end Nanocl.Stopped
