/-
The only event loop of the daemon (`system/system_state.rs::run`) against every event and every content of the tables.

The loop is one task: it takes the next event once `exec_event` has returned, with a value or with an error. A panic of
`exec_event` ends the task, and no later event is taken; nor is one while `exec_event` waits for a task of the object.
Between two events the rest of the daemon may leave anything in the tables and in the task manager.

Results:
- `execEvent_killed_iff`: an event does not return in three cases only. A task of its cargo or VM is held that never ends;
  or the update of a secret cannot read the cargoes that use it; or the die event of a job that is not done meets a
  process whose inspection has no `State.FinishedAt`.
- `every_event_executed_iff`: over every run, all events are executed exactly if each is handled in a state where it is
  in none of the cases.
- `loop_killed`: the cargoes that use a secret cannot be read, and the events after its update are lost.
-/
import Nanocl.Lib.Transition
import Nanocl.System.ExecEvent

namespace Nanocl.System

open Nanocl.Lib Nanocl.Listing

/-! ## Which events do not return -/

section

variable (E : Env)

/-- `count_status` gets past an instance that restarts or runs, or that has a finish time -/
def Countable (c : ContainerInspect) : Prop :=
  (c.state.getD .default).restarting = some true ∨ (c.state.getD .default).running = some true ∨
    (c.state.getD .default).finishedAt.isSome

instance (c : ContainerInspect) : Decidable (Countable c) := by unfold Countable; infer_instance

/-- the job is read, it is not done, its processes are read, and one of them cannot be counted -/
def Uncountable (d : Daemon) (jobId : String) : Prop :=
  E.fate (.readJob jobId) = none ∧ ∃ job, d.job E jobId = .ok job ∧ job.status ≠ .finish ∧ job.status ≠ .fail ∧
    E.fate (.readProcesses job.name) = none ∧ (∀ p ∈ d.newestProcesses job.name, p.Readable E) ∧
    ∃ p ∈ d.newestProcesses job.name, ∃ c, E.decodeProcess p.data = some c ∧ ¬ Countable c

/-- the task manager holds a task of the cargo or the VM, and it never ends -/
def Stuck (d : Daemon) (actor : EventActor) : Prop :=
  (actor.kind = .cargo ∨ actor.kind = .vm) ∧ (∃ t ∈ d.tasks, t.1 = taskKey actor.kind (actor.key.getD "")) ∧
    E.ends (taskKey actor.kind (actor.key.getD "")) = false

/-- an event of a cargo or a VM with a task that never ends, the update of a secret whose users cannot be read, or the
death of a process of a job that cannot be counted -/
def Lethal (d : Daemon) (e : Event) : Prop :=
  e.kind = .normal ∧ ∃ actor, e.actor = some actor ∧
    (Stuck E d actor ∨
      (NativeEventAction.fromStr e.action = .update ∧ actor.kind = .secret ∧ UsersUnread E d (actor.key.getD "")) ∨
      (NativeEventAction.fromStr e.action = .die ∧ ∃ jobId, jobLabel actor = some jobId ∧ Uncountable E d jobId))

theorem getD_false (o : Option Bool) : o.getD false = true ↔ o = some true := by
  cases o <;> simp

theorem countInstance_isSome (c : ContainerInspect) : (countInstance c).isSome ↔ Countable c := by
  simp only [countInstance, Countable, getD_false]
  split_ifs with hr hn
  · simp [hr]
  · simp [hn]
  · cases hf : (c.state.getD .default).finishedAt with
    | none => simp [hr, hn]
    | some t =>
      simp only [Option.isSome_some, or_true, iff_true]
      split_ifs
      · rfl
      · cases (c.state.getD .default).exitCode with
        | none => rfl
        | some code =>
          simp only []
          split_ifs <;> rfl

theorem countInstances_isSome (l : List ContainerInspect) : (countInstances l).isSome ↔ ∀ c ∈ l, Countable c := by
  unfold countInstances
  -- the counters so far
  generalize ((0, 0, 0) : ℕ × ℕ × ℕ) = n
  induction l generalizing n with
  | nil => simp
  | cons c l ih =>
    rw [List.foldlM_cons, List.forall_mem_cons, ← countInstance_isSome]
    cases countInstance c with
    | none => simp
    | some k => simpa using ih _

/-- the program of `job_ttl` once it has the job and its instances -/
def jobDone (job : Job) (failed running : ℕ) : Io Unit := do
  if running ≠ 0 then
    return ()
  if failed > 0 then finishJob E job .fail .fail else finishJob E job .finish .finish
  match job.ttl with
  | none => return ()
  | some ttl => Prog.modify fun d => { d with deletions := d.deletions ++ [(job.name, ttl)] }

theorem ends_jobDone (job : Job) (failed running : ℕ) : Ends (jobDone E job failed running) := by
  have hrest : Ends (match job.ttl with
      | none => (return () : Io Unit)
      | some ttl => Prog.modify fun d => { d with deletions := d.deletions ++ [(job.name, ttl)] }) := by
    cases job.ttl with
    | none => exact Prog.failsOnly_pure ()
    | some ttl => exact Prog.failsOnly_modify _
  unfold jobDone
  split_ifs
  · exact Prog.failsOnly_pure ()
  · exact Prog.failsOnly_bind (ends_finishJob E _ _ _) fun _ => hrest
  · exact Prog.failsOnly_bind (ends_finishJob E _ _ _) fun _ => hrest

theorem jobTtl_eq (actor : EventActor) {jobId : String} (h : jobLabel actor = some jobId) :
    jobTtl E actor = (do
      let job ← readJob E jobId
      if job.status = .finish ∨ job.status = .fail then
        return ()
      let instances ← readProcesses E job.name
      let (failed, _, running) ← countStatus instances
      jobDone E job failed running) := by
  unfold jobTtl
  rw [h]
  rfl

theorem jobTtl_killed_iff (actor : EventActor) (d : Daemon) :
    killed (jobTtl E actor d).1 = true ↔ ∃ jobId, jobLabel actor = some jobId ∧ Uncountable E d jobId := by
  cases hl : jobLabel actor with
  | none => simp [jobTtl, hl, killed]
  | some jobId =>
    have hjobs : (∃ j, some jobId = some j ∧ Uncountable E d j) ↔ Uncountable E d jobId := by simp
    rw [jobTtl_eq E actor hl, hjobs]
    rcases read_cases E (.readJob jobId) (fun d => d.job E jobId) d with ⟨message, hm, herr⟩ | ⟨job, hf, hjob, hok⟩
    · rw [Prog.bind_of_error (m := readJob E jobId) hm]
      refine iff_of_false (by simp [killed, Stop.kills]) ?_
      rintro ⟨hf, job, hjob, -⟩
      obtain ⟨m, he⟩ := herr hf
      rw [hjob] at he
      cases he
    rw [Prog.bind_of_ok (m := readJob E jobId) hok]
    by_cases hdone : job.status = .finish ∨ job.status = .fail
    · rw [if_pos hdone]
      refine iff_of_false (by simp [killed]) ?_
      rintro ⟨-, job', hjob', h1, h2, -⟩
      obtain rfl : job = job' := Except.ok.inj (hjob.symm.trans hjob')
      exact hdone.elim h1 h2
    rw [if_neg hdone]
    have hundone : job.status ≠ .finish ∧ job.status ≠ .fail := not_or.1 hdone
    rcases read_cases E (.readProcesses job.name) (fun d => readByKindKey E job.name d.processes) d with
      ⟨message, hm, herr⟩ | ⟨instances, hfp, hinst, hok⟩
    · rw [Prog.bind_of_error (m := readProcesses E job.name) hm]
      refine iff_of_false (by simp [killed, Stop.kills]) ?_
      rintro ⟨-, job', hjob', -, -, hfp, hdec, -⟩
      obtain rfl : job = job' := Except.ok.inj (hjob.symm.trans hjob')
      obtain ⟨m, he⟩ := herr hfp
      rw [readByKindKey_eq] at he
      obtain ⟨l, hl⟩ := (mapM_isOk_iff (f := ProcessRow.tryToProcess E)).2 fun p hp =>
        (tryToProcess_isOk E p).2 (hdec p hp)
      rw [hl] at he
      cases he
    rw [Prog.bind_of_ok (m := readProcesses E job.name) hok]
    rw [readByKindKey_eq] at hinst
    cases hc : countInstances instances with
    | none =>
      have hcount : countStatus instances d = (.error (.panic "called Option::unwrap() on a None value"), d) := by
        simp [countStatus, hc]
      rw [Prog.bind_of_error hcount]
      refine iff_of_true rfl ⟨hf, job, hjob, hundone.1, hundone.2, hfp, ?_, ?_⟩
      · exact fun p hp => (tryToProcess_isOk E p).1 (mapM_isOk_iff.1 ⟨instances, hinst⟩ p hp)
      · have hnot : ¬ ∀ c ∈ instances, Countable c := by simp [← countInstances_isSome, hc]
        push Not at hnot
        obtain ⟨c, hmem, hc⟩ := hnot
        obtain ⟨p, hp, hpc⟩ := exists_of_mem_mapM hinst hmem
        exact ⟨p, hp, c, ((tryToProcess_eq_ok E).1 hpc).2, hc⟩
    | some n =>
      have hcount : countStatus instances d = (.ok n, d) := by simp [countStatus, hc]
      rw [Prog.bind_of_ok hcount]
      refine iff_of_false (by rw [(ends_jobDone E job n.1 n.2.2).killed d]; decide) ?_
      rintro ⟨-, job', hjob', -, -, -, -, p, hp, c, hpc, hnot⟩
      obtain rfl : job = job' := Except.ok.inj (hjob.symm.trans hjob')
      obtain ⟨c', hmem, hpc'⟩ := exists_mem_of_mapM hinst hp
      obtain rfl : c = c' := Option.some.inj (hpc.symm.trans ((tryToProcess_eq_ok E).1 hpc').2)
      exact hnot ((countInstances_isSome instances).1 (by rw [hc]; rfl) c hmem)

theorem update_killed_iff (key : String) (actor : EventActor) (d : Daemon) :
    killed (update E key actor d).1 = true ↔ actor.kind = .secret ∧ UsersUnread E d key := by
  by_cases hk : actor.kind = .secret
  · have hupdate : update E key actor = (unwrap (readCargoes E key) >>= fun cargoes =>
        Prog.forEach cargoes (updateUser E) >>= fun _ => pure none) := by
      simp only [update, hk]
    rw [hupdate]
    rcases readCargoes_cases E key d with ⟨hu, message, hm⟩ | ⟨hu, cargoes, -, hok⟩
    · have hpanic : unwrap (readCargoes E key) d = (.error (.panic message), d) := by simp [unwrap, hm]
      rw [Prog.bind_of_error hpanic]
      exact iff_of_true rfl ⟨hk, hu⟩
    · have hread : unwrap (readCargoes E key) d = (.ok cargoes, d) := by simp [unwrap, hok]
      rw [Prog.bind_of_ok hread]
      have hloop : Ends (Prog.forEach cargoes (updateUser E) >>= fun _ =>
          (pure none : Io (Option TaskManager.ObjTaskFuture))) :=
        Prog.failsOnly_bind (Prog.failsOnly_forEach (ends_updateUser E)) fun _ => Prog.failsOnly_pure none
      exact iff_of_false (by rw [hloop.killed d]; decide) fun h => hu h.2
  · have hupdate : update E key actor = pure none := by
      unfold update
      split
      · exact absurd ‹_› hk
      · rfl
    rw [hupdate]
    exact iff_of_false (by simp [killed]) fun h => hk h.1

/-- building the task of an event does not return in its own two branches only -/
theorem buildTask_killed_iff (key : String) (actor : EventActor) (action : NativeEventAction) (d : Daemon) :
    killed (buildTask E key actor action d).1 = true ↔
      (action = .update ∧ actor.kind = .secret ∧ UsersUnread E d key) ∨
      (action = .die ∧ ∃ jobId, jobLabel actor = some jobId ∧ Uncountable E d jobId) := by
  cases action with
  | update => simpa [buildTask] using update_killed_iff E key actor d
  | die =>
    have hbuild : buildTask E key actor .die = (jobTtl E actor >>= fun _ => pure none) := rfl
    rw [hbuild, killed_bind, ← jobTtl_killed_iff]
    rcases jobTtl E actor d with ⟨e | a, d'⟩
    · simp [killed]
    · simp [killed]
  | _ => simp [buildTask, killed]

/-- the program that stores the task of an event -/
def storeTask (taskKey : String) : Option TaskManager.ObjTaskFuture → Io Unit
  | none => return ()
  | some task => addTask taskKey task

theorem ends_storeTask (taskKey : String) (task : Option TaskManager.ObjTaskFuture) : Ends (storeTask taskKey task) := by
  cases task with
  | none => exact Prog.failsOnly_pure ()
  | some task => exact Prog.failsOnly_modify _

/-- before its task is built an event changes the task manager only, or waits for ever -/
theorem awaitTask_cases (key : String) (actor : EventActor) (hkey : key = taskKey actor.kind (actor.key.getD ""))
    (action : NativeEventAction) (d : Daemon) :
    (Stuck E d actor ∧ awaitTask E key actor.kind action d = (.error (.waiting key), d)) ∨
    (¬ Stuck E d actor ∧ ∃ tasks, awaitTask E key actor.kind action d = (.ok (), { d with tasks := tasks })) := by
  subst hkey
  by_cases hobject : actor.kind = .cargo ∨ actor.kind = .vm
  · have hawait : awaitTask E (taskKey actor.kind (actor.key.getD "")) actor.kind action =
        waitTask E (taskKey actor.kind (actor.key.getD "")) := by
      rcases hobject with h | h <;> rw [h] <;> rfl
    rw [hawait, waitTask, Prog.get_bind]
    by_cases hheld : d.tasks.any (fun t => t.1 = taskKey actor.kind (actor.key.getD "")) = true
    · rw [if_pos hheld]
      have hmem : ∃ t ∈ d.tasks, t.1 = taskKey actor.kind (actor.key.getD "") := by simpa using hheld
      cases hends : E.ends (taskKey actor.kind (actor.key.getD "")) with
      | true => exact .inr ⟨fun h => by simp [Stuck, hends] at h, _, rfl⟩
      | false => exact .inl ⟨⟨hobject, hmem, hends⟩, rfl⟩
    · rw [if_neg hheld]
      refine .inr ⟨fun h => hheld ?_, d.tasks, rfl⟩
      simpa using h.2.1
  · refine .inr ⟨fun h => hobject h.1, ?_⟩
    obtain ⟨key, kind, attributes⟩ := actor
    cases kind with
    | cargo => exact absurd (.inl rfl) hobject
    | vm => exact absurd (.inr rfl) hobject
    | job =>
      cases action with
      | destroying => exact ⟨_, rfl⟩
      | _ => exact ⟨d.tasks, rfl⟩
    | _ => exact ⟨d.tasks, rfl⟩

/-- an event does not return exactly if it is lethal -/
theorem execEvent_killed_iff (e : Event) (d : Daemon) : killed (execEvent E e d).1 = true ↔ Lethal E d e := by
  by_cases hk : e.kind = .normal
  · cases ha : e.actor with
    | none =>
      have hexec : execEvent E e = pure () := by
        simp only [execEvent, hk, ha]
      rw [hexec]
      exact iff_of_false (by simp [killed]) fun h => by simp [Lethal, ha] at h
    | some actor =>
      have hexec : execEvent E e = (awaitTask E (taskKey actor.kind (actor.key.getD "")) actor.kind (.fromStr e.action) >>=
          fun _ => buildTask E (actor.key.getD "") actor (.fromStr e.action) >>=
          storeTask (taskKey actor.kind (actor.key.getD ""))) := by
        simp only [execEvent, hk, ha]
        rfl
      have hlethal : Lethal E d e ↔ Stuck E d actor ∨
          killed (buildTask E (actor.key.getD "") actor (.fromStr e.action) d).1 = true := by
        rw [buildTask_killed_iff]
        simp [Lethal, hk, ha]
      rw [hexec, hlethal]
      rcases awaitTask_cases E _ actor rfl (.fromStr e.action) d with ⟨hstuck, hawait⟩ | ⟨hstuck, tasks, hawait⟩
      · rw [Prog.bind_of_error hawait]
        exact iff_of_true rfl (.inl hstuck)
      -- what the rest reads is as it was
      have hsame : killed (buildTask E (actor.key.getD "") actor (.fromStr e.action) { d with tasks := tasks }).1 = true ↔
          killed (buildTask E (actor.key.getD "") actor (.fromStr e.action) d).1 = true := by
        rw [buildTask_killed_iff, buildTask_killed_iff]
        rfl
      rw [Prog.bind_of_ok hawait, or_iff_right hstuck, ← hsame, killed_bind]
      rcases buildTask E (actor.key.getD "") actor (.fromStr e.action) { d with tasks := tasks } with ⟨err | task, d'⟩
      · simp [killed]
      · change killed (storeTask _ task d').1 = true ↔ _
        rw [(ends_storeTask _ task).killed d']
        simp [killed]
  · have hexec : execEvent E e = pure () := by
      unfold execEvent
      split
      · exact absurd ‹_› hk
      · rfl
    rw [hexec]
    exact iff_of_false (by simp [killed]) fun h => hk h.1

end

/-! ## The loop -/

/-- the loop, the tables as it finds them, and the events that `exec_event` has returned from; it is alive until it panics
or waits for ever -/
structure Loop where
  daemon : Daemon
  alive : Bool
  executed : List Event

def Loop.start (d : Daemon) : Loop := ⟨d, true, []⟩

inductive LoopOp where
  /-- the next event of the channel; the environment says what fails meanwhile -/
  | event (E : Env) (e : Event)
  /-- the rest of the daemon leaves the tables like this -/
  | tables (d : Daemon)

def Loop.step (s : Loop) : LoopOp → Loop
  | .tables d => { s with daemon := d }
  | .event E e =>
    if s.alive then
      let r := execEvent E e s.daemon
      if killed r.1 then { s with daemon := r.2, alive := false }
      else { s with daemon := r.2, executed := s.executed ++ [e] }
    else s

/-- the events of a run -/
def eventsOf (ops : List LoopOp) : List Event :=
  ops.filterMap fun o => match o with | .event _ e => some e | .tables _ => none

/-- an event is handled in a state where it is not lethal -/
def Harmless (s : Loop) : LoopOp → Prop
  | .event E e => ¬ Lethal E s.daemon e
  | .tables _ => True

theorem executed_of_dead {s : Loop} (h : s.alive = false) (ops : List LoopOp) :
    (run Loop.step s ops).executed = s.executed := by
  induction ops generalizing s with
  | nil => rfl
  | cons o ops ih =>
    cases o with
    | tables d => exact ih (s := s.step (.tables d)) h
    | event E e =>
      rw [run_cons, show s.step (.event E e) = s by simp [Loop.step, h]]
      exact ih h

theorem executed_iff {s : Loop} (h : s.alive = true) (ops : List LoopOp) :
    (run Loop.step s ops).executed = s.executed ++ eventsOf ops ↔ Along Loop.step Harmless s ops := by
  induction ops generalizing s with
  | nil => simp [eventsOf, Along]
  | cons o ops ih =>
    cases o with
    | tables d =>
      rw [run_cons, show eventsOf (.tables d :: ops) = eventsOf ops from rfl,
        show s.executed = (s.step (.tables d)).executed from rfl, ih (s := s.step (.tables d)) h]
      simp [Along, Harmless]
    | event E e =>
      have hevents : eventsOf (.event E e :: ops) = e :: eventsOf ops := rfl
      simp only [run_cons, Along, Harmless, hevents]
      by_cases hl : Lethal E s.daemon e
      · -- the loop is dead from here on, so e and the later events are missing
        have hp := (execEvent_killed_iff E e s.daemon).2 hl
        rw [executed_of_dead (by simp [Loop.step, h, hp])]
        simp [Loop.step, h, hp, hl]
      · have hp : killed (execEvent E e s.daemon).1 = false := by
          rw [← Bool.not_eq_true, execEvent_killed_iff]
          exact hl
        rw [and_iff_right hl, ← ih (s := s.step (.event E e)) (by simp [Loop.step, h, hp])]
        simp [Loop.step, h, hp]

/-- **The event loop executes every event exactly in the runs where none is lethal when it is handled.** -/
theorem every_event_executed_iff (d : Daemon) (ops : List LoopOp) :
    (run Loop.step (.start d) ops).executed = eventsOf ops ↔ Along Loop.step Harmless (.start d) ops :=
  executed_iff (s := .start d) rfl ops

/-! ## A secret is updated while the database does not answer -/

def noTables : Daemon := ⟨[], [], [], [], [], [], [], []⟩

/-- the database refuses the read of the cargoes that use the secret `tls` -/
def refusing : Env where
  externals := plainExternals
  decodeCargo _ := some ()
  decodeJob _ := none
  decodeProcess _ := none
  fate c := if c = .readCargoes "tls" then some "connection closed" else none
  ends _ := true

def secretUpdated : Event := ⟨.normal, "update", some ⟨some "tls", .secret, []⟩⟩

def cargoStarting : Event := ⟨.normal, "starting", some ⟨some "web.global", .cargo, []⟩⟩

/-- the start of a cargo after the update of a secret is never executed -/
theorem loop_killed :
    ¬ ∀ d ops, (run Loop.step (.start d) ops).executed = eventsOf ops := by
  intro h
  have := h noTables [.event refusing secretUpdated, .event refusing cargoStarting]
  revert this
  decide

end Nanocl.System
