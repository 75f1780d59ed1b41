/-
The waiters of the command line (`nanocl/src/utils/process.rs::wait_process_state`), what each operation waits for, and
what the daemon emits at the end of its task (`system/event.rs::exec_event` and the tasks of `utils/container`).

A waiter watches the daemon's events with one condition. The emitter sends it every event and drops it after the first one
that meets the condition; the waiter fails at the first error event about its key, and succeeds at the end of its stream,
whatever ended it.

- `task_reports`: a task that returns has emitted, as its last event, the one that `reportedAction` names.
- `stream_ends_iff`: the emitter's side of `stream` is that of `RawEmitter`.
- `reports_iff`: a waiter reports the daemon's outcome, at every moment, exactly if its operation is one whose events it
  waits for and nothing else reaches it or ends its stream before.
- `vm_patch_waits`: the waiter of an update of a VM waits for a cargo, and does not return.
-/
import Nanocl.Runtime.UpdateReport
import Nanocl.Runtime.Vm
import Nanocl.System.Conditions
import Nanocl.Tasks.TaskManager

namespace Nanocl.Cli

open Nanocl.Lib Nanocl.TaskManager

/-! ## Waiters -/

/-- an event as a client receives it -/
structure Watched where
  event : Emitter.Event
  note : Option String
deriving DecidableEq

inductive WaitError where
  /-- `IoError::interrupted("Error", note)` -/
  | interrupted (note : String)
  /-- the stream failed -/
  | stream (message : String)
deriving DecidableEq

/-- the spawned loop of `wait_process_state`, over what the stream has brought and whether it has ended; nothing while the
loop waits -/
def waitProcessState (key : String) : List (Except String Watched) → (ended : Bool) → Option (Except WaitError Unit)
  | [], ended => if ended then some (.ok ()) else none
  | .error message :: _, _ => some (.error (.stream message))
  | .ok e :: items, ended =>
    match e.event.actor with
    | none => waitProcessState key items ended
    | some actor =>
      if e.event.kind = .error ∧ actor.key.getD "" = key then some (.error (.interrupted (e.note.getD "")))
      else waitProcessState key items ended

/-- the arguments of `wait_process_state` -/
structure Waited where
  key : String
  kind : EventActorKind
  action : NativeEventAction
deriving DecidableEq

def Waited.condition (w : Waited) : Emitter.EventCondition :=
  ⟨some w.key, some w.kind, none, none, [.normal, .error], [w.action]⟩

/-! ## Operations -/

/-- what the command line waits for the daemon to do; a namespace that is optional is the one of the arguments -/
inductive Operation where
  /-- `state apply` deletes the job that is there -/
  | clearJob (name : String)
  | applyJob (name : String)
  | createCargo (name namespace_ : String)
  | putCargo (name namespace_ : String)
  | createVm (name namespace_ : String)
  | patchVm (name namespace_ : String)
  | start (kind : ProcessKind) (name : String) (namespace_ : Option String)
  | stop (kind : ProcessKind) (name : String) (namespace_ : Option String)
  | rm (kind : ProcessKind) (name : String) (namespace_ : Option String)
deriving DecidableEq

/-- `gen_key` of the command line -/
def genKey (name : String) : Option String → String
  | some ns => name ++ "." ++ ns
  | none => name

/-- the namespace a command on objects of the kind hands on; jobs have none -/
def commandNamespace (namespace_ : Option String) : ProcessKind → Option String
  | .job => none
  | .cargo | .vm => some (namespace_.getD "global")

def Operation.waited : Operation → Waited
  | .clearJob name => ⟨name, .job, .destroy⟩
  | .applyJob name => ⟨name, .job, .start⟩
  | .createCargo name ns | .putCargo name ns => ⟨name ++ "." ++ ns, .cargo, .start⟩
  | .createVm name ns => ⟨name ++ "." ++ ns, .vm, .start⟩
  | .patchVm name ns => ⟨name ++ "." ++ ns, .cargo, .start⟩
  | .start kind name ns => ⟨genKey name (commandNamespace ns kind), Runtime.actorKind kind, .start⟩
  | .stop kind name ns => ⟨genKey name (commandNamespace ns kind), Runtime.actorKind kind, .stop⟩
  | .rm .job name _ => ⟨name, .job, .destroy⟩
  | .rm .cargo name ns => ⟨name ++ "." ++ (commandNamespace ns .cargo).getD "", .cargo, .destroy⟩
  | .rm .vm name ns => ⟨name ++ "." ++ (commandNamespace ns .vm).getD "", .vm, .destroy⟩

/-! ## The daemon -/

/-- the object of a request and the task that the daemon runs on it -/
structure Requested where
  kind : ProcessKind
  key : String
  task : ObjTaskFuture
deriving DecidableEq

/-- the key of the object in the daemon; a request without a namespace is about `global` -/
def daemonKey (name : String) (namespace_ : Option String) : ProcessKind → String
  | .job => name
  | .cargo | .vm => name ++ "." ++ namespace_.getD "global"

/-- the request of the operation; the deletion of a VM is sent without the namespace (`get_query`) -/
def Operation.requested : Operation → Requested
  | .clearJob name => ⟨.job, daemonKey name none .job, .delete⟩
  | .applyJob name => ⟨.job, daemonKey name none .job, .start⟩
  | .createCargo name ns => ⟨.cargo, daemonKey name (some ns) .cargo, .start⟩
  | .putCargo name ns => ⟨.cargo, daemonKey name (some ns) .cargo, .update⟩
  | .createVm name ns => ⟨.vm, daemonKey name (some ns) .vm, .start⟩
  | .patchVm name ns => ⟨.vm, daemonKey name (some ns) .vm, .update⟩
  | .start kind name ns => ⟨kind, daemonKey name (commandNamespace ns kind) kind, .start⟩
  | .stop kind name ns => ⟨kind, daemonKey name (commandNamespace ns kind) kind, .stop⟩
  | .rm .job name _ => ⟨.job, daemonKey name none .job, .delete⟩
  | .rm .cargo name ns => ⟨.cargo, daemonKey name (commandNamespace ns .cargo) .cargo, .delete⟩
  | .rm .vm name _ => ⟨.vm, daemonKey name none .vm, .delete⟩

/-- the action of the event that starts the task -/
def requestAction : ObjTaskFuture → NativeEventAction
  | .start => .starting
  | .stop => .stopping
  | .update => .updating
  | .delete => .destroying

/-- the action of the event that a task emits once it is done -/
def reportedAction : ObjTaskFuture → NativeEventAction
  | .start | .update => .start
  | .stop => .stop
  | .delete => .destroy

/-- the action of the event that `on_error` emits -/
def failedAction : ObjTaskFuture → NativeEventAction
  | .start => .start
  | .stop => .stop
  | .update => .update
  | .delete => .destroy

theorem onErrorAction_requestAction (task : ObjTaskFuture) : onErrorAction (requestAction task) = some (failedAction task) := by
  cases task <;> rfl

/-- the task of `create_start_task` and the like; a job has no update -/
def runTask (E : Runtime.Env) (key : String) : ProcessKind → ObjTaskFuture → Option (Runtime.Io Unit)
  | .job, .start => some (Runtime.startJob E key)
  | .job, .delete => some (Runtime.deleteJob E key)
  | .job, .update => none
  | .cargo, .start => some (Runtime.start E key)
  | .cargo, .update => some (Runtime.update E key)
  | .cargo, .delete => some (Runtime.delete E key)
  | .vm, .start => some (Runtime.startVm E key)
  | .vm, .update => some (Runtime.updateVm E key)
  | .vm, .delete => some (Runtime.deleteVm E key)
  | kind, .stop => some (Runtime.stopInstances E key kind)

theorem taskOf_requestAction {E : Runtime.Env} {key : String} {kind : ProcessKind} {task : ObjTaskFuture} {actor : EventActor}
    (hactor : actor.kind = Runtime.actorKind kind) :
    taskOf (requestAction task) actor = if (runTask E key kind task).isSome then some task else none := by
  cases kind <;> cases task <;>
    simp [taskOf, requestAction, starting, stopping, updating, destroying, hactor, Runtime.actorKind, runTask]

/-! ## Runs -/

/-- an event the daemon emits about an object -/
def nativeEvent (kind : EventKind) (action : NativeEventAction) (actorKind : EventActorKind) (key note : String) : Watched :=
  ⟨⟨⟨kind, action.display, some ⟨some key, actorKind, []⟩⟩, none⟩, some note⟩

/-- the event by which the daemon reports how the task of the operation ended -/
def Operation.report (op : Operation) : Except String Unit → Watched
  | .ok () => nativeEvent .normal (reportedAction op.requested.task) (Runtime.actorKind op.requested.kind) op.requested.key
      ((Runtime.actorKind op.requested.kind).display ++ " " ++ op.requested.key)
  | .error err => nativeEvent .error (failedAction op.requested.task) (Runtime.actorKind op.requested.kind) op.requested.key err

/-- what happens after a waiter has begun to watch; an event that finds the channel of the waiter full is not sent -/
inductive Step where
  /-- an event of another origin -/
  | event (e : Watched) (sent : Bool)
  /-- the task of the operation ends, and the daemon reports it -/
  | report (outcome : Except String Unit) (sent : Bool)
  /-- the connection is closed, or the daemon drops the client -/
  | ends
  | fails (message : String)

/-- the stream from an emission on: the emitter drops the client after an event that equals its condition -/
def deliver (c : Emitter.EventCondition) (e : Watched) (sent : Bool) (rest : List (Except String Watched) × Bool) :
    List (Except String Watched) × Bool :=
  let later := if c.eq e.event then ([], true) else rest
  (if sent then .ok e :: later.1 else later.1, later.2)

/-- what the stream of the waiter has brought, and whether it has ended -/
def stream (op : Operation) : List Step → List (Except String Watched) × Bool
  | [] => ([], false)
  | .event e sent :: steps => deliver op.waited.condition e sent (stream op steps)
  | .report outcome sent :: steps => deliver op.waited.condition (op.report outcome) sent (stream op steps)
  | .ends :: _ => ([], true)
  | .fails message :: _ => ([.error message], true)

/-- what the waiter of the operation has returned -/
def result (op : Operation) (steps : List Step) : Option (Except WaitError Unit) :=
  waitProcessState op.waited.key (stream op steps).1 (stream op steps).2

/-! ## Property -/

/-- what the waiter has to return: how the task ended, once that is reported -/
def verdict : List Step → Option (Except WaitError Unit)
  | [] => none
  | .report (.ok ()) _ :: _ => some (.ok ())
  | .report (.error err) _ :: _ => some (.error (.interrupted err))
  | .fails message :: _ => some (.error (.stream message))
  | .event .. :: steps | .ends :: steps => verdict steps

/-- the waiter has returned what the daemon reported, and nothing before; it has returned `Ok` only after it received the
event of a success -/
structure Reported (op : Operation) (steps : List Step) : Prop where
  outcome : result op steps = verdict steps
  received : result op steps = some (.ok ()) → .report (.ok ()) true ∈ steps

/-- an error event about the key -/
def ErrorAbout (key : String) (e : Watched) : Prop := e.event.kind = .error ∧ ∃ actor ∈ e.event.actor, actor.key.getD "" = key

instance (key : String) (e : Watched) : Decidable (ErrorAbout key e) := by unfold ErrorAbout; infer_instance

/-- the daemon reports this end of the task by an event that the waiter takes for it -/
def Operation.Answered : Operation → Except String Unit → Prop
  | .patchVm .., outcome => outcome ≠ .ok ()
  | .rm .vm _ ns, _ => ns.getD "global" = "global"
  | _, _ => True

/-- until the task is reported nothing ends the stream and no event is one the waiter takes for the report; the report is
sent and is one the waiter waits for -/
def Clear (op : Operation) : List Step → Prop
  | [] => True
  | .event e sent :: steps =>
    op.waited.condition.eq e.event = false ∧ ¬ (sent = true ∧ ErrorAbout op.waited.key e) ∧ Clear op steps
  | .report outcome sent :: _ => sent = true ∧ op.Answered outcome
  | .ends :: _ => False
  | .fails _ :: _ => True

/-! ## The waiter -/

/-- the waiter on one event: an error about its key, then the end of the stream if the emitter drops it, then the rest -/
theorem waitProcessState_deliver (w : Waited) (e : Watched) (sent : Bool) (rest : List (Except String Watched) × Bool) :
    waitProcessState w.key (deliver w.condition e sent rest).1 (deliver w.condition e sent rest).2 =
      if sent = true ∧ ErrorAbout w.key e then some (.error (.interrupted (e.note.getD "")))
      else if w.condition.eq e.event = true then some (.ok ()) else waitProcessState w.key rest.1 rest.2 := by
  have hlater : ∀ b : Bool, waitProcessState w.key (if b then ([], true) else rest).1 (if b then ([], true) else rest).2 =
      if b = true then some (.ok ()) else waitProcessState w.key rest.1 rest.2 := by
    intro b
    cases b <;> rfl
  cases sent with
  | false => simpa [deliver] using hlater _
  | true =>
    simp only [deliver, if_true, true_and, waitProcessState]
    cases hactor : e.event.actor with
    | none =>
      have hno : ¬ ErrorAbout w.key e := fun ⟨_, a, ha, _⟩ => by simp [hactor] at ha
      rw [if_neg hno]
      exact hlater _
    | some actor =>
      have habout : ErrorAbout w.key e ↔ e.event.kind = .error ∧ actor.key.getD "" = w.key := by simp [ErrorAbout, hactor]
      simp only [habout]
      split_ifs with h <;> simp_all

/-- the events of the daemon that a condition of a waiter equals -/
theorem condition_eq_nativeEvent (w : Waited) (kind : EventKind) {action : NativeEventAction}
    (haction : NativeEventAction.fromStr action.display = action) (actorKind : EventActorKind) (key note : String) :
    w.condition.eq (nativeEvent kind action actorKind key note).event = true ↔
      w.kind = actorKind ∧ w.key = key ∧ kind ≠ .warning ∧ w.action = action := by
  cases kind <;> simp [Waited.condition, nativeEvent, Emitter.EventCondition.eq, haction, and_assoc]

theorem errorAbout_nativeEvent (k : String) (kind : EventKind) (action : NativeEventAction) (actorKind : EventActorKind)
    (key note : String) : ErrorAbout k (nativeEvent kind action actorKind key note) ↔ kind = .error ∧ key = k := by
  simp [ErrorAbout, nativeEvent]

/-! ## The reports -/

/-- an operation waits for the action that its task reports -/
theorem waited_action (op : Operation) : op.waited.action = reportedAction op.requested.task := by
  cases op with
  | rm kind name ns => cases kind <;> rfl
  | _ => rfl

theorem waited_kind_iff (op : Operation) :
    op.waited.kind = Runtime.actorKind op.requested.kind ↔ ∀ name ns, op ≠ .patchVm name ns := by
  cases op with
  | patchVm name ns => exact iff_of_false (by simp [Operation.waited, Operation.requested, Runtime.actorKind]) (by simp)
  | rm kind name ns => cases kind <;> exact iff_of_true rfl (by simp)
  | _ => exact iff_of_true rfl (by simp)

theorem waited_key_iff (op : Operation) :
    op.waited.key = op.requested.key ↔ ∀ name ns, op = .rm .vm name ns → ns.getD "global" = "global" := by
  cases op with
  | rm kind name ns =>
    cases kind with
    | vm => simp [Operation.waited, Operation.requested, commandNamespace, daemonKey]
    | job | cargo => exact iff_of_true rfl (by simp)
  | start kind name ns | stop kind name ns => cases kind <;> exact iff_of_true rfl (by simp)
  | _ => exact iff_of_true rfl (by simp)

/-- what the waiter makes of the report alone -/
theorem answered_iff (op : Operation) (outcome : Except String Unit) :
    op.Answered outcome ↔ op.waited.key = op.requested.key ∧
      (outcome = .ok () → op.waited.kind = Runtime.actorKind op.requested.kind) := by
  rw [waited_key_iff, waited_kind_iff]
  cases op with
  | patchVm name ns => simp [Operation.Answered]
  | rm kind name ns => cases kind <;> simp [Operation.Answered]
  | _ => simp [Operation.Answered]

theorem fromStr_reportedAction (task : ObjTaskFuture) :
    NativeEventAction.fromStr (reportedAction task).display = reportedAction task := by
  cases task <;> rfl

theorem fromStr_failedAction (task : ObjTaskFuture) :
    NativeEventAction.fromStr (failedAction task).display = failedAction task := by
  cases task <;> rfl

/-- the report of a success ends the stream of a waiter that waits for it, and of no other -/
theorem condition_eq_report_ok (op : Operation) :
    op.waited.condition.eq (op.report (.ok ())).event = true ↔ op.Answered (.ok ()) := by
  rw [answered_iff, Operation.report, condition_eq_nativeEvent _ _ (fromStr_reportedAction _)]
  simp [waited_action, and_comm]

theorem errorAbout_report_error (op : Operation) (err : String) :
    ErrorAbout op.waited.key (op.report (.error err)) ↔ op.Answered (.error err) := by
  rw [answered_iff, Operation.report, errorAbout_nativeEvent]
  simp [eq_comm]

/-- an error event that ends the stream is one about the key -/
theorem answered_of_condition_eq {op : Operation} {err : String}
    (h : op.waited.condition.eq (op.report (.error err)).event = true) : op.Answered (.error err) := by
  rw [Operation.report, condition_eq_nativeEvent _ _ (fromStr_failedAction _)] at h
  rw [answered_iff]
  exact ⟨h.2.1, fun herr => by cases herr⟩

/-! ## Runs -/

section Runs

variable {op : Operation} {steps : List Step}

theorem result_event (e : Watched) (sent : Bool) : result op (.event e sent :: steps) =
    if sent = true ∧ ErrorAbout op.waited.key e then some (.error (.interrupted (e.note.getD "")))
    else if op.waited.condition.eq e.event = true then some (.ok ()) else result op steps :=
  waitProcessState_deliver ..

theorem result_report (outcome : Except String Unit) (sent : Bool) : result op (.report outcome sent :: steps) =
    if sent = true ∧ ErrorAbout op.waited.key (op.report outcome) then
      some (.error (.interrupted ((op.report outcome).note.getD "")))
    else if op.waited.condition.eq (op.report outcome).event = true then some (.ok ()) else result op steps :=
  waitProcessState_deliver ..

theorem reported_nil : Reported op [] := ⟨rfl, fun h => by cases h⟩

theorem not_reported_ends : ¬ Reported op [.ends] := fun h => by cases h.outcome

theorem reported_fails (message : String) : Reported op (.fails message :: steps) := ⟨rfl, fun h => by cases h⟩

/-- an event that is not taken for the report changes nothing -/
theorem reported_event_iff {e : Watched} {sent : Bool} (heq : op.waited.condition.eq e.event = false)
    (herr : ¬ (sent = true ∧ ErrorAbout op.waited.key e)) : Reported op (.event e sent :: steps) ↔ Reported op steps := by
  have hresult : result op (.event e sent :: steps) = result op steps := by
    rw [result_event, if_neg herr, heq]
    rfl
  constructor
  · intro h
    refine ⟨hresult ▸ h.outcome, fun hok => ?_⟩
    have hmem := h.received (hresult.trans hok)
    simpa using hmem
  · intro h
    exact ⟨hresult.trans h.outcome, fun hok => List.mem_cons_of_mem _ (h.received (hresult ▸ hok))⟩

/-- an event that is taken for the report ends the waiter too early -/
theorem quiet_of_reported {e : Watched} {sent : Bool} (h : Reported op [.event e sent]) :
    op.waited.condition.eq e.event = false ∧ ¬ (sent = true ∧ ErrorAbout op.waited.key e) := by
  have hout : result op [.event e sent] = none := h.outcome
  rw [result_event] at hout
  split_ifs at hout with herr heq
  exact ⟨by simpa using heq, herr⟩

/-- a report that is sent and answered ends the waiter with the outcome -/
theorem reported_report {outcome : Except String Unit} (h : op.Answered outcome) :
    Reported op (.report outcome true :: steps) := by
  cases outcome with
  | ok u =>
    refine ⟨?_, fun _ => List.mem_cons_self⟩
    have hno : ¬ ErrorAbout op.waited.key (op.report (.ok ())) := fun herr => by
      rw [Operation.report, errorAbout_nativeEvent] at herr
      cases herr.1
    rw [result_report, if_neg fun hc => hno hc.2, if_pos ((condition_eq_report_ok op).2 h)]
    rfl
  | error err =>
    have hresult : result op (.report (.error err) true :: steps) = some (.error (.interrupted err)) := by
      rw [result_report, if_pos ⟨rfl, (errorAbout_report_error op err).2 h⟩]
      rfl
    refine ⟨hresult, fun hok => ?_⟩
    rw [hresult] at hok
    cases hok

theorem answered_of_reported {outcome : Except String Unit} {sent : Bool} (h : Reported op [.report outcome sent]) :
    sent = true ∧ op.Answered outcome := by
  have hout := h.outcome
  have hrec := h.received
  rw [result_report] at hout hrec
  cases outcome with
  | ok u =>
    have hno : ¬ ErrorAbout op.waited.key (op.report (.ok u)) := fun herr => by
      rw [Operation.report, errorAbout_nativeEvent] at herr
      cases herr.1
    rw [if_neg fun hc => hno hc.2] at hout hrec
    split_ifs at hout hrec with heq
    · have hmem := hrec rfl
      simp only [List.mem_singleton, Step.report.injEq, true_and] at hmem
      exact ⟨hmem.symm, (condition_eq_report_ok op).1 heq⟩
    · cases hout
  | error err =>
    split_ifs at hout with herr heq
    · exact ⟨herr.1, (errorAbout_report_error op err).1 herr.2⟩
    · cases hout
    · cases hout

/-- **A waiter reports the daemon's outcome at every moment exactly in the clear runs.** -/
theorem reports_iff (op : Operation) (steps : List Step) : (∀ l, l <+: steps → Reported op l) ↔ Clear op steps := by
  induction steps with
  | nil =>
    refine iff_of_true (fun l hl => ?_) trivial
    rw [List.prefix_nil.1 hl]
    exact reported_nil
  | cons x steps ih =>
    have hcons : (∀ l, l <+: x :: steps → Reported op l) ↔ ∀ l, l <+: steps → Reported op (x :: l) := by
      constructor
      · intro h l hl
        exact h _ (List.prefix_cons_inj x |>.2 hl)
      · intro h l hl
        rcases List.prefix_cons_iff.1 hl with rfl | ⟨t, rfl, ht⟩
        · exact reported_nil
        · exact h t ht
    rw [hcons]
    cases x with
    | event e sent =>
      constructor
      · intro h
        obtain ⟨heq, herr⟩ := quiet_of_reported (h [] List.nil_prefix)
        exact ⟨heq, herr, ih.1 fun l hl => (reported_event_iff heq herr).1 (h l hl)⟩
      · rintro ⟨heq, herr, hclear⟩ l hl
        exact (reported_event_iff heq herr).2 (ih.2 hclear l hl)
    | report outcome sent =>
      constructor
      · intro h
        exact answered_of_reported (h [] List.nil_prefix)
      · rintro ⟨rfl, hans⟩ l -
        exact reported_report hans
    | ends => exact iff_of_false (fun h => not_reported_ends (h [] List.nil_prefix)) id
    | fails message => exact iff_of_true (fun l _ => reported_fails message) trivial

/-- an update of a VM that succeeds: the VM starts, and the waiter waits on -/
theorem vm_patch_waits : ¬ ∀ (op : Operation) (steps l : List Step), l <+: steps → Reported op l := by
  intro h
  have hout := (h (.patchVm "db" "global") [.event (nativeEvent .normal .updating .vm "db.global" "Vm db.global") true,
    .report (.ok ()) true] _ (List.prefix_refl _)).outcome
  revert hout
  decide

end Runs

/-! ## The tasks -/

section Tasks

variable (E : Runtime.Env)

/-- the last event that was emitted says that this has been done to an object of the kind -/
def Last (kind : ProcessKind) (action : NativeEventAction) (w : Runtime.World) : Prop :=
  ∃ key, w.db.events.getLast? = some ⟨.normal, action, Runtime.actorKind kind, key⟩

variable {E}

theorem ensures_emitNormal (kind : ProcessKind) (key : String) (action : NativeEventAction) :
    Prog.Ensures (Last kind action) (Runtime.emitNormal E (Runtime.actorKind kind) key action) :=
  Prog.ensures_bind fun _ _ _ _ => ⟨key, List.getLast?_concat ..⟩

theorem ensures_emit (key : String) (kind : ProcessKind) (action : NativeEventAction) :
    Prog.Ensures (Last kind action) (Runtime.emit E key kind action) := by
  cases kind with
  | vm => exact Prog.ensures_bind fun _ => ensures_emitNormal .vm _ _
  | cargo => exact Prog.ensures_bind fun _ => ensures_emitNormal .cargo _ _
  | job => exact Prog.ensures_bind fun _ => Prog.ensures_bind fun _ => ensures_emitNormal .job _ _

theorem ensures_startInstances (key : String) (kind : ProcessKind) :
    Prog.Ensures (Last kind .start) (Runtime.startInstances E key kind) :=
  Prog.ensures_bind fun _ => Prog.ensures_bind fun _ => Prog.ensures_bind fun _ => ensures_emit _ _ _

theorem ensures_stopInstances (key : String) (kind : ProcessKind) :
    Prog.Ensures (Last kind .stop) (Runtime.stopInstances E key kind) :=
  Prog.ensures_bind fun _ => Prog.ensures_bind fun _ => Prog.ensures_bind fun _ => ensures_emit _ _ _

/-- the containers of a job run after its event, without another -/
theorem runProcess_events (p : ProcessDb) : Prog.Keeps Runtime.SameReport (Runtime.runProcess E p) := by
  have hawait : ∀ c ref, Prog.Keeps Runtime.SameReport (Runtime.await E (Runtime.Docker.call E c ref)) := fun c ref =>
    Prog.keeps_bind Runtime.sameReport_suspend fun _ _ => ⟨rfl, rfl⟩
  refine Prog.keeps_bind (hawait _ _) fun _ => Prog.keeps_bind (Runtime.Steps.orInterrupted ?_) fun _ => Prog.keeps_pure _
  exact Prog.keeps_bind (hawait _ _) fun r => by
    cases r <;> exact Prog.keeps_pure _

theorem ensures_startJob (key : String) : Prog.Ensures (Last .job .start) (Runtime.startJob E key) := by
  have hrun : ∀ (job : Runtime.Job) (processes : List ProcessDb), Prog.Ensures (Last .job .start) (do
      Runtime.updateActualStatus E key .start
      Runtime.emitNormal E .job job.name .start
      Prog.forEach processes (Runtime.runProcess E)) := by
    intro job processes
    refine Prog.ensures_bind fun _ => Prog.ensures_bind_of_keeps (ensures_emitNormal .job _ _) fun _ w hlast => ?_
    have hkept := Prog.keeps_forEach (R := Runtime.SameReport) (fun p (_ : p ∈ processes) => runProcess_events (E := E) p) w
    obtain ⟨k, hk⟩ := hlast
    exact ⟨k, hkept.2 ▸ hk⟩
  unfold Runtime.startJob
  refine Prog.ensures_bind fun job => Prog.ensures_bind fun existing => ?_
  dsimp only
  split_ifs
  · exact Prog.ensures_bind fun processes => hrun job processes
  · exact Prog.ensures_bind fun processes => hrun job processes

theorem ensures_deleteJob (key : String) : Prog.Ensures (Last .job .destroy) (Runtime.deleteJob E key) := by
  unfold Runtime.deleteJob
  refine Prog.ensures_bind fun job => Prog.ensures_bind fun _ => Prog.ensures_bind fun _ => Prog.ensures_bind fun _ => ?_
  dsimp only
  split_ifs
  · exact Prog.ensures_bind fun _ => ensures_emitNormal .job _ _
  · exact ensures_emitNormal .job _ _

/-- the end of a start: an object whose containers are missing gets them first -/
theorem ensures_start (key : String) : Prog.Ensures (Last .cargo .start) (Runtime.start E key) := by
  unfold Runtime.start
  refine Prog.ensures_bind fun cargo => Prog.ensures_bind fun _ => Prog.ensures_bind fun _ => Prog.ensures_bind fun _ => ?_
  dsimp only
  split_ifs
  · exact Prog.ensures_bind fun _ => ensures_startInstances _ .cargo
  · exact ensures_startInstances _ .cargo

theorem ensures_startVm (key : String) : Prog.Ensures (Last .vm .start) (Runtime.startVm E key) := by
  unfold Runtime.startVm
  refine Prog.ensures_bind fun vm => Prog.ensures_bind fun image => Prog.ensures_bind fun _ => ?_
  dsimp only
  split_ifs
  · exact Prog.ensures_bind fun _ => ensures_startInstances _ .vm
  · exact ensures_startInstances _ .vm

theorem ensures_updateVm (key : String) : Prog.Ensures (Last .vm .start) (Runtime.updateVm E key) :=
  Prog.ensures_bind fun _ => Prog.ensures_bind fun _ => Prog.ensures_bind fun _ => Prog.ensures_bind fun _ =>
    ensures_startInstances _ .vm

theorem ensures_update (key : String) : Prog.Ensures (Last .cargo .start) (Runtime.update E key) :=
  Prog.ensures_bind fun _ => Prog.ensures_bind fun _ => Prog.ensures_bind fun _ => Prog.ensures_bind fun _ =>
    Prog.ensures_bind fun _ => Prog.ensures_bind fun _ => Prog.ensures_bind fun _ => ensures_emitNormal .cargo _ _

theorem ensures_delete (key : String) : Prog.Ensures (Last .cargo .destroy) (Runtime.delete E key) :=
  Prog.ensures_bind fun _ => Prog.ensures_bind fun _ => Prog.ensures_bind fun _ => Prog.ensures_bind fun _ =>
    ensures_emitNormal .cargo _ _

theorem ensures_deleteVm (key : String) : Prog.Ensures (Last .vm .destroy) (Runtime.deleteVm E key) :=
  Prog.ensures_bind fun _ => Prog.ensures_bind fun _ => Prog.ensures_bind fun _ => Prog.ensures_bind fun _ =>
    Prog.ensures_bind fun _ => ensures_emitNormal .vm _ _

/-- **A task that returns has emitted its report as its last event.** -/
theorem task_reports {key : String} {kind : ProcessKind} {task : ObjTaskFuture} {m : Runtime.Io Unit}
    (hm : runTask E key kind task = some m) {w w' : Runtime.World} (h : m w = (.ok (), w')) :
    Last kind (reportedAction task) w' := by
  have hens : Prog.Ensures (Last kind (reportedAction task)) m := by
    cases kind <;> cases task <;> simp only [runTask, Option.some.injEq, reduceCtorEq] at hm <;> subst hm
    · exact ensures_startVm key
    · exact ensures_stopInstances key .vm
    · exact ensures_updateVm key
    · exact ensures_deleteVm key
    · exact ensures_startJob key
    · exact ensures_stopInstances key .job
    · exact ensures_deleteJob key
    · exact ensures_start key
    · exact ensures_stopInstances key .cargo
    · exact ensures_update key
    · exact ensures_delete key
  have hlast := hens w () (by rw [h])
  rwa [h] at hlast

end Tasks

/-! ## The emitter -/

/-- events that are all sent, one after the other -/
def sentAll (es : List Watched) : List Step := es.map fun e => .event e true

theorem ended_sentAll (op : Operation) (es : List Watched) : (stream op (sentAll es)).2 =
    es.any fun e => op.waited.condition.eq e.event := by
  induction es with
  | nil => rfl
  | cons e es ih =>
    rw [List.any_cons, ← ih]
    cases h : op.waited.condition.eq e.event <;> simp [sentAll, stream, deliver, h]

/-- **The stream of a waiter ends when the emitter closes its channel.** -/
theorem stream_ends_iff (op : Operation) (ops : List Emitter.Op) (es : List Watched) :
    (stream op (sentAll es)).2 = true ↔
      (Emitter.emitAll (Emitter.step (run Emitter.step .init ops) (.subscribe (some [op.waited.condition])))
        (es.map Watched.event)).Closed (run Emitter.step .init ops).subscribed := by
  rw [Emitter.closed_iff ops (List.cons_ne_nil _ _), ended_sentAll, Emitter.hits]
  simp [List.countP_map, Nat.one_le_iff_ne_zero, List.countP_eq_zero]

end Nanocl.Cli
