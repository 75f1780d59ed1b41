/-
The vocabulary of the daemon's events (`crates/nanocl_stubs/src/system.rs`): kinds and actions of events, the actors
they are about, and the status kinds of jobs, cargoes and VMs. The texts are the ones `FromStr` and `Display` use.
-/
import Mathlib.Tactic

namespace Nanocl

/-- status of a job, cargo or VM -/
inductive ObjPsStatusKind where
  | create | starting | start | updating | update | destroying | destroy | stopping | stop | fail | finish | unknown
deriving DecidableEq, Repr

/-- `ObjPsStatusKind::from_str` (it never fails) -/
def ObjPsStatusKind.fromStr (s : String) : ObjPsStatusKind :=
  match s with
  | "create" => .create
  | "starting" => .starting
  | "start" => .start
  | "updating" => .updating
  | "update" => .update
  | "destroying" => .destroying
  | "destroy" => .destroy
  | "stopping" => .stopping
  | "stop" => .stop
  | "fail" => .fail
  | "finish" => .finish
  | _ => .unknown

/-- `Display` of `ObjPsStatusKind`, as the columns of a status row hold it -/
def ObjPsStatusKind.display : ObjPsStatusKind → String
  | .create => "create"
  | .starting => "starting"
  | .start => "start"
  | .updating => "updating"
  | .update => "update"
  | .destroying => "destroying"
  | .destroy => "destroy"
  | .stopping => "stopping"
  | .stop => "stop"
  | .fail => "fail"
  | .finish => "finish"
  | .unknown => "<unknown>"

@[simp] theorem ObjPsStatusKind.fromStr_display (k : ObjPsStatusKind) : fromStr k.display = k := by
  cases k <;> rfl

/-- kind of the object an event is about -/
inductive EventActorKind where
  | namespace | cargo | vm | job | resource | secret | process | containerImage
deriving DecidableEq, Repr

/-- `Display` of `EventActorKind` -/
def EventActorKind.display : EventActorKind → String
  | .namespace => "Namespace"
  | .cargo => "Cargo"
  | .vm => "Vm"
  | .job => "Job"
  | .resource => "Resource"
  | .secret => "Secret"
  | .process => "Process"
  | .containerImage => "ContainerImage"

theorem EventActorKind.display_injective : Function.Injective EventActorKind.display := by
  intro a b
  cases a <;> cases b <;> decide

theorem EventActorKind.at_notMem_display (k : EventActorKind) : '@' ∉ k.display.toList := by
  cases k <;> decide

/-- kind of an event -/
inductive EventKind where
  | error | normal | warning
deriving DecidableEq, Repr

/-- action of an event -/
inductive NativeEventAction where
  | create | starting | start | updating | update | destroying | destroy | stopping | stop | restart | finish | fail
  | die | downloading | download
  | other (s : String)
deriving DecidableEq, Repr

/-- `NativeEventAction::from_str` (it never fails) -/
def NativeEventAction.fromStr (s : String) : NativeEventAction :=
  match s with
  | "create" => .create
  | "starting" => .starting
  | "start" => .start
  | "updating" => .updating
  | "update" => .update
  | "destroying" => .destroying
  | "destroy" => .destroy
  | "stopping" => .stopping
  | "stop" => .stop
  | "restart" => .restart
  | "finish" => .finish
  | "fail" => .fail
  | "die" => .die
  | "downloading" => .downloading
  | "download" => .download
  | _ => .other s

/-- `Display` of `NativeEventAction` -/
def NativeEventAction.display : NativeEventAction → String
  | .create => "create"
  | .starting => "starting"
  | .start => "start"
  | .updating => "updating"
  | .update => "update"
  | .destroying => "destroying"
  | .destroy => "destroy"
  | .stopping => "stopping"
  | .stop => "stop"
  | .restart => "restart"
  | .finish => "finish"
  | .fail => "fail"
  | .die => "die"
  | .downloading => "downloading"
  | .download => "download"
  | .other s => s

/-- the object an event is about; its attributes (labels and names) are a JSON object of texts -/
structure EventActor where
  key : Option String
  kind : EventActorKind
  attributes : List (String × String)
deriving DecidableEq, Repr

/-- the fields of an event that `exec_event` reads -/
structure Event where
  kind : EventKind
  action : String
  actor : Option EventActor
deriving DecidableEq, Repr

/-- the key under which the task of an object is kept: `format!("{}@{key}", &actor.kind)` -/
def taskKey (kind : EventActorKind) (key : String) : String := kind.display ++ "@" ++ key

/-- no kind has an `@` in its name, so the text before the first `@` of a task key is the kind -/
theorem takeWhile_taskKey (kind : EventActorKind) (key : String) :
    (taskKey kind key).toList.takeWhile (· ≠ '@') = kind.display.toList := by
  have h : ∀ c ∈ kind.display.toList, decide (c ≠ '@') = true := by
    intro c hc
    simp only [ne_eq, decide_not, Bool.not_eq_eq_eq_not, Bool.not_true, decide_eq_false_iff_not]
    rintro rfl
    exact kind.at_notMem_display hc
  simp only [taskKey, String.toList_append, List.append_assoc]
  rw [List.takeWhile_append_of_pos h]
  simp

/-- two task keys are equal only if the kinds are -/
theorem taskKey_kind {k k' : EventActorKind} {a b : String} (h : taskKey k a = taskKey k' b) : k = k' := by
  apply EventActorKind.display_injective
  have := congrArg (fun s => s.toList.takeWhile (· ≠ '@')) h
  simp only [takeWhile_taskKey] at this
  exact String.toList_injective this

end Nanocl
