/-
The process table beside docker: the rows of the containers that the daemon knows, and the containers that there are.

The daemon creates a container, inspects it and inserts its row; it deletes a container and then the row of the same key.
Docker's containers are also changed, renamed, created and removed by others. Docker reports what happens on a stream of
events, which breaks now and then; one thread reads it and runs `exec_docker` on one event after the other: it deletes the
row of a destroyed container, and for the other events it inspects the container and updates its row. Every one of these
takes one step at a time, in any order, and each call may fail.

`due` is the row that a container will have when all that is under way is done: its creation, the events in their order,
the deletions. The table is on track (`OnTrack`) if this is what docker shows.
- `mirrors_iff`: with nothing under way the table is on track exactly if it mirrors docker.
- `step_harmless`: a step keeps it on track exactly if it is harmless.
- `mirrors_docker_iff`: so for whole runs; and after a run of harmless steps the table mirrors docker as soon as nothing is
  under way.
-/
import Nanocl.Lib.Transition

namespace Nanocl.ProcessTable

open Nanocl.Lib

/-! ## Model -/

abbrev Labels := List (String × String)

/-- a container as an inspection shows it; σ stands for all of it but its name and labels -/
structure Container (σ : Type) where
  name : String
  labels : Labels
  state : σ
deriving DecidableEq

/-- a row of `processes`, under its key: the id of the container -/
structure ProcessDb (σ : Type) where
  name : String
  data : Container σ
deriving DecidableEq

inductive EventMessageTypeEnum where
  | empty | builder | config | container | daemon | image | network | node | plugin | secret | service | volume
deriving DecidableEq

structure EventActor where
  id : Option String
  attributes : Option Labels
deriving DecidableEq

structure EventMessage where
  typ : Option EventMessageTypeEnum
  action : Option String
  actor : Option EventActor
deriving DecidableEq

/-- `exec_docker`: what is left to do about an event -/
inductive Work (σ : Type) where
  /-- the actual status of the object -/
  | status (id name : String)
  | inspect (id name : String)
  /-- the update of the row with what the inspection showed -/
  | update (id name : String) (data : Container σ)
  | delete (id : String)
deriving DecidableEq

/-- `process::create`: what is left to do once docker has created the container -/
inductive Creation (σ : Type) where
  | inspect (name : String)
  | insert (row : ProcessDb σ)
deriving DecidableEq

variable {σ : Type}

/-- the kind and the key of the object that labels name -/
def objectOf (labels : Labels) : Option (String × String) :=
  if (labels.lookup "io.nanocl").isNone then none
  else
    match labels.lookup "io.nanocl.kind" with
    | some "cargo" => (labels.lookup "io.nanocl.c").map fun key => ("cargo", key)
    | some "vm" => (labels.lookup "io.nanocl.v").map fun key => ("vm", key)
    | some "job" => (labels.lookup "io.nanocl.j").map fun key => ("job", key)
    | _ => none

/-- `exec_docker`: what an event asks for -/
def execDocker (event : EventMessage) : Option (Work σ) :=
  if event.typ.getD .empty ≠ .container then none
  else
    let actor := event.actor.getD ⟨none, none⟩
    let attributes := actor.attributes.getD []
    if (objectOf attributes).isNone then none
    else
      let action := event.action.getD ""
      let id := actor.id.getD ""
      let name := (attributes.lookup "name").getD ""
      if action = "start" then some (.status id name)
      else if action = "die" then
        if "tmp-".toList.isPrefixOf name.toList || "init-".toList.isPrefixOf name.toList then some (.inspect id name)
        else some (.status id name)
      else if action = "destroy" then some (.delete id)
      else if action = "create" then none
      else some (.inspect id name)

/-- docker's event about a container: its attributes are the labels and the name -/
def Container.event (c : Container σ) (id action : String) : EventMessage :=
  ⟨some .container, some action, some ⟨some id, some (("name", c.name) :: c.labels)⟩⟩

/-- the labels that `process::create` adds -/
def processLabels (kind : String) (labels : Labels) : Labels :=
  ("io.nanocl.kind", kind) :: ("io.nanocl", "enabled") :: labels

structure St (σ : Type) where
  containers : String → Option (Container σ)
  processes : String → Option (ProcessDb σ)
  /-- the daemon reads docker's stream of events -/
  connected : Bool
  /-- the events on the stream that the daemon has not looked at -/
  messages : List EventMessage
  /-- what is left of `exec_docker` -/
  handler : Option (Work σ)
  /-- what is left of the creation of a container -/
  creating : String → Option (Creation σ)
  /-- `delete_instance`: how many deletions of the row of this key are left, their containers being removed -/
  deleting : String → ℕ

def Work.id : Work σ → String
  | .status id _ | .inspect id _ | .update id _ _ | .delete id => id

/-- what the events ask for that the daemon has not looked at -/
def queued (s : St σ) : List (Work σ) := s.messages.filterMap execDocker

/-- what the daemon will do about the events it has received, in this order -/
def works (s : St σ) : List (Work σ) := s.handler.toList ++ queued s

/-- docker has not used the id, and nothing is under way for it -/
def Fresh (s : St σ) (id : String) : Prop :=
  s.containers id = none ∧ s.processes id = none ∧ s.creating id = none ∧ s.deleting id = 0 ∧ ∀ w ∈ works s, w.id ≠ id

instance (s : St σ) (id : String) : Decidable (Fresh s id) := by
  unfold Fresh
  infer_instance

/-- docker finds the container under this key: its id, or its name -/
def Resolves (s : St σ) (pk id : String) : Prop :=
  ∃ c ∈ s.containers id, pk = id ∨ (s.containers pk = none ∧ c.name = pk)

instance (s : St σ) (pk id : String) : Decidable (Resolves s pk id) := by
  unfold Resolves
  infer_instance

def report (s : St σ) (m : EventMessage) : St σ := if s.connected then { s with messages := s.messages ++ [m] } else s

def setContainer (s : St σ) (id : String) (c : Option (Container σ)) : St σ :=
  { s with containers := Function.update s.containers id c }

def remove (s : St σ) (id : String) : St σ :=
  match s.containers id with
  | some c => report (setContainer s id none) (c.event id "destroy")
  | none => s

/-- the next step of `process::create` -/
def createStep (s : St σ) (id : String) (ok : Bool) : St σ :=
  match s.creating id with
  | none => s
  | some (.inspect name) =>
    let next := if ok then (s.containers id).map fun c => .insert ⟨name, c⟩ else none
    { s with creating := Function.update s.creating id next }
  | some (.insert row) =>
    { s with
      creating := Function.update s.creating id none
      processes := if ok && (s.processes id).isNone then Function.update s.processes id (some row) else s.processes }

/-- the next step of `exec_docker` -/
def workStep (s : St σ) (ok : Bool) : Work σ → St σ
  | .status id name => { s with handler := if ok then some (.inspect id name) else none }
  | .inspect id name => { s with handler := if ok then (s.containers id).map (.update id name) else none }
  | .update id name data =>
    { s with
      handler := none
      processes :=
        if ok then Function.update s.processes id ((s.processes id).map fun _ => ⟨name, data⟩) else s.processes }
  | .delete id =>
    { s with
      handler := none
      processes := if ok then Function.update s.processes id none else s.processes }

/-- the thread of docker's events: it takes the next one once it is through with the one before -/
def handleStep (s : St σ) (ok : Bool) : St σ :=
  match s.handler, s.messages with
  | some w, _ => workStep s ok w
  | none, m :: messages => { s with messages := messages, handler := execDocker m }
  | none, [] => s

inductive Op (σ : Type) where
  /-- `process::create`: docker creates the container -/
  | create (id kind name : String) (labels : Labels) (state : σ)
  /-- `process::create` takes its next step, and its call succeeds or fails -/
  | createNext (id : String) (ok : Bool)
  /-- `delete_instance`: docker removes the container that it finds, or there is none -/
  | deleteInstance (pk : String) (found : Option String)
  /-- `delete_instance`: the deletion of the row -/
  | deleteNext (pk : String) (ok : Bool)
  /-- the thread of docker's events takes its next step -/
  | handle (ok : Bool)
  /-- somebody else creates a container -/
  | createElsewhere (id : String) (c : Container σ)
  /-- the container changes; docker reports it as this action, or does not report it as an event of a container -/
  | change (id : String) (action : Option String) (state : σ)
  | rename (id name : String)
  /-- somebody else removes the container -/
  | removeElsewhere (id : String)
  /-- the stream breaks; only so many of the events that were under way arrive -/
  | disconnect (arriving : ℕ)
  | connect

def step (s : St σ) : Op σ → St σ
  | .create id kind name labels state =>
    if Fresh s id then
      let c : Container σ := ⟨name, processLabels kind labels, state⟩
      let s := report (setContainer s id (some c)) (c.event id "create")
      { s with creating := Function.update s.creating id (some (.inspect name)) }
    else s
  | .createNext id ok => createStep s id ok
  | .deleteInstance pk (some id) =>
    if Resolves s pk id then
      let s := remove s id
      { s with deleting := Function.update s.deleting pk (s.deleting pk + 1) }
    else s
  | .deleteInstance pk none =>
    if s.containers pk = none then { s with deleting := Function.update s.deleting pk (s.deleting pk + 1) } else s
  | .deleteNext pk ok =>
    if s.deleting pk = 0 then s
    else
      { s with
        deleting := Function.update s.deleting pk (s.deleting pk - 1)
        processes := if ok then Function.update s.processes pk none else s.processes }
  | .handle ok => handleStep s ok
  | .createElsewhere id c => if Fresh s id then report (setContainer s id (some c)) (c.event id "create") else s
  | .change id action state =>
    match s.containers id, action with
    | some c, some action =>
      if action = "create" ∨ action = "destroy" then s
      else report (setContainer s id (some { c with state := state })) (c.event id action)
    | some c, none => setContainer s id (some { c with state := state })
    | none, _ => s
  | .rename id name =>
    match s.containers id with
    | some c =>
      let c := { c with name := name }
      report (setContainer s id (some c)) (c.event id "rename")
    | none => s
  | .removeElsewhere id => remove s id
  | .disconnect arriving => { s with messages := s.messages.take arriving, connected := false }
  | .connect => { s with connected := true }

/-! ## Property and condition -/

/-- what the table should hold of a container -/
def shown (s : St σ) (id : String) : Option (ProcessDb σ) :=
  (s.containers id).bind fun c => if (objectOf c.labels).isSome then some ⟨c.name, c⟩ else none

/-- the rows are those of the containers of objects, each with the latest name and data -/
def Mirrors (s : St σ) : Prop := ∀ id, s.processes id = shown s id

/-- nothing is under way -/
structure Quiet (s : St σ) : Prop where
  messages : s.messages = []
  handler : s.handler = none
  creating : ∀ id, s.creating id = none
  deleting : ∀ id, s.deleting id = 0

/-- what a piece of work makes of the row, the container being `c` -/
def Work.apply (c : Option (Container σ)) (row : Option (ProcessDb σ)) : Work σ → Option (ProcessDb σ)
  | .status _ name | .inspect _ name =>
    match c with
    | some c => row.map fun _ => ⟨name, c⟩
    | none => row
  | .update _ name data => row.map fun _ => ⟨name, data⟩
  | .delete _ => none

def settle (c : Option (Container σ)) (row : Option (ProcessDb σ)) (ws : List (Work σ)) : Option (ProcessDb σ) :=
  ws.foldl (Work.apply c) row

def worksOn (s : St σ) (id : String) : List (Work σ) := (works s).filter (·.id = id)

/-- the row once the creation of the container is through -/
def base (s : St σ) (id : String) : Option (ProcessDb σ) :=
  match s.creating id with
  | none => s.processes id
  | some (.inspect name) => (s.containers id).map fun c => ⟨name, c⟩
  | some (.insert row) => some row

/-- the row once all that is under way for the container is through -/
def due (s : St σ) (id : String) : Option (ProcessDb σ) :=
  if s.deleting id = 0 then settle (s.containers id) (base s id) (worksOn s id) else none

def OnTrack (s : St σ) : Prop := ∀ id, due s id = shown s id

/-- it will inspect the container -/
def Work.reads : Work σ → Bool
  | .status .. | .inspect .. => true
  | _ => false

/-- the last of what is under way for the container still has to inspect it -/
def Unread (s : St σ) (id : String) : Prop :=
  match (worksOn s id).getLast? with
  | some w => w.reads = true
  | none => ∃ name, s.creating id = some (.inspect name)

/-- the row will be deleted, the handled event apart -/
def DeletedAnyway (s : St σ) (id : String) : Prop := s.deleting id ≠ 0 ∨ .delete id ∈ queued s

/-- the row will be right without the handled event -/
def RightAnyway (s : St σ) (id : String) : Prop :=
  s.containers id = none ∨ (∃ w ∈ queued s, w.id = id) ∨ base s id = shown s id

/-- a container of an object -/
def Container.Known (c : Container σ) : Prop := (objectOf c.labels).isSome

/-- its row is about to be inserted -/
def Inserting (s : St σ) (id : String) : Prop := ∃ row, s.creating id = some (.insert row)

/-- it can be removed without the daemon being told: it is of no object, or its creation has not inspected it -/
def Removable (s : St σ) (id : String) : Prop :=
  ∀ c ∈ s.containers id, c.Known → ∃ name, s.creating id = some (.inspect name)

def Harmless (s : St σ) : Op σ → Prop
  -- the labels tell the object
  | .create id kind _ labels _ => Fresh s id → (objectOf (processLabels kind labels)).isSome
  -- the container does not stay without a row
  | .createNext id ok => s.creating id ≠ none → ok = false → s.containers id = none
  | .deleteInstance pk (some id) => Resolves s pk id → s.connected = true ∨ pk = id ∨ Removable s id
  | .deleteInstance _ none => True
  -- the row is deleted, and not inserted after that
  | .deleteNext pk true => s.deleting pk = 1 → Inserting s pk → .delete pk ∈ works s
  | .deleteNext pk false => s.deleting pk = 1 → base s pk = none ∨ .delete pk ∈ works s
  | .handle true =>
    match s.handler with
    | some (.update id _ _) => s.processes id = none → RightAnyway s id
    | some (.delete id) => Inserting s id → DeletedAnyway s id
    | _ => True
  | .handle false =>
    match s.handler with
    | some (.delete id) => base s id = none ∨ DeletedAnyway s id
    | some w => RightAnyway s w.id
    | none => True
  -- the daemon is told, or will see it anyway
  | .createElsewhere id c => Fresh s id → ¬ c.Known
  | .change id action state =>
    ∀ c ∈ s.containers id, c.Known → action ∉ [some "create", some "destroy"] → c.state ≠ state →
      (s.connected = true ∧ action ≠ none) ∨ Unread s id
  | .rename id name => ∀ c ∈ s.containers id, c.Known → c.name ≠ name → s.connected = true
  | .removeElsewhere id => s.connected = true ∨ Removable s id
  -- what is lost is not needed
  | .disconnect arriving =>
    ∀ m ∈ s.messages.drop arriving, ∀ w : Work σ, execDocker m = some w →
      due { s with messages := s.messages.take arriving } w.id = shown s w.id
  | .connect => True

/-! ## What is due -/

section Settle

variable {c c' : Option (Container σ)} {row row' : Option (ProcessDb σ)} {w : Work σ} {ws : List (Work σ)}

theorem Work.apply_eq_none_iff : w.apply c row = none ↔ row = none ∨ ∃ id, w = .delete id := by
  cases w <;> cases c <;> simp [Work.apply]

/-- a row that is updated does not depend on what it was -/
theorem Work.apply_congr {c : Container σ} (h : row = none ↔ row' = none) :
    w.apply (some c) row = w.apply (some c) row' := by
  cases row <;> cases row' <;> simp_all [Work.apply]

theorem settle_cons : settle c row (w :: ws) = settle c (w.apply c row) ws := rfl

theorem settle_append : settle c row (ws ++ [w]) = w.apply c (settle c row ws) := by
  simp [settle, List.foldl_append]

theorem settle_eq_none_iff : settle c row ws = none ↔ row = none ∨ ∃ id, Work.delete id ∈ ws := by
  induction ws generalizing row with
  | nil => simp [settle]
  | cons w ws ih =>
    rw [settle_cons, ih, Work.apply_eq_none_iff, or_assoc]
    simp only [List.mem_cons, exists_or, eq_comm (a := w)]

/-- once there is something to do, only the absence of the row matters -/
theorem settle_congr {c : Container σ} (h : row = none ↔ row' = none) (hws : ws ≠ []) :
    settle (some c) row ws = settle (some c) row' ws := by
  cases ws with
  | nil => exact absurd rfl hws
  | cons w ws => rw [settle_cons, settle_cons, Work.apply_congr h]

/-- the name does not depend on what the container is found to be -/
theorem settle_name (c c' : Container σ) (ws : List (Work σ)) (h : row.map ProcessDb.name = row'.map ProcessDb.name) :
    (settle (some c) row ws).map ProcessDb.name = (settle (some c') row' ws).map ProcessDb.name := by
  induction ws generalizing row row' with
  | nil => exact h
  | cons w ws ih =>
    refine ih ?_
    cases row <;> cases row' <;> cases w <;> simp_all [Work.apply]

end Settle

theorem objectOf_name (name : String) (labels : Labels) : objectOf (("name", name) :: labels) = objectOf labels := by
  have hother : ∀ key, key ≠ "name" → (("name", name) :: labels).lookup key = labels.lookup key := by
    intro key hkey
    rw [List.lookup_cons, beq_false_of_ne hkey]
  unfold objectOf
  rw [hother "io.nanocl" (by decide), hother "io.nanocl.kind" (by decide), hother "io.nanocl.c" (by decide),
    hother "io.nanocl.v" (by decide), hother "io.nanocl.j" (by decide)]

section Event

variable {c : Container σ} {id action : String}

theorem execDocker_event_unknown (h : ¬ c.Known) : execDocker (c.event id action) = (none : Option (Work σ)) := by
  have hobject : objectOf c.labels = none := Option.not_isSome_iff_eq_none.1 h
  simp [execDocker, Container.event, objectOf_name, hobject]

theorem execDocker_event_destroy (h : c.Known) : execDocker (c.event id "destroy") = some (Work.delete (σ := σ) id) := by
  have hobject : objectOf c.labels ≠ none := Option.isSome_iff_ne_none.1 h
  simp [execDocker, Container.event, objectOf_name, hobject]

theorem execDocker_event_create : execDocker (c.event id "create") = (none : Option (Work σ)) := by
  simp [execDocker, Container.event]

/-- the daemon looks at a container whose event is neither its creation nor its removal -/
theorem execDocker_event_reads (id : String) (h : c.Known) (hcreate : action ≠ "create") (hdestroy : action ≠ "destroy") :
    execDocker (c.event id action) = some (Work.status (σ := σ) id c.name) ∨
      execDocker (c.event id action) = some (Work.inspect (σ := σ) id c.name) := by
  have hobject : objectOf c.labels ≠ none := Option.isSome_iff_ne_none.1 h
  by_cases hstart : action = "start"
  · simp [execDocker, Container.event, objectOf_name, hobject, hstart]
  · by_cases hdie : action = "die"
    · simp only [execDocker, Container.event, objectOf_name, hobject, hdie, Option.getD_some, ne_eq, not_true_eq_false,
        if_false, Option.isNone_iff_eq_none, String.reduceEq, if_true, List.lookup_cons_self]
      split_ifs
      · exact .inr rfl
      · exact .inl rfl
    · simp [execDocker, Container.event, objectOf_name, hobject, hstart, hdie, hcreate, hdestroy]

theorem execDocker_event_id {w : Work σ} (h : execDocker (c.event id action) = some w) : w.id = id := by
  by_cases hk : c.Known
  · by_cases hcreate : action = "create"
    · rw [hcreate, execDocker_event_create] at h
      cases h
    · by_cases hdestroy : action = "destroy"
      · rw [hdestroy, execDocker_event_destroy hk] at h
        cases h
        rfl
      · rcases execDocker_event_reads (σ := σ) id hk hcreate hdestroy with he | he
        · rw [he] at h
          cases h
          rfl
        · rw [he] at h
          cases h
          rfl
  · rw [execDocker_event_unknown hk] at h
    cases h

end Event

/-! ## Invariant -/

/-- the table is on track for one id; a container that is being created has no row yet, and a container of no object has
none and gets none -/
structure InOrderAt (s : St σ) (id : String) : Prop where
  on_track : due s id = shown s id
  creating : s.creating id ≠ none → s.processes id = none
  unknown : ∀ c ∈ s.containers id, ¬ c.Known → base s id = none

def InOrder (s : St σ) : Prop := ∀ id, InOrderAt s id

theorem InOrder.on_track {s : St σ} (h : InOrder s) : OnTrack s := fun id => (h id).on_track

/-- nothing has happened about the id -/
structure SameAt (s s' : St σ) (id : String) : Prop where
  containers : s'.containers id = s.containers id
  processes : s'.processes id = s.processes id
  creating : s'.creating id = s.creating id
  deleting : s'.deleting id = s.deleting id
  works : worksOn s' id = worksOn s id

section Same

variable {s s' : St σ} {id : String}

theorem SameAt.refl (s : St σ) (id : String) : SameAt s s id := ⟨rfl, rfl, rfl, rfl, rfl⟩

theorem SameAt.shown (h : SameAt s s' id) : shown s' id = shown s id := by
  unfold ProcessTable.shown
  rw [h.containers]

theorem SameAt.base (h : SameAt s s' id) : base s' id = base s id := by
  unfold ProcessTable.base
  rw [h.creating, h.containers, h.processes]

theorem SameAt.due (h : SameAt s s' id) : due s' id = due s id := by
  unfold ProcessTable.due
  rw [h.deleting, h.containers, h.base, h.works]

theorem SameAt.inOrderAt (h : SameAt s s' id) (hs : InOrderAt s id) : InOrderAt s' id := by
  refine ⟨?_, ?_, ?_⟩
  · rw [h.due, h.shown]
    exact hs.on_track
  · rw [h.creating, h.processes]
    exact hs.creating
  · rw [h.containers, h.base]
    exact hs.unknown

/-- a step about one id only -/
theorem InOrder.of_at (hs : InOrder s) (hothers : ∀ j, j ≠ id → SameAt s s' j) (hid : InOrderAt s' id) : InOrder s' := by
  intro j
  by_cases hj : j = id
  · exact hj ▸ hid
  · exact (hothers j hj).inOrderAt (hs j)

end Same

section Due

variable {s : St σ} {id : String} {c : Container σ}

theorem shown_none (h : s.containers id = none) : shown s id = none := by
  rw [shown, h, Option.bind_none]

theorem shown_known (h : s.containers id = some c) (hk : c.Known) : shown s id = some ⟨c.name, c⟩ := by
  have hobject : (objectOf c.labels).isSome := hk
  rw [shown, h, Option.bind_some, if_pos hobject]

theorem shown_unknown (h : s.containers id = some c) (hk : ¬ c.Known) : shown s id = none := by
  have hobject : ¬ (objectOf c.labels).isSome := hk
  rw [shown, h, Option.bind_some, if_neg hobject]

theorem delete_mem_worksOn : (∃ j, Work.delete j ∈ worksOn s id) ↔ Work.delete id ∈ works s := by
  constructor
  · rintro ⟨j, hj⟩
    obtain ⟨hmem, hid⟩ := List.mem_filter.1 hj
    have : j = id := of_decide_eq_true hid
    exact this ▸ hmem
  · intro h
    exact ⟨id, List.mem_filter.2 ⟨h, decide_eq_true rfl⟩⟩

theorem base_of_none (h : s.creating id = none) : base s id = s.processes id := by rw [base, h]

theorem base_of_inspect {name : String} (h : s.creating id = some (.inspect name)) :
    base s id = (s.containers id).map fun c => ⟨name, c⟩ := by rw [base, h]

theorem base_of_insert {row : ProcessDb σ} (h : s.creating id = some (.insert row)) : base s id = some row := by
  rw [base, h]

theorem due_eq {c : Option (Container σ)} {row : Option (ProcessDb σ)} {ws : List (Work σ)}
    (hdeleting : s.deleting id = 0) (hc : s.containers id = c) (hbase : base s id = row) (hworks : worksOn s id = ws) :
    due s id = settle c row ws := by
  rw [due, if_pos hdeleting, hc, hbase, hworks]

/-- when no row is due: there is none and none to come, or it will be deleted -/
theorem due_eq_none_iff : due s id = none ↔ s.deleting id ≠ 0 ∨ base s id = none ∨ Work.delete id ∈ works s := by
  unfold due
  split_ifs with h
  · rw [settle_eq_none_iff, delete_mem_worksOn]
    simp [h]
  · exact iff_of_true rfl (.inl h)

/-- a container of an object that is on track has a row, or its creation will insert one, and nothing will delete it -/
theorem InOrderAt.known (h : InOrderAt s id) (hc : s.containers id = some c) (hk : c.Known) :
    s.deleting id = 0 ∧ base s id ≠ none ∧ Work.delete id ∉ works s ∧
      settle (some c) (base s id) (worksOn s id) = some ⟨c.name, c⟩ := by
  have hdue : due s id = some ⟨c.name, c⟩ := h.on_track.trans (shown_known hc hk)
  have hnot : ¬ (s.deleting id ≠ 0 ∨ base s id = none ∨ Work.delete id ∈ works s) := by
    rw [← due_eq_none_iff, hdue]
    exact Option.some_ne_none _
  obtain ⟨hdeleting, hbase, hwork⟩ := not_or.1 hnot |>.imp_right not_or.1
  refine ⟨not_not.1 hdeleting, hbase, hwork, ?_⟩
  rw [due, if_pos (not_not.1 hdeleting), hc] at hdue
  exact hdue

end Due

/-! ### Reports -/

section Report

variable {s : St σ} {m : EventMessage} {id j : String} {c : Container σ} {action : String}

theorem works_report : works (report s m) = works s ++ if s.connected then (execDocker m).toList else [] := by
  unfold report works queued
  split_ifs
  · cases hm : (execDocker m : Option (Work σ)) <;> simp [hm]
  · simp

theorem worksOn_report_of_ne (hj : j ≠ id) : worksOn (report s (c.event id action)) j = worksOn s j := by
  rw [worksOn, works_report, List.filter_append]
  split_ifs
  · cases he : (execDocker (c.event id action) : Option (Work σ)) with
    | none => simp [worksOn]
    | some w =>
      have hw : w.id ≠ j := by
        rw [execDocker_event_id he]
        exact hj.symm
      simp [worksOn, hw]
  · simp [worksOn]

theorem worksOn_report_self :
    worksOn (report s (c.event id action)) id =
      worksOn s id ++ if s.connected then (execDocker (c.event id action)).toList else [] := by
  rw [worksOn, works_report, List.filter_append]
  split_ifs
  · cases he : (execDocker (c.event id action) : Option (Work σ)) with
    | none => simp [worksOn]
    | some w => simp [worksOn, execDocker_event_id he]
  · simp [worksOn]

/-- the daemon does nothing about the creation of a container -/
theorem worksOn_report_create : worksOn (report s (c.event id "create")) j = worksOn s j := by
  rw [worksOn, works_report, execDocker_event_create]
  split_ifs <;> simp [worksOn]

@[simp] theorem report_containers : (report s m).containers = s.containers := by
  unfold report
  split_ifs <;> rfl

@[simp] theorem report_processes : (report s m).processes = s.processes := by
  unfold report
  split_ifs <;> rfl

@[simp] theorem report_creating : (report s m).creating = s.creating := by
  unfold report
  split_ifs <;> rfl

@[simp] theorem report_deleting : (report s m).deleting = s.deleting := by
  unfold report
  split_ifs <;> rfl

@[simp] theorem worksOn_setContainer : worksOn (setContainer s id (some c)) j = worksOn s j := rfl

end Report

/-! ### Steps -/

/-- the table stays in order at the id if the condition holds, and it does not stay on track if it does not -/
structure Decides (s' : St σ) (id : String) (C : Prop) : Prop where
  keeps : C → InOrderAt s' id
  needs : due s' id = shown s' id → C

/-- a step about one id is harmless exactly if it is for this id -/
theorem Decides.all {s s' : St σ} {id : String} {C : Prop} (h : Decides s' id C) (hs : InOrder s)
    (hothers : ∀ j, j ≠ id → SameAt s s' j) : (C → InOrder s') ∧ (OnTrack s' → C) :=
  ⟨fun hC => hs.of_at hothers (h.keeps hC), fun htrack => h.needs (htrack id)⟩

theorem Decides.of_same {s s' : St σ} {id : String} {C : Prop} (h : SameAt s s' id) (hs : InOrderAt s id) (hC : C) :
    Decides s' id C :=
  ⟨fun _ => h.inOrderAt hs, fun _ => hC⟩

section Steps

variable {s s' : St σ} {id : String} {c : Container σ}

/-! #### Creation -/

theorem Decides.congr {s' : St σ} {id : String} {C C' : Prop} (h : Decides s' id C) (hC : C ↔ C') : Decides s' id C' :=
  ⟨fun h' => h.keeps (hC.2 h'), fun hdue => hC.1 (h.needs hdue)⟩

/-- there is no row and none to come any more -/
theorem decides_ended (hs : InOrderAt s id) (hcontainers : s'.containers id = s.containers id)
    (hcreating : s'.creating id = none) (hprocesses : s'.processes id = none) :
    Decides s' id (base s id = none ∨ s.containers id = none) := by
  have hbase' : base s' id = none := by
    rw [base, hcreating]
    exact hprocesses
  have hdue' : due s' id = none := due_eq_none_iff.2 (.inr (.inl hbase'))
  have hshown' : shown s' id = shown s id := by rw [shown, shown, hcontainers]
  constructor
  · intro hC
    refine ⟨?_, fun _ => hprocesses, fun _ _ _ => hbase'⟩
    rw [hdue', hshown']
    rcases hC with hbase | hc
    · rw [← hs.on_track, due_eq_none_iff.2 (.inr (.inl hbase))]
    · rw [shown_none hc]
  · intro hshown
    cases hc : s.containers id with
    | none => exact .inr rfl
    | some c =>
      by_cases hk : c.Known
      · rw [hdue', hshown', shown_known hc hk] at hshown
        cases hshown
      · exact .inl (hs.unknown c hc hk)

/-- the row to come is the same as before -/
theorem decides_same_base {C : Prop} (hs : InOrderAt s id) (hbase : base s' id = base s id)
    (hcontainers : s'.containers id = s.containers id) (hdeleting : s'.deleting id = s.deleting id)
    (hworks : worksOn s' id = worksOn s id) (hcreating : s'.creating id ≠ none → s'.processes id = none) (hC : C) :
    Decides s' id C := by
  have hdue : due s' id = due s id := by rw [due, due, hbase, hcontainers, hdeleting, hworks]
  have hshown : shown s' id = shown s id := by rw [shown, shown, hcontainers]
  refine ⟨fun _ => ⟨?_, hcreating, ?_⟩, fun _ => hC⟩
  · rw [hdue, hshown]
    exact hs.on_track
  · rw [hcontainers, hbase]
    exact hs.unknown

/-! #### Creation -/

theorem createStep_same {j : String} (ok : Bool) (hj : j ≠ id) : SameAt s (createStep s id ok) j := by
  unfold createStep
  cases s.creating id with
  | none => exact .refl s j
  | some creation =>
    cases creation with
    | inspect name => exact ⟨rfl, rfl, Function.update_of_ne hj .., rfl, rfl⟩
    | insert row =>
      refine ⟨rfl, ?_, Function.update_of_ne hj .., rfl, rfl⟩
      dsimp only
      split_ifs
      · exact Function.update_of_ne hj ..
      · rfl

theorem createStep_decides (hs : InOrderAt s id) (ok : Bool) :
    Decides (createStep s id ok) id (Harmless s (.createNext id ok)) := by
  unfold createStep
  cases hcreating : s.creating id with
  | none => exact .of_same (.refl s id) hs fun h => absurd hcreating h
  | some creation =>
    have hprocesses : s.processes id = none := hs.creating (by rw [hcreating]; exact Option.some_ne_none _)
    cases creation with
    | inspect name =>
      have hbase := base_of_inspect hcreating
      cases hc : s.containers id with
      | none =>
        refine Decides.congr (decides_ended hs ?_ ?_ ?_) (iff_of_true (.inr hc) fun _ _ => hc)
        · rfl
        · cases ok <;> exact Function.update_self ..
        · exact hprocesses
      | some c =>
        rw [hc] at hbase
        cases ok with
        | false =>
          refine Decides.congr (decides_ended hs ?_ ?_ ?_) ?_
          · rfl
          · exact Function.update_self ..
          · exact hprocesses
          · rw [hbase, hc]
            simp [Harmless, hcreating, hc]
        | true =>
          refine decides_same_base hs ?_ rfl rfl rfl (fun _ => hprocesses) fun _ h => by cases h
          rw [hbase, base]
          simp
    | insert row =>
      have hbase := base_of_insert hcreating
      cases ok with
      | false =>
        refine Decides.congr (decides_ended hs ?_ ?_ ?_) ?_
        · rfl
        · exact Function.update_self ..
        · exact hprocesses
        · simp [Harmless, hcreating, hbase]
      | true =>
        refine decides_same_base hs ?_ rfl rfl rfl (fun h => absurd (Function.update_self ..) h) fun _ h => by cases h
        rw [hbase, base]
        simp [hprocesses]

/-! #### Deletion -/

/-- a row that is deleted is not of a container that should be shown -/
theorem InOrderAt.shown_deleted (hs : InOrderAt s id) (h : s.deleting id ≠ 0 ∨ Work.delete id ∈ works s) :
    shown s id = none := by
  rw [← hs.on_track]
  exact due_eq_none_iff.2 (h.imp_right .inr)

/-- what is not shown and has a container has no row and gets none -/
theorem InOrderAt.base_unshown (hs : InOrderAt s id) (h : shown s id = none) :
    ∀ c ∈ s.containers id, base s id = none := by
  intro c hc
  by_cases hk : c.Known
  · rw [shown_known hc hk] at h
    cases h
  · exact hs.unknown c hc hk

/-- where nothing should be shown, no row may be due -/
theorem decides_unshown {C : Prop} (hshown : shown s' id = none)
    (hcreating : s'.creating id ≠ none → s'.processes id = none) (hunshown : ∀ c ∈ s'.containers id, base s' id = none)
    (hC : C ↔ s'.deleting id ≠ 0 ∨ base s' id = none ∨ Work.delete id ∈ works s') : Decides s' id C := by
  constructor
  · intro h
    refine ⟨?_, hcreating, fun c hc _ => hunshown c hc⟩
    rw [hshown]
    exact due_eq_none_iff.2 (hC.1 h)
  · intro h
    rw [hshown] at h
    exact hC.2 (due_eq_none_iff.1 h)

/-- the deletion of a row fails -/
theorem decides_undeleted (hs : InOrderAt s id) (hshown : shown s id = none)
    (hcontainers : s'.containers id = s.containers id) (hcreating : s'.creating id = s.creating id)
    (hprocesses : s'.processes id = s.processes id) :
    Decides s' id (base s id = none ∨ s'.deleting id ≠ 0 ∨ Work.delete id ∈ works s') := by
  have hbase : base s' id = base s id := by rw [base, base, hcreating, hcontainers, hprocesses]
  have hshown' : shown s' id = none := by
    rw [shown, hcontainers]
    exact hshown
  refine decides_unshown hshown' ?_ ?_ ?_
  · rw [hcreating, hprocesses]
    exact hs.creating
  · rw [hcontainers, hbase]
    exact hs.base_unshown hshown
  · rw [hbase]
    exact or_left_comm

/-- a row is deleted; it may still be inserted -/
theorem decides_deleted (hs : InOrderAt s id) (hshown : shown s id = none)
    (hcontainers : s'.containers id = s.containers id) (hcreating : s'.creating id = s.creating id)
    (hprocesses : s'.processes id = none) :
    Decides s' id (Inserting s id → s'.deleting id ≠ 0 ∨ Work.delete id ∈ works s') := by
  have hshown' : shown s' id = none := by
    rw [shown, hcontainers]
    exact hshown
  have hunshown := hs.base_unshown hshown
  have hbase : base s' id ≠ none ↔ Inserting s id := by
    unfold base Inserting
    rw [hcreating, hcontainers]
    cases hcreates : s.creating id with
    | none => simp [hprocesses]
    | some creation =>
      cases creation with
      | inspect name =>
        cases hc : s.containers id with
        | none => simp
        | some c =>
          have := hunshown c hc
          rw [base, hcreates, hc] at this
          cases this
      | insert row => simp
  refine decides_unshown hshown' (fun _ => hprocesses) ?_ ?_
  · intro c hc
    rw [hcontainers] at hc
    by_contra hne
    obtain ⟨row, hrow⟩ := hbase.1 hne
    have := hunshown c hc
    rw [base, hrow] at this
    cases this
  · rw [← hbase]
    by_cases hnone : base s' id = none
    · exact iff_of_true (fun h => absurd hnone h) (.inr (.inl hnone))
    · simp [hnone]

theorem deleteNext_decides (hs : InOrderAt s id) (ok : Bool) :
    Decides (step s (.deleteNext id ok)) id (Harmless s (.deleteNext id ok)) := by
  by_cases hdeleting : s.deleting id = 0
  · have hstep : step s (.deleteNext id ok) = s := by rw [step, if_pos hdeleting]
    rw [hstep]
    refine .of_same (.refl s id) hs ?_
    cases ok <;> exact fun h => absurd (hdeleting.symm.trans h) Nat.zero_ne_one
  · have hshown := hs.shown_deleted (.inl hdeleting)
    have hleft : Function.update s.deleting id (s.deleting id - 1) id ≠ 0 ↔ s.deleting id ≠ 1 := by
      rw [Function.update_self]
      omega
    rw [step, if_neg hdeleting]
    cases ok with
    | false =>
      refine Decides.congr (decides_undeleted hs hshown ?_ ?_ ?_) ?_
      · rfl
      · rfl
      · rfl
      · rw [hleft]
        change (base s id = none ∨ s.deleting id ≠ 1 ∨ Work.delete id ∈ works s) ↔
          (s.deleting id = 1 → base s id = none ∨ Work.delete id ∈ works s)
        by_cases hone : s.deleting id = 1 <;> simp [hone]
    | true =>
      refine Decides.congr (decides_deleted hs hshown ?_ ?_ ?_) ?_
      · rfl
      · rfl
      · exact Function.update_self ..
      · rw [hleft]
        change (Inserting s id → s.deleting id ≠ 1 ∨ Work.delete id ∈ works s) ↔
          (s.deleting id = 1 → Inserting s id → Work.delete id ∈ works s)
        by_cases hone : s.deleting id = 1 <;> simp [hone]

/-! #### Events -/

/-- what the handler is at comes first -/
theorem worksOn_handler {w : Work σ} (h : s.handler = some w) :
    worksOn s w.id = w :: (queued s).filter (·.id = w.id) := by
  simp [worksOn, works, h]

theorem worksOn_handler_of_ne {w : Work σ} {j : String} (h : s.handler = some w) (hj : j ≠ w.id) :
    worksOn s j = (queued s).filter (·.id = j) := by
  simp [worksOn, works, h, hj.symm]

theorem worksOn_idle (h : s.handler = none) : worksOn s id = (queued s).filter (·.id = id) := by
  simp [worksOn, works, h]

theorem delete_mem_handler {w : Work σ} (h : s.handler = some w) (hw : ∀ j, w ≠ .delete j) :
    Work.delete id ∈ works s ↔ Work.delete id ∈ queued s := by
  simp [works, h, (hw id).symm]

theorem workStep_gone {name : String} (hc : s.containers id = none) :
    workStep s true (.inspect id name) = { s with handler := none } := by
  simp [workStep, hc]

theorem workStep_found {name : String} (hc : s.containers id = some c) :
    workStep s true (.inspect id name) = { s with handler := some (.update id name c) } := by
  simp [workStep, hc]

/-- the handler goes on with the same event -/
theorem workStep_onward {w w' : Work σ} (hs : InOrderAt s w.id) (h : s.handler = some w) (hid : w'.id = w.id)
    (happly : ∀ row, w'.apply (s.containers w.id) row = w.apply (s.containers w.id) row) :
    InOrderAt { s with handler := some w' } w.id := by
  have hworks : worksOn { s with handler := some w' } w.id = w' :: (queued s).filter (·.id = w.id) :=
    hid ▸ worksOn_handler rfl
  have hdue : due { s with handler := some w' } w.id = due s w.id := by
    change (if s.deleting w.id = 0 then settle (s.containers w.id) (base s w.id) (worksOn _ w.id) else none) = _
    rw [due, hworks, worksOn_handler h, settle_cons, settle_cons, happly]
  exact ⟨hdue.trans hs.on_track, hs.creating, hs.unknown⟩

/-- the handler gives up an event that asked for the container to be looked at -/
theorem workStep_dropped {w : Work σ} (hs : InOrderAt s w.id) (h : s.handler = some w) (hw : ∀ j, w ≠ .delete j) :
    Decides { s with handler := none } w.id (RightAnyway s w.id) := by
  have hbase : base { s with handler := none } w.id = base s w.id := rfl
  have hshown : shown { s with handler := none } w.id = shown s w.id := rfl
  have hwork : Work.delete w.id ∈ works { s with handler := none } ↔ Work.delete w.id ∈ works s :=
    (delete_mem_handler h hw).symm
  by_cases hnone : shown s w.id = none
  · have hdue : due { s with handler := none } w.id = none := by
      have := due_eq_none_iff.1 (hs.on_track.trans hnone)
      rw [due_eq_none_iff, hwork]
      exact this
    refine ⟨fun _ => ⟨?_, hs.creating, hs.unknown⟩, fun _ => ?_⟩
    · rw [hdue, hshown, hnone]
    · cases hc : s.containers w.id with
      | none => exact .inl hc
      | some c => exact .inr (.inr ((hs.base_unshown hnone c hc).trans hnone.symm))
  · cases hc : s.containers w.id with
    | none => exact absurd (shown_none hc) hnone
    | some c =>
      have hk : c.Known := by
        by_contra hk
        exact hnone (shown_unknown hc hk)
      obtain ⟨hdeleting, hrow, -, hsettle⟩ := hs.known hc hk
      have hdue : due { s with handler := none } w.id =
          settle (some c) (base s w.id) ((queued s).filter (·.id = w.id)) := by
        change (if s.deleting w.id = 0 then settle (s.containers w.id) (base s w.id) (worksOn _ w.id) else none) = _
        rw [if_pos hdeleting, hc, worksOn_idle rfl]
        rfl
      have hexact : due { s with handler := none } w.id = shown s w.id ↔ RightAnyway s w.id := by
        rw [hdue, RightAnyway, hc]
        by_cases hqueued : (queued s).filter (·.id = w.id) = []
        · have hno : ¬ ∃ w' ∈ queued s, w'.id = w.id := by
            rintro ⟨w', hmem, hid⟩
            have := List.filter_eq_nil_iff.1 hqueued w' hmem
            exact this (decide_eq_true hid)
          rw [hqueued]
          simp [hno, settle]
        · obtain ⟨w', hmem⟩ := List.exists_mem_of_ne_nil _ hqueued
          obtain ⟨hmem, hid⟩ := List.mem_filter.1 hmem
          refine iff_of_true ?_ (.inr (.inl ⟨w', hmem, of_decide_eq_true hid⟩))
          rw [worksOn_handler h, settle_cons] at hsettle
          rw [shown_known hc hk, ← hsettle]
          refine settle_congr ?_ hqueued
          rw [Work.apply_eq_none_iff]
          simp [hw]
      refine ⟨fun hC => ⟨(hexact.2 hC).trans hshown.symm, hs.creating, hs.unknown⟩, fun h' => hexact.1 (h'.trans hshown)⟩

/-- the handler updates the row -/
theorem workStep_updated {name : String} {data : Container σ} {row : ProcessDb σ} (hs : InOrderAt s id)
    (h : s.handler = some (.update id name data)) (hrow : s.processes id = some row) :
    InOrderAt { s with handler := none, processes := Function.update s.processes id (some ⟨name, data⟩) } id := by
  have hcreating : s.creating id = none := by
    by_contra hne
    rw [hs.creating hne] at hrow
    cases hrow
  have hbase : base s id = some row := by rw [base, hcreating, hrow]
  refine ⟨?_, fun hne => absurd hcreating hne, fun c hc hk => ?_⟩
  · have hbase' : base { s with
        handler := none
        processes := Function.update s.processes id (some ⟨name, data⟩) } id = some ⟨name, data⟩ := by
      simp [base, hcreating]
    refine Eq.trans ?_ hs.on_track
    rw [due, due, hbase', hbase, worksOn_idle rfl, show worksOn s id = _ from worksOn_handler h, settle_cons]
    rfl
  · rw [hs.unknown c hc hk] at hbase
    cases hbase

theorem workStep_same {w : Work σ} (h : s.handler = some w) (ok : Bool) (hid : id ≠ w.id) :
    SameAt s (workStep s ok w) id := by
  have hworks : worksOn s id = (queued s).filter (·.id = id) := worksOn_handler_of_ne h hid
  have hidle : worksOn { s with handler := none } id = worksOn s id := (worksOn_idle rfl).trans hworks.symm
  have hnext : ∀ w' : Work σ, w'.id = w.id → worksOn { s with handler := some w' } id = worksOn s id := by
    intro w' hw'
    rw [hworks]
    exact worksOn_handler_of_ne rfl (hw' ▸ hid)
  cases w with
  | status j name =>
    refine ⟨rfl, rfl, rfl, rfl, ?_⟩
    cases ok with
    | false => exact hidle
    | true => exact hnext (.inspect j name) rfl
  | inspect j name =>
    refine ⟨rfl, rfl, rfl, rfl, ?_⟩
    cases ok with
    | false => exact hidle
    | true =>
      cases hc : s.containers j with
      | none =>
        rw [workStep_gone hc]
        exact hidle
      | some c =>
        rw [workStep_found hc]
        exact hnext (.update j name c) rfl
  | update j name data =>
    refine ⟨rfl, ?_, rfl, rfl, hidle⟩
    cases ok with
    | false => rfl
    | true => exact Function.update_of_ne hid ..
  | delete j =>
    refine ⟨rfl, ?_, rfl, rfl, hidle⟩
    cases ok with
    | false => rfl
    | true => exact Function.update_of_ne hid ..

theorem workStep_decides {w : Work σ} (hs : InOrderAt s w.id) (h : s.handler = some w) (ok : Bool) :
    Decides (workStep s ok w) w.id (Harmless s (.handle ok)) := by
  cases w with
  | status id name =>
    cases ok with
    | false =>
      refine Decides.congr (workStep_dropped hs h (by simp)) ?_
      simp [Harmless, h]
    | true =>
      refine ⟨fun _ => workStep_onward hs h rfl fun _ => rfl, fun _ => ?_⟩
      simp [Harmless, h]
  | inspect id name =>
    cases ok with
    | false =>
      refine Decides.congr (workStep_dropped hs h (by simp)) ?_
      simp [Harmless, h]
    | true =>
      have hharmless : Harmless s (.handle true) := by simp [Harmless, h]
      cases hc : s.containers id with
      | none =>
        rw [workStep_gone hc]
        exact (workStep_dropped hs h (by simp)).congr (iff_of_true (.inl hc) hharmless)
      | some c =>
        rw [workStep_found hc]
        refine ⟨fun _ => workStep_onward hs h rfl fun row => ?_, fun _ => hharmless⟩
        change Work.apply (s.containers id) row (.update id name c) = Work.apply (s.containers id) row (.inspect id name)
        rw [hc]
        rfl
  | update id name data =>
    cases ok with
    | false =>
      refine Decides.congr (workStep_dropped hs h (by simp)) ?_
      simp [Harmless, h]
    | true =>
      cases hrow : s.processes id with
      | none =>
        have hstep : workStep s true (.update id name data) = { s with handler := none } := by
          have hsame : Function.update s.processes id none = s.processes := by
            rw [← hrow]
            exact Function.update_eq_self ..
          simp [workStep, hrow, hsame]
        rw [hstep]
        refine Decides.congr (workStep_dropped hs h (by simp)) ?_
        simp only [Harmless, h, hrow, forall_const]
        exact Iff.rfl
      | some row =>
        have hstep : workStep s true (.update id name data) =
            { s with handler := none, processes := Function.update s.processes id (some ⟨name, data⟩) } := by
          simp [workStep, hrow]
        rw [hstep]
        refine ⟨fun _ => workStep_updated hs h hrow, fun _ => ?_⟩
        simp [Harmless, h, hrow]
  | delete id =>
    have hmem : Work.delete id ∈ works s := by simp [works, h]
    have hshown : shown s id = none := hs.shown_deleted (.inr hmem)
    cases ok with
    | false =>
      refine Decides.congr (decides_undeleted hs hshown ?_ ?_ ?_) ?_
      · rfl
      · rfl
      · rfl
      · simp [Harmless, h]
        rfl
    | true =>
      refine Decides.congr (decides_deleted hs hshown ?_ ?_ ?_) ?_
      · rfl
      · rfl
      · exact Function.update_self ..
      · simp [Harmless, h]
        rfl

theorem handle_decides (hs : InOrder s) (ok : Bool) :
    (Harmless s (.handle ok) → InOrder (handleStep s ok)) ∧ (OnTrack (handleStep s ok) → Harmless s (.handle ok)) := by
  cases h : s.handler with
  | some w =>
    have hstep : handleStep s ok = workStep s ok w := by
      unfold handleStep
      rw [h]
    rw [hstep]
    exact (workStep_decides (hs w.id) h ok).all hs fun j hj => workStep_same h ok hj
  | none =>
    have hharmless : Harmless s (.handle ok) := by
      unfold Harmless
      cases ok <;> rw [h] <;> trivial
    have hsame : ∀ j, SameAt s (handleStep s ok) j := by
      intro j
      unfold handleStep
      rw [h]
      cases hm : s.messages with
      | nil => exact .refl s j
      | cons m messages =>
        refine ⟨rfl, rfl, rfl, rfl, ?_⟩
        cases he : (execDocker m : Option (Work σ)) <;> simp [worksOn, works, queued, h, hm, he]
    exact ⟨fun _ j => (hsame j).inOrderAt (hs j), fun _ => hharmless⟩

/-! #### Docker -/

/-- what happens to a container and is reported concerns no other -/
theorem container_same {c' : Option (Container σ)} {action : String} {j : String} (hj : j ≠ id) :
    SameAt s (report (setContainer s id c') (c.event id action)) j := by
  refine ⟨?_, ?_, ?_, ?_, ?_⟩
  · rw [report_containers]
    exact Function.update_of_ne hj ..
  · rw [report_processes]
    rfl
  · rw [report_creating]
    rfl
  · rw [report_deleting]
    rfl
  · exact worksOn_report_of_ne hj

/-- a container is created under a fresh id -/
theorem Fresh.worksOn (h : Fresh s id) : worksOn s id = [] := by
  obtain ⟨-, -, -, -, hworks⟩ := h
  exact List.filter_eq_nil_iff.2 fun w hw => by simpa using hworks w hw

theorem create_decides {kind name : String} {labels : Labels} {state : σ} (hs : InOrderAt s id) :
    Decides (step s (.create id kind name labels state)) id (Harmless s (.create id kind name labels state)) := by
  by_cases hfresh : Fresh s id
  · let c : Container σ := ⟨name, processLabels kind labels, state⟩
    let s₁ := report (setContainer s id (some c)) (c.event id "create")
    let s₂ : St σ := { s₁ with creating := Function.update s₁.creating id (some (.inspect name)) }
    have hstep : step s (.create id kind name labels state) = s₂ := by rw [step, if_pos hfresh]
    have hworks : worksOn s₂ id = [] := worksOn_report_create.trans hfresh.worksOn
    have hprocesses : s.processes id = none := hfresh.2.1
    have hdeleting : s.deleting id = 0 := hfresh.2.2.2.1
    have hc : s₂.containers id = some c := by simp [s₂, s₁, setContainer]
    have hprocesses₂ : s₂.processes id = none := by simp [s₂, s₁, setContainer, hprocesses]
    have hdeleting₂ : s₂.deleting id = 0 := by simp [s₂, s₁, setContainer, hdeleting]
    have hbase : base s₂ id = some ⟨name, c⟩ := by
      rw [base_of_inspect (Function.update_self ..), hc]
      rfl
    have hdue : due s₂ id = some ⟨name, c⟩ := due_eq hdeleting₂ hc hbase hworks
    rw [hstep]
    constructor
    · intro h
      have hk : c.Known := h hfresh
      refine ⟨hdue.trans (shown_known hc hk).symm, fun _ => hprocesses₂, fun c' hc' hk' => ?_⟩
      rw [hc] at hc'
      cases hc'
      exact absurd hk hk'
    · intro h _
      by_contra hk
      rw [hdue, shown_unknown hc hk] at h
      cases h
  · rw [step, if_neg hfresh]
    exact .of_same (.refl s id) hs fun h => absurd h hfresh

theorem createElsewhere_decides (hs : InOrderAt s id) :
    Decides (step s (.createElsewhere id c)) id (Harmless s (.createElsewhere id c)) := by
  by_cases hfresh : Fresh s id
  · let s₁ := report (setContainer s id (some c)) (c.event id "create")
    have hstep : step s (.createElsewhere id c) = s₁ := by rw [step, if_pos hfresh]
    have hprocesses : s.processes id = none := hfresh.2.1
    have hcreating : s.creating id = none := hfresh.2.2.1
    have hc : s₁.containers id = some c := by simp [s₁, setContainer]
    have hcreating₁ : s₁.creating id = none := by simp [s₁, setContainer, hcreating]
    have hbase : base s₁ id = none := by
      rw [base_of_none hcreating₁]
      simp [s₁, setContainer, hprocesses]
    have hdue : due s₁ id = none := due_eq_none_iff.2 (.inr (.inl hbase))
    rw [hstep]
    constructor
    · intro h
      have hk : ¬ c.Known := h hfresh
      exact ⟨hdue.trans (shown_unknown hc hk).symm, fun h => absurd hcreating₁ h, fun _ _ _ => hbase⟩
    · intro h _ hk
      rw [hdue, shown_known hc hk] at h
      cases h
  · rw [step, if_neg hfresh]
    exact .of_same (.refl s id) hs fun h => absurd h hfresh

theorem remove_decides (hs : InOrderAt s id) : Decides (remove s id) id (s.connected = true ∨ Removable s id) := by
  cases hc : s.containers id with
  | none =>
    have hstep : remove s id = s := by
      unfold remove
      rw [hc]
    rw [hstep]
    refine .of_same (.refl s id) hs (.inr fun c hc' => ?_)
    rw [hc] at hc'
    cases hc'
  | some c =>
    let s₁ := report (setContainer s id none) (c.event id "destroy")
    have hstep : remove s id = s₁ := by
      unfold remove
      rw [hc]
    have hc₁ : s₁.containers id = none := by simp [s₁, setContainer]
    have hcreating : s₁.creating id = s.creating id := by simp [s₁, setContainer]
    have hprocesses : s₁.processes id = s.processes id := by simp [s₁, setContainer]
    have hdeleting : s₁.deleting id = s.deleting id := by simp [s₁, setContainer]
    rw [hstep]
    refine decides_unshown (shown_none hc₁) ?_ ?_ ?_
    · rw [hcreating, hprocesses]
      exact hs.creating
    · intro c' hc'
      rw [hc₁] at hc'
      cases hc'
    · -- a row remains due unless the removal overtook the inspection of the created container
      have hbase : base s₁ id = none ↔ base s id = none ∨ ∃ name, s.creating id = some (.inspect name) := by
        cases hcreates : s.creating id with
        | none => rw [base_of_none (hcreating.trans hcreates), base_of_none hcreates, hprocesses]; simp
        | some creation =>
          cases creation with
          | inspect name => rw [base_of_inspect (hcreating.trans hcreates), hc₁]; simp
          | insert row => rw [base_of_insert (hcreating.trans hcreates), base_of_insert hcreates]; simp
      by_cases hk : c.Known
      · obtain ⟨hzero, hrow, hwork, -⟩ := hs.known hc hk
        have hdelete : Work.delete id ∈ works s₁ ↔ s.connected = true := by
          rw [works_report, execDocker_event_destroy hk]
          change Work.delete id ∈ works s ++ (if s.connected then _ else []) ↔ _
          rw [List.mem_append]
          by_cases hconnected : s.connected = true <;> simp [hconnected, hwork]
        rw [hdeleting, hbase, hdelete]
        simp only [hzero, ne_eq, not_true_eq_false, false_or, hrow]
        rw [or_comm]
        refine or_congr_left ?_
        constructor
        · intro h
          exact h c hc hk
        · intro h c' hc' _
          exact h
      · refine iff_of_true (.inr fun c' hc' hk' => ?_) (.inr (.inl (hbase.2 (.inl (hs.unknown c hc hk)))))
        rw [hc] at hc'
        cases hc'
        exact absurd hk' hk

/-- the container is another one now, and the daemon may have been told -/
structure Changed (s s' : St σ) (id : String) (c : Container σ) (ws : List (Work σ)) : Prop where
  containers : s'.containers id = some c
  processes : s'.processes id = s.processes id
  creating : s'.creating id = s.creating id
  deleting : s'.deleting id = s.deleting id
  works : worksOn s' id = worksOn s id ++ ws

theorem changed_set {c' : Container σ} : Changed s (setContainer s id (some c')) id c' [] :=
  ⟨Function.update_self .., rfl, rfl, rfl, (List.append_nil _).symm⟩

theorem changed_report {c' : Container σ} (d : Container σ) (action : String) (hconnected : s.connected = true) :
    Changed s (report (setContainer s id (some c')) (d.event id action)) id c'
      (execDocker (d.event id action)).toList := by
  refine ⟨?_, ?_, ?_, ?_, ?_⟩
  · simp [setContainer]
  · simp [setContainer]
  · simp [setContainer]
  · simp [setContainer]
  · rw [worksOn_report_self, if_pos (show (setContainer s id (some c')).connected = true from hconnected)]
    rfl

theorem report_disconnected {m : EventMessage} (h : s.connected = false) : report s m = s := by
  rw [report, h]
  rfl

section Changed

variable {c' : Container σ} {ws : List (Work σ)}

theorem Changed.base_ne_none (h : Changed s s' id c' ws) (hbase : base s id ≠ none) : base s' id ≠ none := by
  cases hcreating : s.creating id with
  | none =>
    rw [base_of_none (h.creating.trans hcreating), h.processes, ← base_of_none hcreating]
    exact hbase
  | some creation =>
    cases creation with
    | inspect name =>
      rw [base_of_inspect (h.creating.trans hcreating), h.containers]
      exact Option.some_ne_none _
    | insert row =>
      rw [base_of_insert (h.creating.trans hcreating)]
      exact Option.some_ne_none _

theorem Changed.base_eq_none (h : Changed s s' id c' ws) (hc : s.containers id = some c) (hbase : base s id = none) :
    base s' id = none := by
  cases hcreating : s.creating id with
  | none =>
    rw [base_of_none (h.creating.trans hcreating), h.processes, ← base_of_none hcreating]
    exact hbase
  | some creation =>
    cases creation with
    | inspect name =>
      rw [base_of_inspect hcreating, hc] at hbase
      cases hbase
    | insert row =>
      rw [base_of_insert hcreating] at hbase
      cases hbase

/-- a container of no object may change in any way -/
theorem Changed.unknown (h : Changed s s' id c' ws) (hs : InOrderAt s id) (hc : s.containers id = some c)
    (hk : ¬ c.Known) (hk' : ¬ c'.Known) : InOrderAt s' id := by
  have hbase := h.base_eq_none hc (hs.unknown c hc hk)
  refine ⟨?_, ?_, fun _ _ _ => hbase⟩
  · rw [shown_unknown h.containers hk']
    exact due_eq_none_iff.2 (.inr (.inl hbase))
  · rw [h.creating, h.processes]
    exact hs.creating

/-- the daemon will look at the container under its name -/
theorem Changed.seen {w : Work σ} (h : Changed s s' id c' [w]) (hs : InOrderAt s id) (hc : s.containers id = some c)
    (hk : c.Known) (hk' : c'.Known) (hw : w = .status id c'.name ∨ w = .inspect id c'.name) : InOrderAt s' id := by
  obtain ⟨hdeleting, hrow, hwork, -⟩ := hs.known hc hk
  have hsettle : settle (some c') (base s' id) (worksOn s id) ≠ none := by
    rw [Ne, settle_eq_none_iff, delete_mem_worksOn]
    exact not_or.2 ⟨h.base_ne_none hrow, hwork⟩
  obtain ⟨row, hrow'⟩ := Option.ne_none_iff_exists'.1 hsettle
  refine ⟨?_, ?_, ?_⟩
  · rw [due_eq (h.deleting.trans hdeleting) h.containers rfl h.works, settle_append, hrow', shown_known h.containers hk']
    rcases hw with rfl | rfl <;> rfl
  · rw [h.creating, h.processes]
    exact hs.creating
  · intro d hd hd'
    rw [h.containers] at hd
    cases hd
    exact absurd hk' hd'

/-- of a container that the daemon is not told about, it sees a new state exactly if it still has to inspect it -/
theorem Changed.unseen_state {state : σ} (h : Changed s s' id { c with state := state } []) (hs : InOrderAt s id)
    (hc : s.containers id = some c) (hk : c.Known) (hstate : c.state ≠ state) :
    due s' id = shown s' id ↔ Unread s id := by
  obtain ⟨hdeleting, hrow, hwork, hsettle⟩ := hs.known hc hk
  have hk' : Container.Known { c with state := state } := hk
  have hne : ∀ name, some (ProcessDb.mk name c) ≠ some ⟨name, { c with state := state }⟩ := by
    intro name heq
    exact hstate (congrArg (·.data.state) (Option.some.inj heq))
  rw [due_eq (h.deleting.trans hdeleting) h.containers rfl (h.works.trans (List.append_nil _)),
    shown_known h.containers hk', Unread]
  rcases List.eq_nil_or_concat (worksOn s id) with hws | ⟨ws, w, hws⟩
  · -- nothing is under way but its creation
    rw [hws] at hsettle ⊢
    change base s id = _ at hsettle
    change base s' id = some ⟨c.name, { c with state := state }⟩ ↔ ∃ name, s.creating id = some (.inspect name)
    cases hcreating : s.creating id with
    | none =>
      rw [base_of_none (h.creating.trans hcreating), h.processes, ← base_of_none hcreating, hsettle]
      refine iff_of_false (hne _) ?_
      rintro ⟨name, hname⟩
      cases hname
    | some creation =>
      cases creation with
      | inspect name =>
        rw [base_of_inspect hcreating, hc] at hsettle
        obtain rfl : name = c.name := congrArg ProcessDb.name (Option.some.inj hsettle)
        rw [base_of_inspect (h.creating.trans hcreating), h.containers]
        exact iff_of_true rfl ⟨_, rfl⟩
      | insert row =>
        rw [base_of_insert (h.creating.trans hcreating), ← base_of_insert hcreating, hsettle]
        refine iff_of_false (hne _) ?_
        rintro ⟨name, hname⟩
        cases hname
  · -- the last piece of work decides
    have hbefore : settle (some { c with state := state }) (base s' id) ws ≠ none := by
      rw [Ne, settle_eq_none_iff]
      refine not_or.2 ⟨h.base_ne_none hrow, ?_⟩
      rintro ⟨j, hj⟩
      exact hwork (delete_mem_worksOn.1 ⟨j, by simp [hws, hj]⟩)
    obtain ⟨row, hrow'⟩ := Option.ne_none_iff_exists'.1 hbefore
    rw [hws, List.concat_eq_append] at hsettle ⊢
    rw [settle_append] at hsettle
    rw [settle_append, hrow', List.getLast?_concat]
    cases hold : settle (some c) (base s id) ws with
    | none =>
      rw [hold] at hsettle
      cases w <;> cases hsettle
    | some old =>
      rw [hold] at hsettle
      cases w with
      | status j name =>
        obtain rfl : name = c.name := congrArg ProcessDb.name (Option.some.inj hsettle)
        exact iff_of_true rfl rfl
      | inspect j name =>
        obtain rfl : name = c.name := congrArg ProcessDb.name (Option.some.inj hsettle)
        exact iff_of_true rfl rfl
      | update j name data =>
        refine iff_of_false (fun heq => ?_) (by simp [Work.reads])
        exact hne _ (hsettle.symm.trans heq)
      | delete j => cases hsettle

/-- a new name that the daemon is not told is not seen -/
theorem Changed.unseen_name {name : String} (h : Changed s s' id { c with name := name } []) (hs : InOrderAt s id)
    (hc : s.containers id = some c) (hk : c.Known) (hname : c.name ≠ name) : due s' id ≠ shown s' id := by
  obtain ⟨hdeleting, -, -, hsettle⟩ := hs.known hc hk
  have hk' : Container.Known { c with name := name } := hk
  have hbase : (base s' id).map ProcessDb.name = (base s id).map ProcessDb.name := by
    cases hcreating : s.creating id with
    | none => rw [base_of_none (h.creating.trans hcreating), base_of_none hcreating, h.processes]
    | some creation =>
      cases creation with
      | inspect n =>
        rw [base_of_inspect (h.creating.trans hcreating), base_of_inspect hcreating, h.containers, hc]
        rfl
      | insert row => rw [base_of_insert (h.creating.trans hcreating), base_of_insert hcreating]
  rw [due_eq (h.deleting.trans hdeleting) h.containers rfl (h.works.trans (List.append_nil _)),
    shown_known h.containers hk']
  intro heq
  have hnames := settle_name c { c with name := name } (worksOn s id) hbase.symm
  rw [hsettle, heq] at hnames
  exact hname (Option.some.inj hnames)

end Changed

theorem setContainer_same {j : String} {c' : Option (Container σ)} (hj : j ≠ id) : SameAt s (setContainer s id c') j :=
  ⟨Function.update_of_ne hj .., rfl, rfl, rfl, rfl⟩

theorem setContainer_self (hc : s.containers id = some c) : setContainer s id (some c) = s := by
  rw [setContainer, ← hc, Function.update_eq_self]

/-- a change that docker does not report -/
theorem unreported_decides {state : σ} (hs : InOrderAt s id) (hc : s.containers id = some c) :
    Decides (setContainer s id (some { c with state := state })) id (c.Known → c.state ≠ state → Unread s id) := by
  have h : Changed s (setContainer s id (some { c with state := state })) id { c with state := state } [] := changed_set
  by_cases hk : c.Known
  · by_cases hstate : c.state = state
    · subst hstate
      rw [setContainer_self hc]
      exact .of_same (.refl s id) hs fun _ hne => absurd rfl hne
    · have hexact := h.unseen_state hs hc hk hstate
      refine ⟨fun hC => ⟨hexact.2 (hC hk hstate), hs.creating, fun c' hc' hk' => ?_⟩, fun hdue _ _ => hexact.1 hdue⟩
      rw [h.containers] at hc'
      cases hc'
      exact absurd hk hk'
  · exact ⟨fun _ => h.unknown hs hc hk hk, fun _ hk' => absurd hk' hk⟩

theorem change_decides {action : Option String} {state : σ} (hs : InOrderAt s id) :
    Decides (step s (.change id action state)) id (Harmless s (.change id action state)) := by
  cases hc : s.containers id with
  | none =>
    have hstep : step s (.change id action state) = s := by simp only [step, hc]
    rw [hstep]
    refine .of_same (.refl s id) hs fun c hc' => ?_
    rw [hc] at hc'
    cases hc'
  | some c =>
    have hharmless : Harmless s (.change id action state) ↔
        (c.Known → action ∉ [some "create", some "destroy"] → c.state ≠ state →
          (s.connected = true ∧ action ≠ none) ∨ Unread s id) := by
      simp [Harmless, hc]
    rw [hharmless]
    cases action with
    | none =>
      have hstep : step s (.change id none state) = setContainer s id (some { c with state := state }) := by
        simp only [step, hc]
      rw [hstep]
      refine (unreported_decides hs hc).congr ?_
      simp
    | some action =>
      by_cases haction : action = "create" ∨ action = "destroy"
      · have hstep : step s (.change id (some action) state) = s := by
          simp only [step, hc, if_pos haction]
        rw [hstep]
        refine .of_same (.refl s id) hs fun _ hnot => ?_
        simp only [List.mem_cons, Option.some.injEq, List.not_mem_nil, or_false] at hnot
        exact absurd haction hnot
      · have hstep : step s (.change id (some action) state) =
            report (setContainer s id (some { c with state := state })) (c.event id action) := by
          simp only [step, hc, if_neg haction]
        rw [hstep]
        obtain ⟨hcreate, hdestroy⟩ := not_or.1 haction
        cases hconnected : s.connected with
        | true =>
          refine ⟨fun _ => ?_, fun _ _ _ _ => .inl ⟨rfl, Option.some_ne_none _⟩⟩
          have h : Changed s _ id { c with state := state } _ := changed_report c action hconnected
          by_cases hk : c.Known
          · rcases execDocker_event_reads (σ := σ) id hk hcreate hdestroy with he | he
            · rw [he] at h
              exact h.seen hs hc hk hk (.inl rfl)
            · rw [he] at h
              exact h.seen hs hc hk hk (.inr rfl)
          · exact h.unknown hs hc hk hk
        | false =>
          rw [report_disconnected (show (setContainer s id _).connected = false from hconnected)]
          refine (unreported_decides hs hc).congr ?_
          simp [hcreate, hdestroy]

theorem rename_decides {name : String} (hs : InOrderAt s id) :
    Decides (step s (.rename id name)) id (Harmless s (.rename id name)) := by
  cases hc : s.containers id with
  | none =>
    have hstep : step s (.rename id name) = s := by simp only [step, hc]
    rw [hstep]
    refine .of_same (.refl s id) hs fun c hc' => ?_
    rw [hc] at hc'
    cases hc'
  | some c =>
    have hharmless : Harmless s (.rename id name) ↔ (c.Known → c.name ≠ name → s.connected = true) := by
      simp [Harmless, hc]
    have hstep : step s (.rename id name) = report (setContainer s id (some { c with name := name }))
        (Container.event { c with name := name } id "rename") := by simp only [step, hc]
    rw [hharmless, hstep]
    cases hconnected : s.connected with
    | true =>
      refine ⟨fun _ => ?_, fun _ _ _ => rfl⟩
      have h : Changed s _ id { c with name := name } _ :=
        changed_report { c with name := name } "rename" hconnected
      by_cases hk : c.Known
      · have hk' : Container.Known { c with name := name } := hk
        rcases execDocker_event_reads (σ := σ) id hk' (show "rename" ≠ "create" by decide)
            (show "rename" ≠ "destroy" by decide) with he | he
        · rw [he] at h
          exact h.seen hs hc hk hk (.inl rfl)
        · rw [he] at h
          exact h.seen hs hc hk hk (.inr rfl)
      · exact h.unknown hs hc hk hk
    | false =>
      rw [report_disconnected (show (setContainer s id _).connected = false from hconnected)]
      have h : Changed s (setContainer s id (some { c with name := name })) id { c with name := name } [] := changed_set
      by_cases hk : c.Known
      · by_cases hname : c.name = name
        · subst hname
          rw [setContainer_self hc]
          exact .of_same (.refl s id) hs fun _ hne => absurd rfl hne
        · refine ⟨fun hC => ?_, fun hdue => absurd hdue (h.unseen_name hs hc hk hname)⟩
          cases hC hk hname
      · exact ⟨fun _ => h.unknown hs hc hk hk, fun _ hk' => absurd hk' hk⟩

end Steps

/-! ## Main results -/

section Runs

variable {s : St σ}

theorem created_same {id j : String} {c : Container σ} (hj : j ≠ id) :
    SameAt s (report (setContainer s id (some c)) (c.event id "create")) j := container_same hj

theorem remove_same {id j : String} (hj : j ≠ id) : SameAt s (remove s id) j := by
  unfold remove
  cases s.containers id with
  | none => exact .refl s j
  | some c => exact container_same hj

theorem remove_containers_self (s : St σ) (id : String) : (remove s id).containers id = none := by
  unfold remove
  cases hc : s.containers id with
  | none => exact hc
  | some c => simp [setContainer]

theorem remove_creating (s : St σ) (id : String) : (remove s id).creating = s.creating := by
  unfold remove
  cases s.containers id with
  | none => rfl
  | some c => exact report_creating

theorem remove_processes (s : St σ) (id : String) : (remove s id).processes = s.processes := by
  unfold remove
  cases s.containers id with
  | none => rfl
  | some c => exact report_processes

theorem deleteInstance_harmless (hs : InOrder s) (pk id : String) :
    (Harmless s (.deleteInstance pk (some id)) → InOrder (step s (.deleteInstance pk (some id)))) ∧
      (OnTrack (step s (.deleteInstance pk (some id))) → Harmless s (.deleteInstance pk (some id))) := by
  by_cases hresolves : Resolves s pk id
  · have hstep : step s (.deleteInstance pk (some id)) =
        { remove s id with deleting := Function.update (remove s id).deleting pk ((remove s id).deleting pk + 1) } := by
      rw [step, if_pos hresolves]
    let s₁ : St σ :=
      { remove s id with deleting := Function.update (remove s id).deleting pk ((remove s id).deleting pk + 1) }
    have hpk : s₁.deleting pk ≠ 0 := by simp [s₁]
    have hothers : ∀ j, j ≠ pk → SameAt (remove s id) s₁ j := fun j hj =>
      ⟨rfl, rfl, rfl, Function.update_of_ne hj .., rfl⟩
    obtain ⟨c, hc, hfound⟩ := hresolves
    rw [hstep]
    change (_ → InOrder s₁) ∧ (OnTrack s₁ → _)
    -- no container is left under the key, and no row is due
    have hkey : InOrderAt s₁ pk := by
      have hgone : s₁.containers pk = none := by
        rcases hfound with rfl | ⟨hnone, -⟩
        · simp [s₁, remove_containers_self]
        · have hne : pk ≠ id := by
            rintro rfl
            rw [hc] at hnone
            cases hnone
          exact (remove_same hne).containers.trans hnone
      refine ⟨?_, ?_, ?_⟩
      · rw [shown_none hgone]
        exact due_eq_none_iff.2 (.inl hpk)
      · change (remove s id).creating pk ≠ none → (remove s id).processes pk = none
        rw [remove_creating, remove_processes]
        exact (hs pk).creating
      · intro d hd
        rw [hgone] at hd
        cases hd
    have hdecides := remove_decides (hs id)
    by_cases hpid : pk = id
    · refine ⟨fun _ j => ?_, fun _ _ => .inr (.inl hpid)⟩
      by_cases hj : j = pk
      · exact hj ▸ hkey
      · exact (hothers j hj).inOrderAt ((remove_same (hpid ▸ hj)).inOrderAt (hs j))
    · have hsame : SameAt (remove s id) s₁ id := hothers id (Ne.symm hpid)
      constructor
      · intro hharmless j
        by_cases hj : j = pk
        · exact hj ▸ hkey
        · refine (hothers j hj).inOrderAt ?_
          by_cases hjid : j = id
          · rw [hjid]
            refine hdecides.keeps ?_
            rcases hharmless ⟨c, hc, hfound⟩ with h | h | h
            · exact .inl h
            · exact absurd h hpid
            · exact .inr h
          · exact (remove_same hjid).inOrderAt (hs j)
      · intro htrack _
        have hdue : due (remove s id) id = shown (remove s id) id := by
          rw [← hsame.due, ← hsame.shown]
          exact htrack id
        exact (hdecides.needs hdue).imp_right .inr
  · have hstep : step s (.deleteInstance pk (some id)) = s := by rw [step, if_neg hresolves]
    rw [hstep]
    exact ⟨fun _ => hs, fun _ h => absurd h hresolves⟩

/-- there is no container to remove -/
theorem deleteInstance_none_inOrder (hs : InOrder s) (pk : String) : InOrder (step s (.deleteInstance pk none)) := by
  by_cases hc : s.containers pk = none
  · have hstep : step s (.deleteInstance pk none) =
        { s with deleting := Function.update s.deleting pk (s.deleting pk + 1) } := by rw [step, if_pos hc]
    rw [hstep]
    refine hs.of_at (fun j hj => ⟨rfl, rfl, rfl, Function.update_of_ne hj .., rfl⟩) ⟨?_, (hs pk).creating, ?_⟩
    · refine (due_eq_none_iff.2 (.inl ?_)).trans (shown_none hc).symm
      simp
    · intro c hc'
      rw [show s.containers pk = some c from hc'] at hc
      cases hc
  · have hstep : step s (.deleteInstance pk none) = s := by rw [step, if_neg hc]
    rw [hstep]
    exact hs

/-- the stream breaks; an id that no lost event is about is left as it is -/
theorem disconnect_harmless (hs : InOrder s) (arriving : ℕ) :
    (Harmless s (.disconnect arriving) → InOrder (step s (.disconnect arriving))) ∧
      (OnTrack (step s (.disconnect arriving)) → Harmless s (.disconnect arriving)) := by
  refine ⟨fun hharmless id => ?_, fun htrack m _ w _ => htrack w.id⟩
  by_cases hlost : ∃ m ∈ s.messages.drop arriving, ∃ w : Work σ, execDocker m = some w ∧ w.id = id
  · obtain ⟨m, hm, w, hw, rfl⟩ := hlost
    exact ⟨hharmless m hm w hw, (hs w.id).creating, (hs w.id).unknown⟩
  · have hnone : ((s.messages.drop arriving).filterMap execDocker).filter (fun w : Work σ => w.id = id) = [] := by
      refine List.filter_eq_nil_iff.2 fun w hw hid => hlost ?_
      obtain ⟨m, hm, he⟩ := List.mem_filterMap.1 hw
      exact ⟨m, hm, w, he, of_decide_eq_true hid⟩
    have hworks : worksOn (step s (.disconnect arriving)) id = worksOn s id := by
      change (s.handler.toList ++ (s.messages.take arriving).filterMap execDocker).filter _ =
        (s.handler.toList ++ s.messages.filterMap execDocker).filter _
      conv_rhs => rw [← List.take_append_drop arriving s.messages, List.filterMap_append]
      rw [List.filter_append, List.filter_append, List.filter_append, hnone, List.append_nil]
    have hsame : SameAt s (step s (.disconnect arriving)) id := ⟨rfl, rfl, rfl, rfl, hworks⟩
    exact hsame.inOrderAt (hs id)

/-- **One step**: in order before, the table is in order after it if it is harmless, and off track if it is not. -/
theorem step_harmless (hs : InOrder s) (o : Op σ) :
    (Harmless s o → InOrder (step s o)) ∧ (OnTrack (step s o) → Harmless s o) := by
  cases o with
  | create id kind name labels state =>
    refine (create_decides (hs id)).all hs fun j hj => ?_
    by_cases hfresh : Fresh s id
    · rw [step, if_pos hfresh]
      obtain ⟨hcontainers, hprocesses, hcreating, hdeleting, hworks⟩ :=
        created_same (c := ⟨name, processLabels kind labels, state⟩) hj
      exact ⟨hcontainers, hprocesses, (Function.update_of_ne hj ..).trans hcreating, hdeleting, hworks⟩
    · rw [step, if_neg hfresh]
      exact .refl s j
  | createNext id ok => exact (createStep_decides (hs id) ok).all hs fun j hj => createStep_same ok hj
  | deleteInstance pk found =>
    cases found with
    | none => exact ⟨fun _ => deleteInstance_none_inOrder hs pk, fun _ => trivial⟩
    | some id => exact deleteInstance_harmless hs pk id
  | deleteNext pk ok =>
    refine (deleteNext_decides (hs pk) ok).all hs fun j hj => ?_
    by_cases hdeleting : s.deleting pk = 0
    · rw [step, if_pos hdeleting]
      exact .refl s j
    · rw [step, if_neg hdeleting]
      refine ⟨rfl, ?_, rfl, Function.update_of_ne hj .., rfl⟩
      cases ok with
      | false => rfl
      | true => exact Function.update_of_ne hj ..
  | handle ok => exact handle_decides hs ok
  | createElsewhere id c =>
    refine (createElsewhere_decides (hs id)).all hs fun j hj => ?_
    by_cases hfresh : Fresh s id
    · rw [step, if_pos hfresh]
      exact container_same hj
    · rw [step, if_neg hfresh]
      exact .refl s j
  | change id action state =>
    refine (change_decides (hs id)).all hs fun j hj => ?_
    cases hc : s.containers id with
    | none =>
      have hstep : step s (.change id action state) = s := by simp only [step, hc]
      rw [hstep]
      exact .refl s j
    | some c =>
      cases action with
      | none =>
        have hstep : step s (.change id none state) = setContainer s id (some { c with state := state }) := by
          simp only [step, hc]
        rw [hstep]
        exact setContainer_same hj
      | some action =>
        simp only [step, hc]
        split_ifs
        · exact .refl s j
        · exact container_same hj
  | rename id name =>
    refine (rename_decides (hs id)).all hs fun j hj => ?_
    cases hc : s.containers id with
    | none =>
      have hstep : step s (.rename id name) = s := by simp only [step, hc]
      rw [hstep]
      exact .refl s j
    | some c =>
      simp only [step, hc]
      exact container_same hj
  | removeElsewhere id => exact (remove_decides (hs id)).all hs fun j hj => remove_same hj
  | disconnect arriving => exact disconnect_harmless hs arriving
  | connect =>
    have hsame : ∀ j, SameAt s (step s .connect) j := fun j => ⟨rfl, rfl, rfl, rfl, rfl⟩
    exact ⟨fun _ j => (hsame j).inOrderAt (hs j), fun _ => trivial⟩

/-- with nothing under way the row that is due is the row there is -/
theorem Quiet.due (h : Quiet s) (id : String) : due s id = s.processes id := by
  have hworks : worksOn s id = [] := by
    rw [worksOn_idle h.handler, queued, h.messages]
    rfl
  exact due_eq (h.deleting id) rfl (base_of_none (h.creating id)) hworks

/-- with nothing under way the table is on track exactly if it mirrors docker -/
theorem mirrors_iff (h : Quiet s) : Mirrors s ↔ OnTrack s := by
  refine forall_congr' fun id => ?_
  rw [h.due]

/-- a table that mirrors docker is in order -/
theorem Quiet.inOrder (h : Quiet s) (hm : Mirrors s) : InOrder s := by
  intro id
  refine ⟨(mirrors_iff h).1 hm id, fun hne => absurd (h.creating id) hne, fun c hc hk => ?_⟩
  rw [base_of_none (h.creating id), hm id, shown_unknown hc hk]

/-- **The process table mirrors docker.** From a state of rest in which it does, the table stays on track along a run
exactly if every step of the run is harmless; then it mirrors docker whenever nothing is under way. -/
theorem mirrors_docker_iff {s : St σ} (hquiet : Quiet s) (hmirrors : Mirrors s) (ops : List (Op σ)) :
    (Along step (fun s o => OnTrack (step s o)) s ops ↔ Along step Harmless s ops) ∧
      (Along step Harmless s ops → Quiet (run step s ops) → Mirrors (run step s ops)) := by
  have hs : InOrder s := hquiet.inOrder hmirrors
  constructor
  · exact along_inv_iff (J := InOrder) (fun _ h => h.on_track) (fun _ o h => (step_harmless h o).1)
      (fun _ o h => (step_harmless h o).2) hs ops
  · intro hharmless hend
    have hrun : InOrder (run step s ops) := inv_run (I := InOrder) (fun _ o h => (step_harmless h o).1) hs hharmless
    exact (mirrors_iff hend).2 hrun.on_track

/-- nothing has happened yet, and the daemon reads docker's events -/
def empty : St Bool := ⟨fun _ => none, fun _ => none, true, [], none, fun _ => none, fun _ => 0⟩

/-- a container of a cargo is created; it starts, and the stream breaks before the daemon has looked at the event -/
def lostStart : List (Op Bool) :=
  [.create "1" "cargo" "web.global.c" [("io.nanocl.c", "web.global")] false, .createNext "1" true, .createNext "1" true,
    .handle true, .change "1" (some "start") true, .disconnect 0, .connect]

theorem lostStart_quiet : Quiet (run step empty lostStart) := by
  refine ⟨by decide, by decide, fun id => ?_, fun id => rfl⟩
  by_cases hid : id = "1"
  · subst hid
    decide
  · change Function.update (_ : String → Option (Creation Bool)) "1" _ id = none
    rw [Function.update_of_ne hid]
    change Function.update (_ : String → Option (Creation Bool)) "1" _ id = none
    rw [Function.update_of_ne hid]
    change Function.update (_ : String → Option (Creation Bool)) "1" _ id = none
    rw [Function.update_of_ne hid]
    rfl

/-- a start that is not heard of: nothing is under way, the container runs, and its row says that it does not -/
theorem start_lost : ¬ Along step Harmless empty lostStart ∧
    ((run step empty lostStart).containers "1").map (·.state) = some true ∧
    ((run step empty lostStart).processes "1").map (·.data.state) = some false := by
  refine ⟨fun h => ?_, by decide, by decide⟩
  have hquiet : Quiet empty := ⟨rfl, rfl, fun _ => rfl, fun _ => rfl⟩
  have hmirrors : Mirrors empty := fun _ => rfl
  have hrow := (mirrors_docker_iff hquiet hmirrors lostStart).2 h lostStart_quiet "1"
  revert hrow
  decide

end Runs

end Nanocl.ProcessTable
