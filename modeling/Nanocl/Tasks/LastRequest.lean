/-
Concurrent requests on one cargo or VM: which of them has its task created last.

A request updates the status row as in `Status.History`. It then stores its event and sends it to the event loop of
`TaskManager`, in two more steps. Between any two steps of a request the others may take theirs, and so may the rest of
the daemon. The channel keeps the order in which the events were sent.

Results:
- `last_request_wins`: over every run in which no event that creates a task of the object is sent once the request that
  wrote the wanted status last has sent its own, and in which that request does not fail after its update (`InOrder`), the
  task of the object that was created last is that request's, as soon as nothing is under way.
- `out_of_order_loses`: the condition is exact. Once a step has not met it, the last task is that of another request,
  unless there is a further update.
- `serial_in_order`: it is met where every request sends its event before the next one updates the row.
- `last_request_loses`: a start and a stop whose events are sent in the other order than their updates.
-/
import Nanocl.Status.History
import Nanocl.Tasks.TaskOrder

namespace Nanocl.LastRequest

open Nanocl.Lib Nanocl.Status Nanocl.TaskManager

/-! ## Model -/

/-- a cargo or a VM -/
structure Object where
  kind : EventActorKind
  key : String
  isObject : kind = .cargo ∨ kind = .vm

def Object.taskKey (x : Object) : String := Nanocl.taskKey x.kind x.key

/-- the action of the event a request emits once it has updated the row -/
def eventAction : Writer → Option String
  | .emitStarting _ => some "starting"
  | .emitStopping => some "stopping"
  | .delObjByPk => some "destroying"
  | .putObjByPk => some "updating"
  | .updateActualStatus _ => none

/-- where a request stands after its update of the row -/
inductive Stage where
  /-- the row is not updated yet -/
  | before
  /-- about to store the event -/
  | written (action : String)
  /-- about to send the event -/
  | persisted (e : Event)
  | sent
  /-- the request returned an error, or its event could not be stored: there is no event -/
  | failed
deriving DecidableEq

/-- the request has updated the row, and it may still send its event -/
def Stage.pending : Stage → Bool
  | .written _ | .persisted _ => true
  | _ => false

structure St where
  status : History.St
  stage : ℕ → Stage
  /-- the requests that have written the wanted status, oldest first -/
  writers : List ℕ
  /-- the channel to the event loop; the event of a request has its index -/
  channel : List (Event × Option ℕ)
  /-- the events that the loop has received, oldest first -/
  received : List (Event × Option ℕ)
  manager : TaskManager.St

/-- the daemon has started, with the row it found -/
def init (row : Option ObjPsStatus) : St := ⟨⟨row, []⟩, fun _ => .before, [], [], [], TaskManager.init⟩

inductive Op where
  /-- an operation on the row begins or takes its next step -/
  | status (o : History.Op)
  /-- request i stores its event, with the attributes of the object -/
  | persist (i : ℕ) (attributes : List (String × String))
  | send (i : ℕ)
  /-- request i fails after its update -/
  | fail (i : ℕ)
  /-- another part of the daemon sends an event -/
  | emit (e : Event)
  /-- the event loop, once it is idle, receives the next event -/
  | recv
  | loop
  | fut (i : ℕ) (p : Poll)

/-- the request that updates the row with this operation, and the action of its event -/
def writes (s : History.St) : History.Op → Option (ℕ × String)
  | .step i =>
    match s.calls[i]?, s.row with
    | some (.write w _), some _ => (eventAction w).map fun action => (i, action)
    | _, _ => none
  | _ => none

def step (x : Object) (s : St) : Op → St
  | .status o =>
    match writes s.status o with
    | some (i, action) =>
      { s with
        status := History.step s.status o
        stage := Function.update s.stage i (.written action)
        writers := s.writers ++ [i] }
    | none => { s with status := History.step s.status o }
  | .persist i attributes =>
    match s.stage i with
    | .written action =>
      { s with stage := Function.update s.stage i (.persisted ⟨.normal, action, some ⟨some x.key, x.kind, attributes⟩⟩) }
    | _ => s
  | .send i =>
    match s.stage i with
    | .persisted e => { s with stage := Function.update s.stage i .sent, channel := s.channel ++ [(e, some i)] }
    | _ => s
  | .fail i => if (s.stage i).pending then { s with stage := Function.update s.stage i .failed } else s
  | .emit e => { s with channel := s.channel ++ [(e, none)] }
  | .recv =>
    match s.manager.loop, s.channel with
    | .idle, c :: rest =>
      { s with channel := rest, received := s.received ++ [c], manager := TaskManager.step s.manager (.recv c.1) }
    | _, _ => s
  | .loop => { s with manager := TaskManager.step s.manager .loop }
  | .fut i p => { s with manager := TaskManager.step s.manager (.fut i p) }

/-! ## Property and condition -/

/-- an event as `exec_event` takes it -/
def execOf (e : Event) : Option Exec :=
  match e.kind, e.actor with
  | .normal, some actor => some ⟨actor, .fromStr e.action⟩
  | _, _ => none

/-- the event creates a task of the object -/
def Object.creates (x : Object) (e : Event) : Bool := (execOf e).any fun y => y.key = x.taskKey ∧ y.isObjectTask

/-- whose events create the tasks of the object, in their order; none is not a request -/
def Object.owners (x : Object) (l : List (Event × Option ℕ)) : List (Option ℕ) :=
  (l.filter fun p => x.creates p.1).map Prod.snd

/-- the tasks of the object that have been created -/
def Object.futs (x : Object) (s : St) : List Fut := s.manager.futs.filter fun f => f.key = x.taskKey

/-- whom they were created for: the loop creates them in the order of their events -/
def Object.tasks (x : Object) (s : St) : List (Option ℕ) := (x.owners s.received).take (x.futs s).length

/-- nothing is under way: no request has still to send its event, and the loop is through with all of them -/
structure Settled (s : St) : Prop where
  requests : ∀ i ∈ s.writers, (s.stage i).pending = false
  channel : s.channel = []
  loop : s.manager.loop.pending = none

/-- the task created last is that of the request that wrote the wanted status last -/
def LastWins (x : Object) (s : St) : Prop :=
  Settled s → ∀ i, s.writers.getLast? = some i → (x.tasks s).getLast? = some (some i)

/-- the request that wrote the wanted status last has sent its event -/
def LastSent (s : St) : Prop := ∃ i ∈ s.writers.getLast?, s.stage i = .sent

instance (s : St) : Decidable (LastSent s) := inferInstanceAs (Decidable (∃ i ∈ s.writers.getLast?, s.stage i = .sent))

/-- no event of the object follows that of the last writer, which does not fail -/
def InOrder (x : Object) (s : St) : Op → Prop
  | .send i =>
    match s.stage i with
    | .persisted _ => ¬ LastSent s
    | _ => True
  | .emit e => x.creates e = true → ¬ LastSent s
  | .fail i => (s.stage i).pending = true → s.writers.getLast? ≠ some i
  | _ => True

instance (x : Object) (s : St) (o : Op) : Decidable (InOrder x s o) := by
  unfold InOrder
  split
  · split <;> infer_instance
  all_goals infer_instance

/-! ## Tasks and their events -/

variable {x : Object}

theorem Object.isObject_of_key {y : Exec} (h : y.key = x.taskKey) : y.isObject := by
  have hkind : y.actor.kind = x.kind := taskKey_kind h
  unfold Exec.isObject
  rw [hkind]
  exact x.isObject

theorem creates_of_action {w : Writer} {action : String} (h : eventAction w = some action)
    (attributes : List (String × String)) :
    x.creates ⟨.normal, action, some ⟨some x.key, x.kind, attributes⟩⟩ = true := by
  have hkey : ∀ a, (⟨⟨some x.key, x.kind, attributes⟩, a⟩ : Exec).key = x.taskKey := fun a => rfl
  obtain ⟨kind, key, hkind⟩ := x
  cases w with
  | updateActualStatus status => cases h
  | _ =>
    obtain rfl := Option.some.inj h
    rcases hkind with rfl | rfl <;> simp [Object.creates, execOf, hkey, Exec.isObjectTask, Exec.isObject] <;>
      exact Option.some_ne_none _

/-- of the events, the ones that create a task of the object -/
theorem execs_of_object (l : List (Event × Option ℕ)) :
    (((l.filterMap fun p => execOf p.1).filter fun y => y.isObjectTask).filter fun y => y.key = x.taskKey).map some =
      (l.filter fun p => x.creates p.1).map fun p => execOf p.1 := by
  induction l with
  | nil => rfl
  | cons p l ih =>
    rw [List.filter_filter] at ih ⊢
    cases he : execOf p.1 with
    | none =>
      have hno : x.creates p.1 = false := by simp [Object.creates, he]
      rw [List.filterMap_cons_none (f := fun p : Event × Option ℕ => execOf p.1) he]
      simp only [List.filter_cons, hno, Bool.false_eq_true, if_false, ih]
    | some y =>
      rw [List.filterMap_cons_some (f := fun p : Event × Option ℕ => execOf p.1) he]
      by_cases hy : y.key = x.taskKey ∧ y.isObjectTask
      · have hyes : x.creates p.1 = true := by simp [Object.creates, he, hy]
        simp only [List.filter_cons, hy, hyes, decide_true, Bool.and_self, if_true, List.map_cons, he, ih]
      · have hno : x.creates p.1 = false := by simpa [Object.creates, he] using hy
        have hdec : (decide (y.key = x.taskKey) && decide y.isObjectTask) = false := by simpa using hy
        simp only [List.filter_cons, hdec, hno, Bool.false_eq_true, if_false, ih]

/-- whose events the object has had, in the order they were sent -/
def Object.flow (x : Object) (s : St) : List (Option ℕ) := x.owners (s.received ++ s.channel)

theorem owners_append (l l' : List (Event × Option ℕ)) : x.owners (l ++ l') = x.owners l ++ x.owners l' := by
  simp [Object.owners]

theorem owners_singleton (e : Event) (o : Option ℕ) : x.owners [(e, o)] = if x.creates e then [o] else [] := by
  cases h : x.creates e <;> simp [Object.owners, h]

/-! ## Invariant -/

structure Inv (x : Object) (s : St) : Prop where
  /-- a request that has updated the row touches it no more -/
  done : ∀ i, s.stage i ≠ .before → s.status.calls[i]? = some .done
  writers : ∀ i ∈ s.writers, s.stage i ≠ .before
  /-- an event under the index of a request was sent by it -/
  flow : ∀ i, some i ∈ x.flow s → s.stage i = .sent
  action : ∀ i a, s.stage i = .written a → ∃ w, eventAction w = some a
  creates : ∀ i e, s.stage i = .persisted e → x.creates e = true
  /-- the futures of cargoes and VMs are those of the events the loop has received -/
  manager : objectSpawned s.manager ++ s.manager.loop.objectPending =
    (s.received.filterMap fun p => execOf p.1).flatMap Exec.wanted

theorem inv_init (row : Option ObjPsStatus) : Inv x (init row) := by
  constructor <;>
    simp [init, Object.flow, Object.owners, TaskManager.init, objectSpawned, Loop.objectPending, Loop.pending]

/-- the n-th task of the object is that of its n-th event -/
theorem Inv.futs_exec {s : St} (h : Inv x s) :
    (x.futs s).map (fun f => some f.exec) ++
        (s.manager.loop.objectPending.filter fun j => j.1.key = x.taskKey).map (fun j => some j.1) =
      (s.received.filter fun p => x.creates p.1).map fun p => execOf p.1 := by
  rw [← execs_of_object, ← map_fst_wanted, ← h.manager, List.map_append, List.filter_append, List.map_append]
  congr 1
  · unfold objectSpawned Object.futs
    rw [List.filter_map, List.filter_map, List.filter_map, List.filter_filter, List.map_map, List.map_map]
    refine congrArg (List.map _) (List.filter_congr fun f _ => ?_)
    by_cases hk : f.key = x.taskKey
    · simp [Fut.job, hk, show f.exec.isObject from Object.isObject_of_key hk]
    · simp [Fut.job, hk]
  · rw [List.filter_map, List.map_map]
    rfl

/-- once nothing is under way every event of the object has its task -/
theorem Inv.tasks_eq {s : St} (h : Inv x s) (hs : Settled s) : x.tasks s = x.flow s := by
  have hlen := congrArg List.length h.futs_exec
  have hnone : s.manager.loop.objectPending = [] := by simp [Loop.objectPending, hs.loop]
  simp only [hnone, List.filter_nil, List.map_nil, List.append_nil, List.length_map] at hlen
  have hflow : x.flow s = x.owners s.received := by rw [Object.flow, hs.channel, List.append_nil]
  rw [hflow, Object.tasks, hlen, List.take_of_length_le]
  simp [Object.owners]

/-! ### Steps -/

theorem calls_done {s : History.St} {i : ℕ} (h : s.calls[i]? = some .done) (o : History.Op) :
    (History.step s o).calls[i]? = some .done := by
  have hlt : i < s.calls.length := (List.getElem?_eq_some_iff.1 h).1
  cases o with
  | call w =>
    rw [← h]
    exact List.getElem?_append_left hlt
  | docker e =>
    rw [← h]
    exact List.getElem?_append_left hlt
  | step j =>
    cases hj : s.calls[j]? with
    | none => simpa [History.step, hj] using h
    | some p =>
      simp only [History.step, hj]
      by_cases hij : j = i
      · subst hij
        obtain rfl : p = .done := Option.some.inj (hj.symm.trans h)
        simp [History.stepCall, hlt]
      · rw [List.getElem?_set_ne hij]
        exact h
  | _ => exact h

/-- a request that updates the row has not done so before, and is through with it after -/
theorem writes_eq_some {s : History.St} {o : History.Op} {i : ℕ} {action : String} (h : writes s o = some (i, action)) :
    (∃ w, eventAction w = some action ∧ ∃ cur, s.calls[i]? = some (.write w cur)) ∧
      (History.step s o).calls[i]? = some .done := by
  cases o with
  | step j =>
    simp only [writes] at h
    split at h
    · rename_i w cur row hcall hrow
      obtain ⟨a, ha, heq⟩ := Option.map_eq_some_iff.1 h
      obtain ⟨rfl, rfl⟩ := Prod.mk.inj heq
      have hlt : j < s.calls.length := (List.getElem?_eq_some_iff.1 hcall).1
      refine ⟨⟨w, ha, cur, hcall⟩, ?_⟩
      simp only [History.step, hcall, History.stepCall]
      exact List.getElem?_set_self hlt
    · cases h
  | _ => cases h

/-- what a step does to the requests and to the events of the object -/
inductive Effect (x : Object) (s s' : St) : Op → Prop where
  | update {o : History.Op} {i : ℕ} {action : String} (before : s.stage i = .before)
      (done : s'.status.calls[i]? = some .done) (event : ∃ w, eventAction w = some action)
      (stage : s'.stage = Function.update s.stage i (.written action)) (writers : s'.writers = s.writers ++ [i])
      (flow : x.flow s' = x.flow s) : Effect x s s' (.status o)
  | persist {i : ℕ} {attributes : List (String × String)} {action : String} {e : Event}
      (written : s.stage i = .written action) (creates : x.creates e = true)
      (stage : s'.stage = Function.update s.stage i (.persisted e)) (writers : s'.writers = s.writers)
      (flow : x.flow s' = x.flow s) : Effect x s s' (.persist i attributes)
  | send {i : ℕ} {e : Event} (persisted : s.stage i = .persisted e)
      (stage : s'.stage = Function.update s.stage i .sent) (writers : s'.writers = s.writers)
      (flow : x.flow s' = x.flow s ++ [some i]) : Effect x s s' (.send i)
  | fail {i : ℕ} (pending : (s.stage i).pending = true) (stage : s'.stage = Function.update s.stage i .failed)
      (writers : s'.writers = s.writers) (flow : x.flow s' = x.flow s) : Effect x s s' (.fail i)
  | emit {e : Event} (creates : x.creates e = true) (stage : s'.stage = s.stage) (writers : s'.writers = s.writers)
      (flow : x.flow s' = x.flow s ++ [none]) : Effect x s s' (.emit e)
  | none {o : Op} (stage : s'.stage = s.stage) (writers : s'.writers = s.writers) (flow : x.flow s' = x.flow s) :
      Effect x s s' o

theorem step_effect {s : St} (h : Inv x s) (o : Op) : Effect x s (step x s o) o := by
  cases o with
  | status o =>
    cases hw : writes s.status o with
    | none =>
      simp only [step, hw]
      exact .none rfl rfl rfl
    | some p =>
      obtain ⟨i, action⟩ := p
      obtain ⟨⟨w, hw', cur, hcall⟩, hdone⟩ := writes_eq_some hw
      have hbefore : s.stage i = .before := by
        by_contra hne
        cases hcall.symm.trans (h.done i hne)
      simp only [step, hw]
      exact .update hbefore hdone ⟨w, hw'⟩ rfl rfl rfl
  | persist i attributes =>
    cases hs : s.stage i with
    | written action =>
      obtain ⟨w, hw⟩ := h.action i action hs
      simp only [step, hs]
      exact .persist hs (creates_of_action hw attributes) rfl rfl rfl
    | _ =>
      simp only [step, hs]
      exact .none rfl rfl rfl
  | send i =>
    cases hs : s.stage i with
    | persisted e =>
      have hc : x.creates e = true := h.creates i e hs
      simp only [step, hs]
      refine .send hs rfl rfl ?_
      simp [Object.flow, owners_append, owners_singleton, hc]
    | _ =>
      simp only [step, hs]
      exact .none rfl rfl rfl
  | fail i =>
    simp only [step]
    split_ifs with hp
    · exact .fail hp rfl rfl rfl
    · exact .none rfl rfl rfl
  | emit e =>
    by_cases hc : x.creates e = true
    · refine .emit hc rfl rfl ?_
      simp [step, Object.flow, owners_append, owners_singleton, hc]
    · refine .none rfl rfl ?_
      simp [step, Object.flow, owners_append, owners_singleton, hc]
  | recv =>
    simp only [step]
    split
    · -- the event moves from the channel to the received ones
      rename_i c rest hloop hchannel
      refine .none rfl rfl ?_
      simp [Object.flow, hchannel]
    · exact .none rfl rfl rfl
  | loop => exact .none rfl rfl rfl
  | fut i p => exact .none rfl rfl rfl

/-- the futures are those of the events received, and of no other -/
theorem step_manager {s : St} (h : Inv x s) (o : Op) :
    objectSpawned (step x s o).manager ++ (step x s o).manager.loop.objectPending =
      ((step x s o).received.filterMap fun p => execOf p.1).flatMap Exec.wanted := by
  cases o with
  | status o =>
    simp only [step]
    split <;> exact h.manager
  | persist i attributes =>
    simp only [step]
    split <;> exact h.manager
  | send i =>
    simp only [step]
    split <;> exact h.manager
  | fail i =>
    simp only [step]
    split_ifs <;> exact h.manager
  | emit e => exact h.manager
  | recv =>
    simp only [step]
    split
    · rename_i c rest hloop hchannel
      have htaken : taken s.manager (.recv c.1) = execOf c.1 := by
        simp only [taken, takes, hloop, execOf]
        cases c.1.kind <;> cases c.1.actor <;> rfl
      rw [step_spawned, h.manager, htaken, List.filterMap_append, List.flatMap_append]
      cases hc : execOf c.1 <;> simp [hc]
    · exact h.manager
  | loop =>
    simp only [step]
    rw [step_spawned, h.manager]
    simp [taken]
  | fut i p =>
    simp only [step]
    rw [step_spawned, h.manager]
    simp [taken]

/-- the calls that are done stay so -/
theorem step_done {s : St} (o : Op) {i : ℕ} (h : s.status.calls[i]? = some .done) :
    (step x s o).status.calls[i]? = some .done := by
  cases o with
  | status o =>
    simp only [step]
    split <;> exact calls_done h o
  | persist j attributes =>
    simp only [step]
    split <;> exact h
  | send j =>
    simp only [step]
    split <;> exact h
  | fail j =>
    simp only [step]
    split_ifs <;> exact h
  | recv =>
    simp only [step]
    split <;> exact h
  | _ => exact h

theorem step_inv (s : St) (o : Op) (h : Inv x s) : Inv x (step x s o) := by
  have hmanager := step_manager h o
  have hcalls : ∀ j, s.stage j ≠ .before → (step x s o).status.calls[j]? = some .done :=
    fun j hj => step_done o (h.done j hj)
  -- one request moves to another stage; the events under its index are sent
  have moves : ∀ (i : ℕ) (st : Stage), (step x s o).stage = Function.update s.stage i st → st ≠ .before →
      (step x s o).status.calls[i]? = some .done → (∀ j ∈ (step x s o).writers, j = i ∨ j ∈ s.writers) →
      (∀ j, some j ∈ x.flow (step x s o) → (j = i ∧ st = .sent) ∨ (j ≠ i ∧ some j ∈ x.flow s)) →
      (∀ a, st = .written a → ∃ w, eventAction w = some a) → (∀ e, st = .persisted e → x.creates e = true) →
      Inv x (step x s o) := by
    intro i st hst hne hdone hwriters hflow haction hcreates
    have hself : (step x s o).stage i = st := by rw [hst, Function.update_self]
    have hother : ∀ j, j ≠ i → (step x s o).stage j = s.stage j := fun j hj => by rw [hst, Function.update_of_ne hj]
    constructor
    · intro j hj
      by_cases hji : j = i
      · rw [hji]
        exact hdone
      · rw [hother j hji] at hj
        exact hcalls j hj
    · intro j hj
      by_cases hji : j = i
      · rw [hji, hself]
        exact hne
      · rw [hother j hji]
        exact h.writers j ((hwriters j hj).resolve_left hji)
    · intro j hj
      rcases hflow j hj with ⟨rfl, rfl⟩ | ⟨hji, hmem⟩
      · exact hself
      · rw [hother j hji]
        exact h.flow j hmem
    · intro j a ha
      by_cases hji : j = i
      · rw [hji, hself] at ha
        exact haction a ha
      · rw [hother j hji] at ha
        exact h.action j a ha
    · intro j e he
      by_cases hji : j = i
      · rw [hji, hself] at he
        exact hcreates e he
      · rw [hother j hji] at he
        exact h.creates j e he
    · exact hmanager
  -- an event under the index of a request that has not sent is not there
  have unsent : ∀ i j, s.stage i ≠ .sent → some j ∈ x.flow s → j ≠ i := by
    rintro i j hi hj rfl
    exact hi (h.flow j hj)
  rcases step_effect h o with ⟨before, done, event, stage, writers, flow⟩ | ⟨written, creates, stage, writers, flow⟩ |
    ⟨persisted, stage, writers, flow⟩ | ⟨pending, stage, writers, flow⟩ | ⟨-, stage, writers, flow⟩ |
    ⟨stage, writers, flow⟩
  · rename_i i action
    refine moves i _ stage (by simp) done ?_ ?_ ?_ (by simp)
    · intro j hj
      rw [writers] at hj
      rcases List.mem_append.1 hj with hj | hj
      · exact Or.inr hj
      · exact Or.inl (List.mem_singleton.1 hj)
    · intro j hj
      rw [flow] at hj
      exact Or.inr ⟨unsent i j (by simp [before]) hj, hj⟩
    · rintro a ha
      obtain rfl := Stage.written.inj ha
      exact event
  · rename_i i attributes action e
    refine moves i _ stage (by simp) (hcalls i (by simp [written])) (fun j hj => Or.inr (writers ▸ hj)) ?_ (by simp) ?_
    · intro j hj
      rw [flow] at hj
      exact Or.inr ⟨unsent i j (by simp [written]) hj, hj⟩
    · rintro e' he'
      obtain rfl := Stage.persisted.inj he'
      exact creates
  · rename_i i e
    refine moves i _ stage (by simp) (hcalls i (by simp [persisted])) (fun j hj => Or.inr (writers ▸ hj)) ?_ (by simp)
      (by simp)
    intro j hj
    rw [flow] at hj
    rcases List.mem_append.1 hj with hj | hj
    · exact Or.inr ⟨unsent i j (by simp [persisted]) hj, hj⟩
    · exact Or.inl ⟨Option.some.inj (List.mem_singleton.1 hj), rfl⟩
  · rename_i i
    have hsent : s.stage i ≠ .sent := by
      intro hs
      simp [hs, Stage.pending] at pending
    have hbefore : s.stage i ≠ .before := by
      intro hs
      simp [hs, Stage.pending] at pending
    refine moves i _ stage (by simp) (hcalls i hbefore) (fun j hj => Or.inr (writers ▸ hj)) ?_ (by simp) (by simp)
    intro j hj
    rw [flow] at hj
    exact Or.inr ⟨unsent i j hsent hj, hj⟩
  · refine ⟨fun j hj => hcalls j (stage ▸ hj), ?_, ?_, ?_, ?_, hmanager⟩
    · rw [writers, stage]
      exact h.writers
    · intro j hj
      rw [stage]
      rw [flow] at hj
      rcases List.mem_append.1 hj with hj | hj
      · exact h.flow j hj
      · cases List.mem_singleton.1 hj
    · rw [stage]
      exact h.action
    · rw [stage]
      exact h.creates
  · refine ⟨fun j hj => hcalls j (stage ▸ hj), ?_, ?_, ?_, ?_, hmanager⟩
    · rw [writers, stage]
      exact h.writers
    · rw [flow, stage]
      exact h.flow
    · rw [stage]
      exact h.action
    · rw [stage]
      exact h.creates

/-! ## Main results -/

/-- the last writer has not failed, and once it has sent its event, that is the last of the object -/
structure Ordered (x : Object) (s : St) : Prop where
  inv : Inv x s
  kept : ∀ i, s.writers.getLast? = some i → s.stage i ≠ .failed
  last : ∀ i, s.writers.getLast? = some i → s.stage i = .sent → (x.flow s).getLast? = some (some i)

theorem ordered_init (row : Option ObjPsStatus) : Ordered x (init row) :=
  ⟨inv_init row, by simp [init], by simp [init]⟩

theorem step_ordered (s : St) (o : Op) (h : Ordered x s) (ho : InOrder x s o) : Ordered x (step x s o) := by
  have hinv := step_inv s o h.inv
  -- a request other than the one that moves stays where it is
  have other : ∀ (i j : ℕ) (st : Stage), (step x s o).stage = Function.update s.stage i st → j ≠ i →
      (step x s o).stage j = s.stage j := fun i j st hst hj => by rw [hst, Function.update_of_ne hj]
  cases step_effect h.inv o with
  | @update o i action before done event stage writers flow =>
    have hlast : (step x s (.status o)).writers.getLast? = some i := by rw [writers]; simp
    have hself : (step x s (.status o)).stage i = .written action := by rw [stage, Function.update_self]
    refine ⟨hinv, fun j hj => ?_, fun j hj hsent => ?_⟩
    · obtain rfl := Option.some.inj (hlast.symm.trans hj)
      simp [hself]
    · obtain rfl := Option.some.inj (hlast.symm.trans hj)
      simp [hself] at hsent
  | @persist i attributes action e written creates stage writers flow =>
    have hself : (step x s (.persist i attributes)).stage i = .persisted e := by rw [stage, Function.update_self]
    refine ⟨hinv, fun j hj => ?_, fun j hj hsent => ?_⟩
    · by_cases hji : j = i
      · simp [hji, hself]
      · rw [other i j _ stage hji]
        exact h.kept j (writers ▸ hj)
    · by_cases hji : j = i
      · simp [hji, hself] at hsent
      · rw [other i j _ stage hji] at hsent
        rw [flow]
        exact h.last j (writers ▸ hj) hsent
  | @send i e persisted stage writers flow =>
    have hself : (step x s (.send i)).stage i = .sent := by rw [stage, Function.update_self]
    refine ⟨hinv, fun j hj => ?_, fun j hj hsent => ?_⟩
    · by_cases hji : j = i
      · simp [hji, hself]
      · rw [other i j _ stage hji]
        exact h.kept j (writers ▸ hj)
    · by_cases hji : j = i
      · rw [flow, hji]
        simp
      · rw [other i j _ stage hji] at hsent
        simp only [InOrder, persisted] at ho
        exact absurd ⟨j, writers ▸ hj, hsent⟩ ho
  | @fail i pending stage writers flow =>
    refine ⟨hinv, fun j hj => ?_, fun j hj hsent => ?_⟩
    · have hji : j ≠ i := by
        rintro rfl
        exact ho pending (writers ▸ hj)
      rw [other i j _ stage hji]
      exact h.kept j (writers ▸ hj)
    · have hji : j ≠ i := by
        rintro rfl
        exact ho pending (writers ▸ hj)
      rw [other i j _ stage hji] at hsent
      rw [flow]
      exact h.last j (writers ▸ hj) hsent
  | emit creates stage writers flow =>
    refine ⟨hinv, fun j hj => ?_, fun j hj hsent => ?_⟩
    · rw [stage]
      exact h.kept j (writers ▸ hj)
    · rw [stage] at hsent
      exact absurd ⟨j, writers ▸ hj, hsent⟩ (ho creates)
  | none stage writers flow =>
    refine ⟨hinv, fun j hj => ?_, fun j hj hsent => ?_⟩
    · rw [stage]
      exact h.kept j (writers ▸ hj)
    · rw [stage] at hsent
      rw [flow]
      exact h.last j (writers ▸ hj) hsent

theorem lastWins_of_ordered {s : St} (h : Ordered x s) : LastWins x s := by
  intro hs i hi
  rw [h.inv.tasks_eq hs]
  have hmem : i ∈ s.writers := List.mem_of_getLast? hi
  refine h.last i hi ?_
  have hidle := hs.requests i hmem
  cases hst : s.stage i with
  | before => exact absurd hst (h.inv.writers i hmem)
  | written action => simp [hst, Stage.pending] at hidle
  | persisted e => simp [hst, Stage.pending] at hidle
  | sent => rfl
  | failed => exact absurd hst (h.kept i hi)

/-- **The last request wins** in every state of a run in which no event of the object follows that of the last writer, and
the last writer does not fail after its update. -/
theorem last_request_wins (x : Object) (row : Option ObjPsStatus) (ops : List Op)
    (hops : Along (step x) (InOrder x) (init row) ops) : LastWins x (run (step x) (init row) ops) :=
  lastWins_of_ordered (inv_run step_ordered (ordered_init row) hops)

/-- request i wrote last, and its event is not the last of the object, or there is none -/
def Lost (x : Object) (i : ℕ) (s : St) : Prop :=
  s.writers.getLast? = some i ∧ (s.stage i = .failed ∨ (s.stage i = .sent ∧ (x.flow s).getLast? ≠ some (some i)))

theorem lost_of_not_inOrder {s : St} {o : Op} (h : Inv x s) (ho : ¬ InOrder x s o) : ∃ i, Lost x i (step x s o) := by
  cases o with
  | send i =>
    simp only [InOrder] at ho
    split at ho
    swap
    · exact absurd trivial ho
    rename_i e hs
    obtain ⟨j, hj, hsent⟩ := not_not.1 ho
    rw [Option.mem_def] at hj
    have hji : j ≠ i := by
      rintro rfl
      cases hs.symm.trans hsent
    have hc : x.creates e = true := h.creates i e hs
    refine ⟨j, ?_⟩
    simp [step, hs, Lost, hj, hsent, hji, Object.flow, owners_append, owners_singleton, hc, Ne.symm hji]
  | emit e =>
    simp only [InOrder, Classical.not_imp, not_not] at ho
    obtain ⟨hc, j, hj, hsent⟩ := ho
    rw [Option.mem_def] at hj
    refine ⟨j, ?_⟩
    simp [step, Lost, hj, hsent, Object.flow, owners_append, owners_singleton, hc]
  | fail i =>
    simp only [InOrder, Classical.not_imp, not_not] at ho
    obtain ⟨hp, hi⟩ := ho
    exact ⟨i, by simp [step, hp, Lost, hi]⟩
  | _ => exact absurd trivial ho

theorem step_lost {s : St} {o : Op} {i : ℕ} (h : Inv x s) (hl : Lost x i s) (hw : (step x s o).writers = s.writers) :
    Lost x i (step x s o) := by
  obtain ⟨hi, hl⟩ := hl
  -- request i is through, so another one moves
  have other : ∀ (j : ℕ) (st : Stage), (step x s o).stage = Function.update s.stage j st → s.stage j ≠ .failed →
      s.stage j ≠ .sent → (step x s o).stage i = s.stage i ∧ i ≠ j := by
    intro j st hst hf hsent
    have hij : i ≠ j := by
      rintro rfl
      rcases hl with hl | ⟨hl, -⟩
      · exact hf hl
      · exact hsent hl
    exact ⟨by rw [hst, Function.update_of_ne hij], hij⟩
  refine ⟨hw ▸ hi, ?_⟩
  cases step_effect h o with
  | @update o j action before done event stage writers flow =>
    rw [hw] at writers
    simp at writers
  | @persist j attributes action e written creates stage writers flow =>
    rw [(other j _ stage (by simp [written]) (by simp [written])).1, flow]
    exact hl
  | @send j e persisted stage writers flow =>
    obtain ⟨hst, hij⟩ := other j _ stage (by simp [persisted]) (by simp [persisted])
    rw [hst, flow]
    refine hl.imp_right fun hl => ⟨hl.1, ?_⟩
    simpa using hij.symm
  | @fail j pending stage writers flow =>
    have hne : s.stage j ≠ .failed ∧ s.stage j ≠ .sent := by
      constructor <;>
      · intro hs
        simp [hs, Stage.pending] at pending
    rw [(other j _ stage hne.1 hne.2).1, flow]
    exact hl
  | emit creates stage writers flow =>
    rw [stage, flow]
    exact hl.imp_right fun hl => ⟨hl.1, by simp⟩
  | none stage writers flow =>
    rw [stage, flow]
    exact hl

theorem step_writers {s : St} (h : Inv x s) (o : Op) : s.writers <+: (step x s o).writers := by
  cases step_effect h o with
  | update before done event stage writers flow =>
    rw [writers]
    exact List.prefix_append _ _
  | persist written creates stage writers flow => rw [writers]
  | send persisted stage writers flow => rw [writers]
  | fail pending stage writers flow => rw [writers]
  | emit creates stage writers flow => rw [writers]
  | none stage writers flow => rw [writers]

theorem run_writers {s : St} (h : Inv x s) (ops : List Op) : s.writers <+: (run (step x) s ops).writers := by
  induction ops generalizing s with
  | nil => exact List.prefix_refl _
  | cons o ops ih => exact (step_writers h o).trans (ih (step_inv s o h))

theorem run_lost {s : St} {ops : List Op} {i : ℕ} (h : Inv x s) (hl : Lost x i s)
    (hw : (run (step x) s ops).writers = s.writers) : Lost x i (run (step x) s ops) := by
  induction ops generalizing s with
  | nil => exact hl
  | cons o ops ih =>
    have hinv := step_inv s o h
    -- the list of writers only grows, so no step of the run adds one
    have hstep : (step x s o).writers = s.writers := by
      have hle := (step_writers h o).length_le
      have hle' := (run_writers hinv ops).length_le
      rw [← run_cons, hw] at hle'
      exact ((step_writers h o).eq_of_length (by omega)).symm
    exact ih hinv (step_lost h hl hstep) (hw.trans hstep.symm)

/-- **The condition is exact.** After a step that does not meet it the last task is not that of the last writer in any
state in which nothing is under way, until a further request updates the row. -/
theorem out_of_order_loses {row : Option ObjPsStatus} {ops rest : List Op} {o : Op}
    (ho : ¬ InOrder x (run (step x) (init row) ops) o)
    (hw : (run (step x) (init row) (ops ++ o :: rest)).writers = (run (step x) (init row) ops).writers)
    (hs : Settled (run (step x) (init row) (ops ++ o :: rest))) :
    ¬ LastWins x (run (step x) (init row) (ops ++ o :: rest)) := by
  rw [run_append, run_cons] at hw hs ⊢
  generalize hs0 : run (step x) (init row) ops = s at ho hw hs ⊢
  have hinv : Inv x s := by
    rw [← hs0]
    exact inv_run (fun s o h _ => step_inv s o h) (inv_init row) (along_true (step x) _ ops)
  obtain ⟨i, hlost⟩ := lost_of_not_inOrder hinv ho
  have hinv' := step_inv s o hinv
  have hstep : (step x s o).writers = s.writers := by
    have hle := (step_writers hinv o).length_le
    have hle' := (run_writers hinv' rest).length_le
    rw [hw] at hle'
    exact ((step_writers hinv o).eq_of_length (by omega)).symm
  obtain ⟨hi, hl⟩ := run_lost hinv' hlost (hw.trans hstep.symm)
  have hfinal := inv_run (I := Inv x) (C := fun _ _ => True) (fun s o h _ => step_inv s o h) hinv' (along_true (step x) _ rest)
  intro hwins
  have htask := hwins hs i hi
  rw [hfinal.tasks_eq hs] at htask
  rcases hl with hf | ⟨-, hne⟩
  · have hsent := hfinal.flow i (List.mem_of_getLast? htask)
    cases hf.symm.trans hsent
  · exact hne htask

/-! ### Requests one after the other -/

/-- no request updates the row while another has still to send its event, none fails, and nothing else of the daemon sends
an event for the object -/
def Serial (x : Object) (s : St) : Op → Prop
  | .status o => writes s.status o ≠ none → ∀ i, (s.stage i).pending = false
  | .fail i => (s.stage i).pending = false
  | .emit e => x.creates e = false
  | _ => True

/-- a request that has still to send its event wrote last -/
def PendingLast (x : Object) (s : St) : Prop := Inv x s ∧ ∀ i, (s.stage i).pending = true → s.writers.getLast? = some i

theorem step_pendingLast (s : St) (o : Op) (h : PendingLast x s) (ho : Serial x s o) : PendingLast x (step x s o) := by
  obtain ⟨hinv, hlast⟩ := h
  refine ⟨step_inv s o hinv, fun j hj => ?_⟩
  -- the request is where it was, and it was pending
  have keeps : (step x s o).writers = s.writers → (s.stage j).pending = true →
      (step x s o).writers.getLast? = some j := fun hw hp => hw ▸ hlast j hp
  have moved : ∀ (i : ℕ) (st : Stage), (step x s o).stage = Function.update s.stage i st → j ≠ i →
      (s.stage j).pending = true := by
    intro i st hst hji
    rwa [hst, Function.update_of_ne hji] at hj
  cases step_effect hinv o with
  | @update o i action before done event stage writers flow =>
    by_cases hji : j = i
    · rw [writers, hji]
      simp
    · have hwrites : writes s.status o ≠ none := by
        intro hno
        have : (step x s (.status o)).writers = s.writers := by simp [step, hno]
        rw [this] at writers
        simp at writers
      have hidle := ho hwrites j
      rw [moved i _ stage hji] at hidle
      cases hidle
  | @persist i attributes action e written creates stage writers flow =>
    refine keeps writers ?_
    by_cases hji : j = i
    · simp [hji, written, Stage.pending]
    · exact moved i _ stage hji
  | @send i e persisted stage writers flow =>
    refine keeps writers ?_
    by_cases hji : j = i
    · simp [hji, persisted, Stage.pending]
    · exact moved i _ stage hji
  | @fail i pending stage writers flow => exact absurd ho (by simp [Serial, pending])
  | emit creates stage writers flow => exact absurd ho (by simp [Serial, creates])
  | none stage writers flow => exact keeps writers (stage ▸ hj)

/-- requests that do not overlap are in order -/
theorem serial_in_order (x : Object) (row : Option ObjPsStatus) {ops : List Op}
    (h : Along (step x) (Serial x) (init row) ops) : Along (step x) (InOrder x) (init row) ops := by
  have hinit : PendingLast x (init row) := ⟨inv_init row, by simp [init, Stage.pending]⟩
  refine along_of_inv step_pendingLast ?_ hinit h
  intro s o hs ho
  cases o with
  | send i =>
    simp only [InOrder]
    split
    · rename_i e he
      rintro ⟨j, hj, hsent⟩
      have hi := hs.2 i (by simp [he, Stage.pending])
      obtain rfl := Option.some.inj (hi.symm.trans hj)
      cases he.symm.trans hsent
    · trivial
  | emit e =>
    intro hc
    simp [Serial, hc] at ho
  | fail i =>
    intro hp
    simp [Serial, hp] at ho
  | _ => trivial

/-! ### A start and a stop -/

/-- the object of the runs below -/
def webObject : Object := ⟨.cargo, "web.global", Or.inl rfl⟩

/-- a start that is through with its requests, then a stop; the loop creates both tasks -/
def startThenStopRequest : List Op :=
  [.status (.call (.emitStarting .cargo)), .status (.step 0), .status (.step 0), .persist 0 [], .send 0,
    .status (.call .emitStopping), .status (.step 1), .status (.step 1), .persist 1 [], .send 1,
    .recv, .loop, .loop, .loop, .fut 0 .ok, .fut 0 .ok, .recv, .loop, .loop, .loop]

theorem last_request_wins_startThenStop :
    LastWins webObject (run (step webObject) (init (some created)) startThenStopRequest) ∧
      webObject.tasks (run (step webObject) (init (some created)) startThenStopRequest) = [some 0, some 1] :=
  ⟨last_request_wins webObject _ startThenStopRequest (by decide), by decide⟩

/-- the start updates the row first, and sends its event last -/
def startAndStop : List Op :=
  [.status (.call (.emitStarting .cargo)), .status (.call .emitStopping), .status (.step 0), .status (.step 0),
    .status (.step 1), .status (.step 1), .persist 1 [], .send 1, .persist 0 [], .send 0,
    .recv, .loop, .loop, .loop, .fut 0 .ok, .fut 0 .ok, .recv, .loop, .loop, .loop]

/-- **The stop is wanted, and the start runs last.** -/
theorem last_request_loses :
    ¬ ∀ (x : Object) (row : Option ObjPsStatus) (ops : List Op), LastWins x (run (step x) (init row) ops) := by
  intro h
  have hsettled : Settled (run (step webObject) (init (some created)) startAndStop) := by
    constructor <;> decide
  have hlast := h webObject (some created) startAndStop hsettled 1 (by decide)
  revert hlast
  decide

end Nanocl.LastRequest
