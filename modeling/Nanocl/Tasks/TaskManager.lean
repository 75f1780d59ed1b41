/-
The task manager (`bin/nanocld/src/tasks/task_manager.rs`) driven by the event loop (`system/event.rs::exec_event`).

The event loop feeds one event at a time to `exec_event`. For a cargo or a VM it first waits for the task stored under
the key of the object; for the destruction of a job it aborts the stored task; then it builds the task of the event,
spawns its future and stores it. A spawned future runs the task, removes its own entry from the map and, if the task
failed, runs `on_error`, which writes status `fail` and emits the error event.

Every acquisition of the lock on the map and every `await` is a place where the others may run: `step` takes one
operation of the event loop or of one future, in any order.

Results:
- `task_serialised`: in every run in which no lookup comes back empty while the `on_error` of an earlier task of the
  same cargo or VM is running (`QuietLookup`), a task executes no step before the earlier tasks of its key have ended.
- `task_overlap`: without that condition the tasks of one key overlap. A failed task gives up its entry before it runs
  `on_error`, so the next event finds nothing to wait for.
-/
import Nanocl.Lib.Transition
import Nanocl.System.Event

namespace Nanocl.TaskManager

open Nanocl.Lib

/-! ## Model -/

/-- the future built for an event, named after the function of `utils/container` it runs -/
inductive ObjTaskFuture where
  | start | stop | update | delete
deriving DecidableEq, Repr

def starting (actor : EventActor) : Option ObjTaskFuture :=
  match actor.kind with
  | .job | .cargo | .vm => some .start
  | _ => none

def destroying (actor : EventActor) : Option ObjTaskFuture :=
  match actor.kind with
  | .cargo | .vm | .job => some .delete
  | _ => none

def updating (actor : EventActor) : Option ObjTaskFuture :=
  match actor.kind with
  | .cargo | .vm => some .update
  | _ => none

def stopping (actor : EventActor) : Option ObjTaskFuture :=
  match actor.kind with
  | .cargo | .vm | .job => some .stop
  | _ => none

/-- the `match action` of `exec_event`: `update` (of a secret) and `job_ttl` run in the event loop and build no task -/
def taskOf (action : NativeEventAction) (actor : EventActor) : Option ObjTaskFuture :=
  match action with
  | .starting => starting actor
  | .stopping => stopping actor
  | .updating => updating actor
  | .destroying => destroying actor
  | _ => none

/-- the action of the error event that `on_error` emits; on any other action it returns at once -/
def onErrorAction : NativeEventAction → Option NativeEventAction
  | .starting => some .start
  | .stopping => some .stop
  | .updating => some .update
  | .destroying => some .destroy
  | _ => none

/-- where a spawned future is suspended -/
inductive Phase where
  /-- in `task.await` -/
  | body
  /-- the task returned `Ok`; about to remove the entry -/
  | completed
  /-- the task returned `Err`; about to remove the entry -/
  | failed
  /-- in `on_error`, before the status is written -/
  | onErrorStatus
  /-- in `on_error`, before the error event is emitted -/
  | onErrorEmit
  | finished
  | aborted
deriving DecidableEq, Repr

/-- the future has code left to run -/
def Phase.live (p : Phase) : Prop := p ≠ .finished ∧ p ≠ .aborted

/-- the future has not yet given up its entry -/
def Phase.holding (p : Phase) : Prop := p = .body ∨ p = .completed ∨ p = .failed

/-- the future is in its `on_error` callback -/
def Phase.inOnError (p : Phase) : Prop := p = .onErrorStatus ∨ p = .onErrorEmit

instance (p : Phase) : Decidable p.live := by unfold Phase.live; infer_instance
instance (p : Phase) : Decidable p.inOnError := by unfold Phase.inOnError; infer_instance

theorem Phase.live_iff (p : Phase) : p.live ↔ p.holding ∨ p.inOnError := by
  cases p <;> simp [live, holding, inOnError]

/-- an event as `exec_event` handles it: its actor and its action -/
structure Exec where
  actor : EventActor
  action : NativeEventAction
deriving DecidableEq, Repr

def Exec.key (x : Exec) : String := taskKey x.actor.kind (x.actor.key.getD "")

/-- the event is about a cargo or a VM -/
def Exec.isObject (x : Exec) : Prop := x.actor.kind = .cargo ∨ x.actor.kind = .vm

instance (x : Exec) : Decidable x.isObject := by unfold Exec.isObject; infer_instance

/-- a spawned future: the event it was built for, what it runs, and where it stands -/
structure Fut where
  exec : Exec
  task : ObjTaskFuture
  phase : Phase
deriving DecidableEq, Repr

abbrev Fut.key (f : Fut) : String := f.exec.key

/-- where the event loop is suspended -/
inductive Loop where
  | idle
  /-- `wait_task`: about to look up the task -/
  | getTask (x : Exec)
  /-- `wait_task`: polling the join handle of future i -/
  | wait (x : Exec) (i : ℕ)
  /-- `remove_task`: about to abort the stored task and remove the entry -/
  | removeTask (x : Exec)
  /-- about to build the task and, if there is one, to spawn it -/
  | create (x : Exec)
  /-- `add_task`: future i is spawned, its entry is not stored yet -/
  | insert (x : Exec) (i : ℕ)
deriving DecidableEq, Repr

/-- what `on_error` leaves behind -/
inductive Effect where
  | statusFail (key : String)
  | errorEvent (actor : EventActor) (action : NativeEventAction)
deriving DecidableEq, Repr

structure St where
  /-- `TaskManager.tasks`: the index of the stored future -/
  tasks : String → Option ℕ
  /-- the spawned futures, oldest first -/
  futs : List Fut
  loop : Loop
  effects : List Effect

def init : St := ⟨fun _ => none, [], .idle, []⟩

/-- the result of polling a future once -/
inductive Poll where
  | pending | ok | err
deriving DecidableEq, Repr

inductive Op where
  /-- the event loop receives the next event -/
  | recv (e : Event)
  /-- the event loop advances to its next `await` -/
  | loop
  /-- future i is polled -/
  | fut (i : ℕ) (p : Poll)
deriving DecidableEq, Repr

def setPhase (s : St) (i : ℕ) (p : Phase) : St :=
  { s with futs := s.futs.modify i fun f => { f with phase := p } }

def dropEntry (s : St) (key : String) : St := { s with tasks := Function.update s.tasks key none }

/-- the head of `exec_event`, up to its first `await` -/
def recv (s : St) (e : Event) : St :=
  match s.loop, e.kind, e.actor with
  | .idle, .normal, some actor =>
    let x : Exec := ⟨actor, .fromStr e.action⟩
    match actor.kind, x.action with
    | .cargo, _ | .vm, _ => { s with loop := .getTask x }
    | .job, .destroying => { s with loop := .removeTask x }
    | _, _ => { s with loop := .create x }
  | _, _, _ => s

/-- future i has run to its end (`JoinHandle::is_finished`) -/
def isFinished (s : St) (i : ℕ) : Bool :=
  match s.futs[i]? with
  | none => true
  | some f => !decide f.phase.live

/-- abort a future that has not ended -/
def abort (s : St) (i : ℕ) : St := if isFinished s i then s else setPhase s i .aborted

def loopStep (s : St) : St :=
  match s.loop with
  | .idle => s
  | .getTask x =>
    match s.tasks x.key with
    | none => { s with loop := .create x }
    | some i => { s with loop := .wait x i }
  | .wait x i => if isFinished s i then { s with loop := .removeTask x } else s
  | .removeTask x =>
    match s.tasks x.key with
    | none => { s with loop := .create x }
    | some i => { dropEntry (abort s i) x.key with loop := .create x }
  | .create x =>
    match taskOf x.action x.actor with
    | none => { s with loop := .idle }
    | some t => { s with futs := s.futs ++ [⟨x, t, .body⟩], loop := .insert x s.futs.length }
  | .insert x i => { s with tasks := Function.update s.tasks x.key (some i), loop := .idle }

/-- the async block of `add_task` with its `on_error` -/
def pollFut (s : St) (i : ℕ) (p : Poll) : St :=
  match s.futs[i]? with
  | none => s
  | some f =>
    match f.phase, p with
    | .body, .ok => setPhase s i .completed
    | .body, .err => setPhase s i .failed
    | .completed, .ok => setPhase (dropEntry s f.key) i .finished
    | .failed, .ok =>
      match onErrorAction f.exec.action with
      | none => setPhase (dropEntry s f.key) i .finished
      | some _ => setPhase (dropEntry s f.key) i .onErrorStatus
    | .onErrorStatus, .ok =>
      { setPhase s i .onErrorEmit with effects := s.effects ++ [.statusFail (f.exec.actor.key.getD "")] }
    -- the status could not be written: `?` leaves the callback
    | .onErrorStatus, .err => setPhase s i .finished
    | .onErrorEmit, .ok =>
      match onErrorAction f.exec.action with
      | none => setPhase s i .finished
      | some a => { setPhase s i .finished with effects := s.effects ++ [.errorEvent f.exec.actor a] }
    | _, _ => s

def step (s : St) : Op → St
  | .recv e => recv s e
  | .loop => loopStep s
  | .fut i p => pollFut s i p

/-! ## Serialisation -/

/-- future j executes no step while an earlier future of the same cargo or VM has not ended -/
def SerialStep (s : St) (o : Op) : Prop :=
  ∀ j p (f : Fut), o = .fut j p → s.futs[j]? = some f → f.exec.isObject → f.phase.live →
    ∀ i (g : Fut), i < j → s.futs[i]? = some g → g.key = f.key → ¬ g.phase.live

/-- a lookup for an event that creates a task does not come back empty while a future of the key is in `on_error` -/
def QuietLookup (s : St) : Op → Prop
  | .loop =>
    match s.loop with
    | .getTask x => taskOf x.action x.actor ≠ none → s.tasks x.key = none →
        ∀ f ∈ s.futs, f.key = x.key → ¬ f.phase.inOnError
    | _ => True
  | _ => True

instance (s : St) (o : Op) : Decidable (QuietLookup s o) := by
  unfold QuietLookup
  split
  · split <;> infer_instance
  · infer_instance

theorem isObject_of_key {x y : Exec} (hx : x.isObject) (h : y.key = x.key) : y.isObject := by
  have hk : y.actor.kind = x.actor.kind := taskKey_kind h
  unfold Exec.isObject at hx ⊢
  rwa [hk]

/-- what the event loop knows about the futures at each place it can be suspended at -/
def LoopInv (futs : List Fut) : Loop → Prop
  | .idle | .getTask _ => True
  | .wait x i => x.isObject → ∀ (j : ℕ) (f : Fut), futs[j]? = some f → f.key = x.key → f.phase.live → j = i
  | .removeTask x => x.isObject → ∀ (j : ℕ) (f : Fut), futs[j]? = some f → f.key = x.key → ¬ f.phase.live
  | .create x => x.isObject → taskOf x.action x.actor ≠ none →
      ∀ (j : ℕ) (f : Fut), futs[j]? = some f → f.key = x.key → ¬ f.phase.live
  | .insert x i => i + 1 = futs.length ∧ ∃ f : Fut, futs[i]? = some f ∧ f.key = x.key

/-- future j is spawned but its entry is not stored yet -/
def Inserting (s : St) (j : ℕ) : Prop := ∃ x, s.loop = .insert x j

structure Inv (s : St) : Prop where
  /-- an entry names a future of its key -/
  entry : ∀ k i, s.tasks k = some i → ∃ f : Fut, s.futs[i]? = some f ∧ f.key = k
  /-- an entry names the newest future of its key -/
  newest : ∀ k i, s.tasks k = some i → ∀ j (f : Fut), s.futs[j]? = some f → f.key = k → j ≤ i ∨ Inserting s j
  /-- a future of a cargo or VM that has not given up its entry is stored -/
  held : ∀ j (f : Fut), s.futs[j]? = some f → f.exec.isObject → f.phase.holding → s.tasks f.key = some j ∨ Inserting s j
  /-- of the futures of a cargo or VM only the newest may be live -/
  serial : ∀ (i j : ℕ) (f g : Fut), i < j → s.futs[i]? = some f → s.futs[j]? = some g → f.exec.isObject → f.key = g.key →
    ¬ f.phase.live
  loop : LoopInv s.futs s.loop

theorem inv_init : Inv init := by
  constructor <;> simp [init, LoopInv]

/-- two live futures of one cargo or VM are the same future -/
theorem Inv.live_unique {s : St} (h : Inv s) {i j : ℕ} {f g : Fut} (hf : s.futs[i]? = some f)
    (hg : s.futs[j]? = some g) (ho : f.exec.isObject) (hk : f.key = g.key) (lf : f.phase.live) (lg : g.phase.live) :
    i = j := by
  rcases Nat.lt_trichotomy i j with hij | hij | hij
  · exact absurd lf (h.serial i j f g hij hf hg ho hk)
  · exact hij
  · exact absurd lg (h.serial j i g f hij hg hf (isObject_of_key ho hk.symm) hk.symm)

/-- the serial step holds in every state that meets the invariant -/
theorem serialStep_of_inv (s : St) (o : Op) (h : Inv s) : SerialStep s o := by
  rintro j p f - hf ho - i g hij hg hk
  exact h.serial i j g f hij hg hf (isObject_of_key ho hk) hk

/-! ### One future polled or aborted -/

theorem getElem?_setPhase {s : St} {i j : ℕ} {p : Phase} {f : Fut} (hf : (setPhase s i p).futs[j]? = some f) :
    (∃ g, s.futs[j]? = some g ∧ f = { g with phase := p } ∧ i = j) ∨ (s.futs[j]? = some f ∧ i ≠ j) := by
  simp only [setPhase, List.getElem?_modify, Option.map_eq_map] at hf
  by_cases hij : i = j
  · left
    subst hij
    simp only [if_true] at hf
    cases hg : s.futs[i]? with
    | none => simp [hg] at hf
    | some g =>
      simp only [hg, Option.map_some, Option.some.injEq] at hf
      exact ⟨g, rfl, hf.symm, rfl⟩
  · right
    simp only [hij, if_false, Option.map_id'] at hf
    exact ⟨by simpa using hf, hij⟩

theorem exists_getElem?_setPhase {s : St} {j : ℕ} {f : Fut} (i : ℕ) (p : Phase) (hf : s.futs[j]? = some f) :
    ∃ g, (setPhase s i p).futs[j]? = some g ∧ g.key = f.key := by
  by_cases hij : i = j
  · exact ⟨{ f with phase := p }, by simp [setPhase, hij, hf], rfl⟩
  · exact ⟨f, by simp [setPhase, hij, hf], rfl⟩

/-- a future that moves on within its life: it does not come back to life and does not take its entry back -/
theorem setPhase_inv {s : St} {i : ℕ} {f : Fut} {p : Phase} (h : Inv s) (hf : s.futs[i]? = some f)
    (hlive : p.live → f.phase.live) (hhold : p.holding → f.phase.holding) : Inv (setPhase s i p) := by
  -- every future of the new state is one of the old state, no more alive and no more holding
  have back : ∀ (j : ℕ) (g : Fut), (setPhase s i p).futs[j]? = some g → ∃ g' : Fut, s.futs[j]? = some g' ∧ g'.exec = g.exec ∧
      (g.phase.live → g'.phase.live) ∧ (g.phase.holding → g'.phase.holding) := by
    intro j g hg
    rcases getElem?_setPhase hg with ⟨g', hg', rfl, rfl⟩ | ⟨hg', -⟩
    · rw [hf] at hg'
      cases hg'
      exact ⟨f, hf, rfl, hlive, hhold⟩
    · exact ⟨g, hg', rfl, id, id⟩
  refine ⟨?_, ?_, ?_, ?_, ?_⟩
  · intro k j hj
    obtain ⟨g, hg, hk⟩ := h.entry k j hj
    obtain ⟨g', hg', hk'⟩ := exists_getElem?_setPhase i p hg
    exact ⟨g', hg', hk'.trans hk⟩
  · intro k j hj j' g hg hk
    obtain ⟨g', hg', he, -, -⟩ := back j' g hg
    exact h.newest k j hj j' g' hg' (by rw [Fut.key, he]; exact hk)
  · intro j g hg ho hh
    obtain ⟨g', hg', he, -, hold⟩ := back j g hg
    have := h.held j g' hg' (he ▸ ho) (hold hh)
    rwa [Fut.key, he] at this
  · intro j j' g k hjj hg hk ho hkey hl
    obtain ⟨g', hg', he, live, -⟩ := back j g hg
    obtain ⟨k', hk', he', -, -⟩ := back j' k hk
    exact h.serial j j' g' k' hjj hg' hk' (he ▸ ho) (by rw [Fut.key, Fut.key, he, he']; exact hkey) (live hl)
  · have hl : LoopInv s.futs s.loop := h.loop
    change LoopInv (setPhase s i p).futs s.loop
    cases hs : s.loop with
    | idle => trivial
    | getTask x => trivial
    | wait x n =>
      rw [hs] at hl
      intro ho j g hg hk lg
      obtain ⟨g', hg', he, live, -⟩ := back j g hg
      exact hl ho j g' hg' (by rw [Fut.key, he]; exact hk) (live lg)
    | removeTask x =>
      rw [hs] at hl
      intro ho j g hg hk lg
      obtain ⟨g', hg', he, live, -⟩ := back j g hg
      exact hl ho j g' hg' (by rw [Fut.key, he]; exact hk) (live lg)
    | create x =>
      rw [hs] at hl
      intro ho hc j g hg hk lg
      obtain ⟨g', hg', he, live, -⟩ := back j g hg
      exact hl ho hc j g' hg' (by rw [Fut.key, he]; exact hk) (live lg)
    | insert x n =>
      rw [hs] at hl
      obtain ⟨hlen, g, hg, hk⟩ := hl
      obtain ⟨g', hg', hk'⟩ := exists_getElem?_setPhase i p hg
      exact ⟨by simpa [setPhase] using hlen, g', hg', hk'.trans hk⟩

theorem dropEntry_inv {s : St} {k : String} (h : Inv s)
    (hk : ∀ (j : ℕ) (g : Fut), s.futs[j]? = some g → g.exec.isObject → g.key = k → ¬ g.phase.holding) :
    Inv (dropEntry s k) := by
  have old : ∀ k' i, (dropEntry s k).tasks k' = some i → s.tasks k' = some i := by
    intro k' i hi
    by_cases he : k' = k
    · simp [dropEntry, he] at hi
    · simpa [dropEntry, he] using hi
  refine ⟨fun k' i hi => h.entry k' i (old k' i hi), fun k' i hi => h.newest k' i (old k' i hi), ?_, h.serial, h.loop⟩
  intro j g hg ho hh
  rcases h.held j g hg ho hh with ht | hins
  · left
    have hne : g.key ≠ k := fun he => hk j g hg ho he hh
    simpa [dropEntry, hne] using ht
  · exact Or.inr hins

/-- a future that holds its entry gives it up and moves on to a phase that does not -/
theorem release_inv {s : St} {i : ℕ} {f : Fut} {p : Phase} (h : Inv s) (hf : s.futs[i]? = some f)
    (hh : f.phase.holding) (hp : ¬ p.holding) : Inv (setPhase (dropEntry s f.key) i p) := by
  have hlive : f.phase.live := (f.phase.live_iff).2 (Or.inl hh)
  have h1 : Inv (setPhase s i p) := setPhase_inv h hf (fun _ => hlive) (fun hc => absurd hc hp)
  refine dropEntry_inv h1 ?_
  intro j g hg ho hk hg'
  rcases getElem?_setPhase hg with ⟨g', -, rfl, -⟩ | ⟨hold, hij⟩
  · exact hp hg'
  · exact hij (h.live_unique hold hf ho hk ((g.phase.live_iff).2 (Or.inl hg')) hlive).symm

theorem abort_inv {s : St} (i : ℕ) (h : Inv s) : Inv (abort s i) := by
  unfold abort
  split_ifs with hfin
  · exact h
  · cases hf : s.futs[i]? with
    | none => simp [isFinished, hf] at hfin
    | some f =>
      refine setPhase_inv h hf (fun hl => absurd rfl hl.2) ?_
      rintro (hc | hc | hc) <;> cases hc

theorem pollFut_inv (s : St) (i : ℕ) (p : Poll) (h : Inv s) : Inv (pollFut s i p) := by
  unfold pollFut
  split
  · exact h
  · rename_i f hf
    have end_inv : Inv (setPhase s i .finished) :=
      setPhase_inv h hf (fun hl => absurd rfl hl.1) (by rintro (hc | hc | hc) <;> cases hc)
    split
    · rename_i hph
      exact setPhase_inv h hf (fun _ => by simp [hph, Phase.live]) (fun _ => by simp [hph, Phase.holding])
    · rename_i hph
      exact setPhase_inv h hf (fun _ => by simp [hph, Phase.live]) (fun _ => by simp [hph, Phase.holding])
    · rename_i hph
      exact release_inv h hf (by simp [hph, Phase.holding]) (by simp [Phase.holding])
    · rename_i hph
      have hh : f.phase.holding := by simp [hph, Phase.holding]
      split
      · exact release_inv h hf hh (by simp [Phase.holding])
      · exact release_inv h hf hh (by simp [Phase.holding])
    · rename_i hph
      have h1 : Inv (setPhase s i .onErrorEmit) :=
        setPhase_inv h hf (fun _ => by simp [hph, Phase.live]) (by rintro (hc | hc | hc) <;> cases hc)
      exact ⟨h1.entry, h1.newest, h1.held, h1.serial, h1.loop⟩
    · exact end_inv
    · split
      · exact end_inv
      · exact ⟨end_inv.entry, end_inv.newest, end_inv.held, end_inv.serial, end_inv.loop⟩
    · exact h

/-! ### The event loop -/

/-- the loop moves on without touching the map or the futures -/
theorem loop_inv {s : St} {l : Loop} (h : Inv s) (hs : ∀ j, ¬ Inserting s j) (hl : LoopInv s.futs l) :
    Inv { s with loop := l } := by
  refine ⟨h.entry, ?_, ?_, h.serial, hl⟩
  · intro k i hi j f hf hk
    exact Or.inl ((h.newest k i hi j f hf hk).resolve_right (hs j))
  · intro j f hf ho hh
    exact Or.inl ((h.held j f hf ho hh).resolve_right (hs j))

theorem recv_inv (s : St) (e : Event) (h : Inv s) : Inv (recv s e) := by
  unfold recv
  split
  · rename_i actor hs hk ha
    have hins : ∀ j, ¬ Inserting s j := by rintro j ⟨x, hx⟩; rw [hs] at hx; cases hx
    dsimp only
    split
    · exact loop_inv h hins trivial
    · exact loop_inv h hins trivial
    · rename_i hkind _
      exact loop_inv h hins (fun ho => by rcases ho with ho | ho <;> simp [hkind] at ho)
    · rename_i hc hv _
      refine loop_inv h hins (fun ho => ?_)
      rcases ho with ho | ho
      · exact absurd ho hc
      · exact absurd ho hv
  · exact h

theorem spawn_inv {s : St} {x : Exec} {t : ObjTaskFuture} (h : Inv s) (hs : s.loop = .create x)
    (ht : taskOf x.action x.actor = some t) :
    Inv { s with futs := s.futs ++ [⟨x, t, .body⟩], loop := .insert x s.futs.length } := by
  have hins : ∀ j, ¬ Inserting s j := by rintro j ⟨y, hy⟩; rw [hs] at hy; cases hy
  have hquiet : LoopInv s.futs (.create x) := hs ▸ h.loop
  -- a future of the new list is the new one or one of the old ones
  have cases_new : ∀ (j : ℕ) (f : Fut), (s.futs ++ [(⟨x, t, .body⟩ : Fut)])[j]? = some f →
      (s.futs[j]? = some f ∧ j < s.futs.length) ∨ (j = s.futs.length ∧ f = ⟨x, t, .body⟩) := by
    intro j f hf
    rcases Nat.lt_trichotomy j s.futs.length with hj | hj | hj
    · exact Or.inl ⟨by rwa [List.getElem?_append_left hj] at hf, hj⟩
    · subst hj
      simp at hf
      exact Or.inr ⟨rfl, hf.symm⟩
    · rw [List.getElem?_eq_none (by simp; omega)] at hf
      cases hf
  refine ⟨?_, ?_, ?_, ?_, ?_⟩
  · intro k i hi
    obtain ⟨f, hf, hk⟩ := h.entry k i hi
    obtain ⟨hlt, -⟩ := List.getElem?_eq_some_iff.1 hf
    exact ⟨f, by simpa [List.getElem?_append_left hlt] using hf, hk⟩
  · intro k i hi j f hf hk
    rcases cases_new j f hf with ⟨hf', -⟩ | ⟨rfl, -⟩
    · exact Or.inl ((h.newest k i hi j f hf' hk).resolve_right (hins j))
    · exact Or.inr ⟨x, rfl⟩
  · intro j f hf ho hh
    rcases cases_new j f hf with ⟨hf', -⟩ | ⟨rfl, -⟩
    · exact Or.inl ((h.held j f hf' ho hh).resolve_right (hins j))
    · exact Or.inr ⟨x, rfl⟩
  · intro i j f g hij hf hg ho hk
    rcases cases_new j g hg with ⟨hg', hj⟩ | ⟨rfl, rfl⟩
    · rcases cases_new i f hf with ⟨hf', -⟩ | ⟨rfl, -⟩
      · exact h.serial i j f g hij hf' hg' ho hk
      · omega
    · rcases cases_new i f hf with ⟨hf', -⟩ | ⟨rfl, -⟩
      · exact hquiet (isObject_of_key ho hk.symm) (by simp [ht]) i f hf' hk
      · omega
  · exact ⟨by simp, ⟨x, t, .body⟩, by simp, rfl⟩

theorem store_inv {s : St} {x : Exec} {i : ℕ} (h : Inv s) (hs : s.loop = .insert x i) :
    Inv { s with tasks := Function.update s.tasks x.key (some i), loop := .idle } := by
  have hloop : LoopInv s.futs (.insert x i) := hs ▸ h.loop
  obtain ⟨hlen, f, hf, hfk⟩ := hloop
  have hins : ∀ j, Inserting s j → j = i := by rintro j ⟨y, hy⟩; rw [hs] at hy; cases hy; rfl
  refine ⟨?_, ?_, ?_, h.serial, trivial⟩
  · intro k j hj
    by_cases hk : k = x.key
    · subst hk
      simp only [Function.update_self, Option.some.injEq] at hj
      exact ⟨f, hj ▸ hf, hfk⟩
    · simp only [ne_eq, hk, not_false_eq_true, Function.update_of_ne] at hj
      exact h.entry k j hj
  · intro k j hj j' g hg hgk
    left
    have hlt : j' < s.futs.length := (List.getElem?_eq_some_iff.1 hg).1
    by_cases hk : k = x.key
    · subst hk
      simp only [Function.update_self, Option.some.injEq] at hj
      omega
    · simp only [ne_eq, hk, not_false_eq_true, Function.update_of_ne] at hj
      rcases h.newest k j hj j' g hg hgk with hle | hi
      · exact hle
      · -- the future being stored has the key of the loop's event
        rw [hins j' hi, hf] at hg
        cases hg
        exact absurd (hgk.symm.trans hfk) hk
  · intro j g hg ho hh
    left
    rcases h.held j g hg ho hh with ht | hi
    · by_cases hk : g.key = x.key
      · -- an older holder of the key would overlap with the future being stored
        have hlt : j < s.futs.length := (List.getElem?_eq_some_iff.1 hg).1
        rcases Nat.lt_or_ge j i with hji | hji
        · exact absurd ((g.phase.live_iff).2 (Or.inl hh)) (h.serial j i g f hji hg hf ho (hk.trans hfk.symm))
        · obtain rfl : j = i := by omega
          simp [hk]
      · simpa [hk] using ht
    · rw [hins j hi, hf] at hg
      cases hg
      simp [hfk, hins j hi]

theorem loopStep_inv (s : St) (h : Inv s) (hq : QuietLookup s .loop) : Inv (loopStep s) := by
  cases hs : s.loop with
  | idle => simpa [loopStep, hs] using h
  | getTask x =>
    have hins : ∀ j, ¬ Inserting s j := by rintro j ⟨y, hy⟩; rw [hs] at hy; cases hy
    cases ht : s.tasks x.key with
    | none =>
      simp only [loopStep, hs, ht]
      refine loop_inv h hins (fun ho hc j f hf hk hl => ?_)
      rcases (f.phase.live_iff).1 hl with hh | he
      · have := (h.held j f hf (isObject_of_key ho hk) hh).resolve_right (hins j)
        rw [hk, ht] at this
        cases this
      · simp only [QuietLookup, hs] at hq
        exact hq hc ht f (List.mem_of_getElem? hf) hk he
    | some i =>
      simp only [loopStep, hs, ht]
      refine loop_inv h hins (fun ho j f hf hk hl => ?_)
      obtain ⟨g, hg, hgk⟩ := h.entry x.key i ht
      have hle := (h.newest x.key i ht j f hf hk).resolve_right (hins j)
      rcases Nat.lt_or_ge j i with hji | hji
      · exact absurd hl (h.serial j i f g hji hf hg (isObject_of_key ho hk) (hk.trans hgk.symm))
      · omega
  | wait x i =>
    have hins : ∀ j, ¬ Inserting s j := by rintro j ⟨y, hy⟩; rw [hs] at hy; cases hy
    simp only [loopStep, hs]
    split_ifs with hfin
    · refine loop_inv h hins (fun ho j f hf hk hl => ?_)
      have hw : LoopInv s.futs (.wait x i) := hs ▸ h.loop
      obtain rfl := hw ho j f hf hk hl
      simp [isFinished, hf, hl] at hfin
    · exact h
  | removeTask x =>
    have hins : ∀ j, ¬ Inserting s j := by rintro j ⟨y, hy⟩; rw [hs] at hy; cases hy
    have hw : LoopInv s.futs (.removeTask x) := hs ▸ h.loop
    cases ht : s.tasks x.key with
    | none =>
      simp only [loopStep, hs, ht]
      exact loop_inv h hins (fun ho _ => hw ho)
    | some i =>
      simp only [loopStep, hs, ht]
      have ha : Inv (abort s i) := abort_inv i h
      have hloop : (abort s i).loop = .removeTask x := by unfold abort; split_ifs <;> exact hs
      have hw' : LoopInv (abort s i).futs (.removeTask x) := hloop ▸ ha.loop
      have hd : Inv (dropEntry (abort s i) x.key) := by
        refine dropEntry_inv ha (fun j g hg ho hk hh => ?_)
        exact hw' (isObject_of_key ho hk.symm) j g hg hk ((g.phase.live_iff).2 (Or.inl hh))
      refine loop_inv hd ?_ (fun ho _ => hw' ho)
      rintro j ⟨y, hy⟩
      change (abort s i).loop = _ at hy
      rw [hloop] at hy
      cases hy
  | create x =>
    cases ht : taskOf x.action x.actor with
    | none =>
      simp only [loopStep, hs, ht]
      exact loop_inv h (by rintro j ⟨y, hy⟩; rw [hs] at hy; cases hy) trivial
    | some t =>
      simp only [loopStep, hs, ht]
      exact spawn_inv h hs ht
  | insert x i =>
    simp only [loopStep, hs]
    exact store_inv h hs

theorem step_inv (s : St) (o : Op) (h : Inv s) (hq : QuietLookup s o) : Inv (step s o) := by
  cases o with
  | recv e => exact recv_inv s e h
  | loop => exact loopStep_inv s h hq
  | fut i p => exact pollFut_inv s i p h

/-! ## Main results -/

/-- **Per-object serialisation.** In every run in which no lookup of `wait_task` for an event that creates a task
comes back empty while the `on_error` of an earlier task of the key is running, a task of a cargo or VM executes no
step while an earlier task of its key has not ended, `on_error` included. -/
theorem task_serialised (ops : List Op) (hops : Along step QuietLookup init ops) : Along step SerialStep init ops :=
  along_of_inv step_inv (fun s o h _ => serialStep_of_inv s o h) inv_init hops

/-- the actor of the runs below -/
def web : EventActor := ⟨some "web.global", .cargo, []⟩

/-- a start that succeeds, then a stop of the same cargo, which waits for the start to end -/
def startThenStop : List Op :=
  [.recv ⟨.normal, "starting", some web⟩, .loop, .loop, .loop, .fut 0 .pending, .fut 0 .ok,
    .recv ⟨.normal, "stopping", some web⟩, .loop, .loop, .fut 0 .ok, .loop, .loop, .loop, .loop, .fut 1 .ok]

theorem task_serialised_startThenStop :
    Along step SerialStep init startThenStop ∧
      (run step init startThenStop).futs.map Fut.phase = [.finished, .completed] :=
  ⟨task_serialised startThenStop (by decide), by decide⟩

/-- a start that fails; while its `on_error` has not written the status yet, a stop of the same cargo arrives -/
def failThenStop : List Op :=
  [.recv ⟨.normal, "starting", some web⟩, .loop, .loop, .loop, .fut 0 .err, .fut 0 .ok,
    .recv ⟨.normal, "stopping", some web⟩, .loop, .loop]

/-- **The tasks of one cargo overlap.** The failed start has given up its entry, so the stop is spawned and runs while
the `on_error` of the start has its status write and its error event still to do. -/
theorem task_overlap : ¬ ∀ ops, Along step SerialStep init ops := by
  intro h
  have hstep : SerialStep (run step init failThenStop) (.fut 1 .pending) :=
    (along_iff step SerialStep init _).1 (h (failThenStop ++ [.fut 1 .pending])) failThenStop _ [] rfl
  have hfuts : (run step init failThenStop).futs =
      [⟨⟨web, .starting⟩, .start, .onErrorStatus⟩, ⟨⟨web, .stopping⟩, .stop, .body⟩] := by decide
  exact hstep 1 .pending ⟨⟨web, .stopping⟩, .stop, .body⟩ rfl (by rw [hfuts]; rfl) (by decide) (by decide) 0
    ⟨⟨web, .starting⟩, .start, .onErrorStatus⟩ (by decide) (by rw [hfuts]; rfl) rfl (by decide)

end Nanocl.TaskManager
