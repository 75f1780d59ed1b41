/-
The tasks of cargoes and VMs against the events they are created for, over the runs of `TaskManager`.

`wait_task` aborts and removes whatever the map holds under the key once the task it waited for has ended. The event loop
is the only one that stores entries, so between the lookup and the removal an entry of the key can only disappear: what
is aborted is the task that was waited for, which has ended.

Results:
- `exactly_once`: in every run the futures spawned for cargoes and VMs are, in order, one for each event the loop has
  taken for them with action starting, stopping, updating or destroying, which runs the task of that action, up to the
  event it is handling; none of them is ever aborted; and once every spawned future has ended the loop finishes the event
  it is handling within five steps.
-/
import Nanocl.Tasks.TaskManager

namespace Nanocl.TaskManager

open Nanocl.Lib

/-! ## Events and the futures spawned for them -/

/-- the task that an action asks for; the other actions ask for none -/
def wantedTask : NativeEventAction → Option ObjTaskFuture
  | .starting => some .start
  | .stopping => some .stop
  | .updating => some .update
  | .destroying => some .delete
  | _ => none

/-- the event with its task, if it is one of a cargo or a VM that asks for one -/
def Exec.wanted (x : Exec) : List (Exec × ObjTaskFuture) :=
  if x.isObject then (wantedTask x.action).toList.map fun t => (x, t) else []

/-- an event of a cargo or a VM that asks for a task -/
def Exec.isObjectTask (x : Exec) : Prop := x.isObject ∧ wantedTask x.action ≠ none

instance (x : Exec) : Decidable x.isObjectTask := by unfold Exec.isObjectTask; infer_instance

theorem map_fst_wanted (l : List Exec) : (l.flatMap Exec.wanted).map Prod.fst = l.filter fun x => x.isObjectTask := by
  induction l with
  | nil => rfl
  | cons x l ih =>
    rw [List.flatMap_cons, List.map_append, ih, List.filter_cons]
    by_cases ho : x.isObject
    · cases ht : wantedTask x.action <;> simp [Exec.wanted, Exec.isObjectTask, ho, ht]
    · simp [Exec.wanted, Exec.isObjectTask, ho]

/-- `exec_event` builds for a cargo or a VM the task that its action asks for -/
theorem taskOf_eq_wantedTask {x : Exec} (h : x.isObject) : taskOf x.action x.actor = wantedTask x.action := by
  obtain ⟨⟨key, kind, attributes⟩, action⟩ := x
  rcases h with rfl | rfl
  · cases action <;> rfl
  · cases action <;> rfl

/-- the loop is idle and acts on the event -/
def takes (s : St) (e : Event) : Option Exec :=
  match s.loop, e.kind, e.actor with
  | .idle, .normal, some actor => some ⟨actor, .fromStr e.action⟩
  | _, _, _ => none

/-- the event that the loop takes with an operation -/
def taken (s : St) : Op → Option Exec
  | .recv e => takes s e
  | _ => none

/-- the tasks asked for by the events that the loop takes along a run, in order -/
def objectEvents (s : St) : List Op → List (Exec × ObjTaskFuture)
  | [] => []
  | o :: ops => (taken s o).toList.flatMap Exec.wanted ++ objectEvents (step s o) ops

/-- the event that the loop is handling and has not spawned a future for -/
def Loop.pending : Loop → Option Exec
  | .idle | .insert _ _ => none
  | .getTask x | .wait x _ | .removeTask x | .create x => some x

/-- the task that this event asks for -/
def Loop.objectPending (l : Loop) : List (Exec × ObjTaskFuture) := l.pending.toList.flatMap Exec.wanted

/-- the future's event, with the task that it runs -/
def Fut.job (f : Fut) : Exec × ObjTaskFuture := (f.exec, f.task)

/-- the events and tasks of the futures spawned for cargoes and VMs, oldest first -/
def objectSpawned (s : St) : List (Exec × ObjTaskFuture) := (s.futs.map Fut.job).filter fun j => j.1.isObject

@[simp] theorem jobs_setPhase (s : St) (i : ℕ) (p : Phase) : (setPhase s i p).futs.map Fut.job = s.futs.map Fut.job := by
  apply List.ext_getElem?
  intro j
  by_cases hij : i = j
  · subst hij
    cases hf : s.futs[i]? <;> simp [setPhase, hf, Fut.job]
  · simp [setPhase, hij]

@[simp] theorem jobs_abort (s : St) (i : ℕ) : (abort s i).futs.map Fut.job = s.futs.map Fut.job := by
  unfold abort
  split_ifs <;> simp

@[simp] theorem dropEntry_futs (s : St) (k : String) : (dropEntry s k).futs = s.futs := rfl

/-- polling a future neither spawns one nor moves the loop -/
theorem pollFut_frame (s : St) (i : ℕ) (p : Poll) :
    (pollFut s i p).futs.map Fut.job = s.futs.map Fut.job ∧ (pollFut s i p).loop = s.loop := by
  unfold pollFut
  split
  · exact ⟨rfl, rfl⟩
  · split
    · exact ⟨jobs_setPhase _ _ _, rfl⟩
    · exact ⟨jobs_setPhase _ _ _, rfl⟩
    · exact ⟨jobs_setPhase _ _ _, rfl⟩
    · split <;> exact ⟨jobs_setPhase _ _ _, rfl⟩
    · exact ⟨jobs_setPhase _ _ _, rfl⟩
    · exact ⟨jobs_setPhase _ _ _, rfl⟩
    · split <;> exact ⟨jobs_setPhase _ _ _, rfl⟩
    · exact ⟨rfl, rfl⟩

/-- the event loop takes an event, or the event is not one it acts on -/
theorem recv_cases (s : St) (e : Event) :
    (recv s e = s ∧ takes s e = none) ∨
    ∃ actor, s.loop = .idle ∧ takes s e = some ⟨actor, .fromStr e.action⟩ ∧ (recv s e).futs = s.futs ∧
      (recv s e).tasks = s.tasks ∧
      (((recv s e).loop = .getTask ⟨actor, .fromStr e.action⟩ ∧ (⟨actor, .fromStr e.action⟩ : Exec).isObject) ∨
        ((recv s e).loop = .removeTask ⟨actor, .fromStr e.action⟩ ∧ actor.kind = .job ∧
          NativeEventAction.fromStr e.action = .destroying) ∨
        ((recv s e).loop = .create ⟨actor, .fromStr e.action⟩ ∧ ¬ (⟨actor, .fromStr e.action⟩ : Exec).isObject ∧
          ¬ (actor.kind = .job ∧ NativeEventAction.fromStr e.action = .destroying))) := by
  unfold recv
  split
  · rename_i actor hs hk ha
    right
    refine ⟨actor, hs, by simp only [takes, hs, hk, ha], ?_⟩
    dsimp only
    split
    · rename_i hkind
      exact ⟨rfl, rfl, Or.inl ⟨rfl, Or.inl hkind⟩⟩
    · rename_i hkind
      exact ⟨rfl, rfl, Or.inl ⟨rfl, Or.inr hkind⟩⟩
    · rename_i hkind haction
      exact ⟨rfl, rfl, Or.inr (Or.inl ⟨rfl, hkind, haction⟩)⟩
    · rename_i hc hv hj
      exact ⟨rfl, rfl, Or.inr (Or.inr ⟨rfl, fun ho => ho.elim hc hv, fun h => hj h.1 h.2⟩)⟩
  · rename_i hno
    refine Or.inl ⟨rfl, ?_⟩
    unfold takes
    split
    · rename_i actor hs hk ha
      exact absurd ha (hno actor hs hk)
    · rfl

/-- a step of the loop spawns the future of the event it was handling, or nothing -/
theorem loopStep_spawned (s : St) :
    objectSpawned (loopStep s) ++ (loopStep s).loop.objectPending = objectSpawned s ++ s.loop.objectPending := by
  cases hs : s.loop with
  | idle => simp [loopStep, hs]
  | getTask x =>
    simp only [loopStep, hs]
    cases s.tasks x.key <;> rfl
  | wait x i =>
    simp only [loopStep, hs]
    split_ifs
    · rfl
    · rw [hs]
  | removeTask x =>
    simp only [loopStep, hs]
    cases s.tasks x.key with
    | none => rfl
    | some i => simp [objectSpawned, Loop.objectPending, Loop.pending]
  | create x =>
    simp only [loopStep, hs]
    by_cases ho : x.isObject
    · rw [taskOf_eq_wantedTask ho]
      cases ht : wantedTask x.action with
      | none => simp [objectSpawned, Loop.objectPending, Loop.pending, Exec.wanted, ht]
      | some t => simp [objectSpawned, Loop.objectPending, Loop.pending, Exec.wanted, ht, ho, Fut.job]
    · cases taskOf x.action x.actor with
      | none => simp [objectSpawned, Loop.objectPending, Loop.pending, Exec.wanted, ho]
      | some t => simp [objectSpawned, Loop.objectPending, Loop.pending, Exec.wanted, ho, Fut.job]
  | insert x i => simp [loopStep, hs, objectSpawned, Loop.objectPending, Loop.pending]

theorem step_spawned (s : St) (o : Op) :
    objectSpawned (step s o) ++ (step s o).loop.objectPending =
      objectSpawned s ++ s.loop.objectPending ++ (taken s o).toList.flatMap Exec.wanted := by
  cases o with
  | recv e =>
    rcases recv_cases s e with ⟨h, ht⟩ | ⟨actor, hs, ht, hf, -, hl⟩
    · simp [step, h, taken, ht]
    · have hspawned : objectSpawned (recv s e) = objectSpawned s := by rw [objectSpawned, hf, objectSpawned]
      have hp : (recv s e).loop.pending = some ⟨actor, .fromStr e.action⟩ := by
        rcases hl with ⟨hl, -⟩ | ⟨hl, -⟩ | ⟨hl, -⟩ <;> rw [hl] <;> rfl
      rw [step, hspawned, taken, ht, Loop.objectPending, hp, Loop.objectPending, hs]
      simp [Loop.pending]
  | loop => simpa [step, taken] using loopStep_spawned s
  | fut i p =>
    obtain ⟨hf, hl⟩ := pollFut_frame s i p
    simp [step, objectSpawned, hf, hl, taken]

theorem run_spawned (s : St) (ops : List Op) :
    objectSpawned (run step s ops) ++ (run step s ops).loop.objectPending =
      objectSpawned s ++ s.loop.objectPending ++ objectEvents s ops := by
  induction ops generalizing s with
  | nil => simp [objectEvents]
  | cons o ops ih => rw [run_cons, ih, step_spawned, objectEvents, List.append_assoc]

/-! ## No abort -/

/-- what is known about the map where the event loop is suspended -/
def MapInv (s : St) : Loop → Prop
  | .wait x i => ∀ j, s.tasks x.key = some j → j = i
  | .removeTask x => x.isObject → ∀ j, s.tasks x.key = some j → isFinished s j = true
  | .insert x i => ∃ f : Fut, s.futs[i]? = some f ∧ f.key = x.key
  | .idle | .getTask _ | .create _ => True

structure NoAbort (s : St) : Prop where
  /-- an entry names a future of its key -/
  entry : ∀ k i, s.tasks k = some i → ∃ f : Fut, s.futs[i]? = some f ∧ f.key = k
  /-- no future of a cargo or VM is aborted -/
  phase : ∀ (i : ℕ) (f : Fut), s.futs[i]? = some f → f.exec.isObject → f.phase ≠ .aborted
  loop : MapInv s s.loop

theorem noAbort_init : NoAbort init := by
  constructor <;> simp [init, MapInv]

/-- a future that has ended stays so when a live one moves -/
theorem isFinished_setPhase {s : St} {i j : ℕ} {f : Fut} {p : Phase} (hf : s.futs[i]? = some f) (hl : f.phase.live)
    (h : isFinished s j = true) : isFinished (setPhase s i p) j = true := by
  have hij : i ≠ j := by
    rintro rfl
    simp [isFinished, hf, hl] at h
  simpa [isFinished, setPhase, hij] using h

theorem setPhase_noAbort {s : St} {i : ℕ} {f : Fut} {p : Phase} (h : NoAbort s) (hf : s.futs[i]? = some f)
    (hl : f.phase.live) (hp : f.exec.isObject → p ≠ .aborted) : NoAbort (setPhase s i p) := by
  refine ⟨?_, ?_, ?_⟩
  · intro k j hj
    obtain ⟨g, hg, hk⟩ := h.entry k j hj
    obtain ⟨g', hg', hk'⟩ := exists_getElem?_setPhase i p hg
    exact ⟨g', hg', hk'.trans hk⟩
  · intro j g hg ho
    rcases getElem?_setPhase hg with ⟨g', hg', rfl, rfl⟩ | ⟨hg', -⟩
    · rw [hf] at hg'
      cases hg'
      exact hp ho
    · exact h.phase j g hg' ho
  · have hm := h.loop
    change MapInv (setPhase s i p) s.loop
    cases hs : s.loop with
    | idle => trivial
    | getTask x => trivial
    | wait x n =>
      rw [hs] at hm
      exact hm
    | removeTask x =>
      rw [hs] at hm
      exact fun ho j hj => isFinished_setPhase hf hl (hm ho j hj)
    | create x => trivial
    | insert x n =>
      rw [hs] at hm
      obtain ⟨g, hg, hk⟩ := hm
      obtain ⟨g', hg', hk'⟩ := exists_getElem?_setPhase i p hg
      exact ⟨g', hg', hk'.trans hk⟩

theorem tasks_of_dropEntry {s : St} {k k' : String} {i : ℕ} (h : (dropEntry s k).tasks k' = some i) :
    s.tasks k' = some i := by
  by_cases he : k' = k
  · simp [dropEntry, he] at h
  · simpa [dropEntry, he] using h

theorem dropEntry_noAbort {s : St} (k : String) (h : NoAbort s) : NoAbort (dropEntry s k) := by
  refine ⟨fun k' i hi => h.entry k' i (tasks_of_dropEntry hi), h.phase, ?_⟩
  have hm := h.loop
  change MapInv (dropEntry s k) s.loop
  cases hs : s.loop with
  | idle => trivial
  | getTask x => trivial
  | wait x n =>
    rw [hs] at hm
    exact fun j hj => hm j (tasks_of_dropEntry hj)
  | removeTask x =>
    rw [hs] at hm
    exact fun ho j hj => hm ho j (tasks_of_dropEntry hj)
  | create x => trivial
  | insert x n =>
    rw [hs] at hm
    exact hm

theorem pollFut_noAbort (s : St) (i : ℕ) (p : Poll) (h : NoAbort s) : NoAbort (pollFut s i p) := by
  unfold pollFut
  split
  · exact h
  · rename_i f hf
    have drop := dropEntry_noAbort f.key h
    split
    · rename_i hph
      exact setPhase_noAbort h hf (by simp [hph, Phase.live]) (by simp)
    · rename_i hph
      exact setPhase_noAbort h hf (by simp [hph, Phase.live]) (by simp)
    · rename_i hph
      exact setPhase_noAbort drop hf (by simp [hph, Phase.live]) (by simp)
    · rename_i hph
      split <;> exact setPhase_noAbort drop hf (by simp [hph, Phase.live]) (by simp)
    · rename_i hph
      have h1 : NoAbort (setPhase s i .onErrorEmit) := setPhase_noAbort h hf (by simp [hph, Phase.live]) (by simp)
      exact ⟨h1.entry, h1.phase, h1.loop⟩
    · rename_i hph
      exact setPhase_noAbort h hf (by simp [hph, Phase.live]) (by simp)
    · rename_i hph
      have h1 : NoAbort (setPhase s i .finished) := setPhase_noAbort h hf (by simp [hph, Phase.live]) (by simp)
      split
      · exact h1
      · exact ⟨h1.entry, h1.phase, h1.loop⟩
    · exact h

/-- aborting what the map holds for an event does not touch a cargo or a VM: either the event is about a job, or the
future has ended -/
theorem abort_noAbort {s : St} {x : Exec} {i : ℕ} (h : NoAbort s) (hs : s.loop = .removeTask x)
    (hi : s.tasks x.key = some i) : NoAbort (abort s i) := by
  unfold abort
  split_ifs with hfin
  · exact h
  · obtain ⟨f, hf, hk⟩ := h.entry x.key i hi
    have hm : MapInv s (.removeTask x) := hs ▸ h.loop
    refine setPhase_noAbort h hf (by simpa [isFinished, hf] using hfin) fun ho => ?_
    exact absurd (hm (isObject_of_key ho hk.symm) i hi) hfin

theorem recv_noAbort (s : St) (e : Event) (h : NoAbort s) : NoAbort (recv s e) := by
  rcases recv_cases s e with ⟨heq, -⟩ | ⟨actor, hs, -, hf, ht, hl⟩
  · rwa [heq]
  · refine ⟨by rw [ht, hf]; exact h.entry, by rw [hf]; exact h.phase, ?_⟩
    rcases hl with ⟨hl, -⟩ | ⟨hl, hj, -⟩ | ⟨hl, -⟩
    · rw [hl]
      trivial
    · rw [hl]
      exact fun ho => by rcases ho with ho | ho <;> simp [hj] at ho
    · rw [hl]
      trivial

theorem loopStep_noAbort (s : St) (h : NoAbort s) : NoAbort (loopStep s) := by
  have hm := h.loop
  cases hs : s.loop with
  | idle => simpa [loopStep, hs] using h
  | getTask x =>
    cases ht : s.tasks x.key with
    | none =>
      simp only [loopStep, hs, ht]
      exact ⟨h.entry, h.phase, trivial⟩
    | some i =>
      simp only [loopStep, hs, ht]
      refine ⟨h.entry, h.phase, fun j hj => ?_⟩
      change s.tasks x.key = some j at hj
      rw [ht] at hj
      exact (Option.some.inj hj).symm
  | wait x i =>
    rw [hs] at hm
    simp only [loopStep, hs]
    split_ifs with hfin
    · exact ⟨h.entry, h.phase, fun _ j hj => (hm j hj).symm ▸ hfin⟩
    · exact h
  | removeTask x =>
    cases ht : s.tasks x.key with
    | none =>
      simp only [loopStep, hs, ht]
      exact ⟨h.entry, h.phase, trivial⟩
    | some i =>
      simp only [loopStep, hs, ht]
      have hd := dropEntry_noAbort x.key (abort_noAbort h hs ht)
      exact ⟨hd.entry, hd.phase, trivial⟩
  | create x =>
    cases ht : taskOf x.action x.actor with
    | none =>
      simp only [loopStep, hs, ht]
      exact ⟨h.entry, h.phase, trivial⟩
    | some t =>
      simp only [loopStep, hs, ht]
      refine ⟨fun k i hi => ?_, fun i f hf ho => ?_, ⟨⟨x, t, .body⟩, by simp, rfl⟩⟩
      · obtain ⟨f, hf, hk⟩ := h.entry k i hi
        obtain ⟨hlt, -⟩ := List.getElem?_eq_some_iff.1 hf
        exact ⟨f, by simpa [List.getElem?_append_left hlt] using hf, hk⟩
      · rcases List.mem_append.1 (List.mem_of_getElem? hf) with hmem | hmem
        · obtain ⟨j, hj⟩ := List.mem_iff_getElem?.1 hmem
          exact h.phase j f hj ho
        · obtain rfl := List.mem_singleton.1 hmem
          simp
  | insert x i =>
    rw [hs] at hm
    simp only [loopStep, hs]
    refine ⟨fun k j hj => ?_, h.phase, trivial⟩
    by_cases hk : k = x.key
    · subst hk
      simp only [Function.update_self, Option.some.injEq] at hj
      exact hj ▸ hm
    · simp only [ne_eq, hk, not_false_eq_true, Function.update_of_ne] at hj
      exact h.entry k j hj

theorem step_noAbort (s : St) (o : Op) (h : NoAbort s) : NoAbort (step s o) := by
  cases o with
  | recv e => exact recv_noAbort s e h
  | loop => exact loopStep_noAbort s h
  | fut i p => exact pollFut_noAbort s i p h

/-! ## Progress -/

/-- where the loop stands after the event it is handling, counted in steps -/
def Loop.left : Loop → ℕ
  | .idle => 0
  | .insert _ _ => 1
  | .create _ => 2
  | .removeTask _ => 3
  | .wait _ _ => 4
  | .getTask _ => 5

/-- the loop is not held up: it is not waiting, or what it waits for has ended -/
def Unblocked (s : St) : Prop := (∀ i, isFinished s i = true) ∨ s.loop.left < 4

theorem loopStep_left {s : St} (h : Unblocked s) : (loopStep s).loop.left ≤ s.loop.left - 1 ∧ Unblocked (loopStep s) := by
  cases hs : s.loop with
  | idle => exact ⟨by simp [loopStep, hs, Loop.left], by simpa [loopStep, hs] using h⟩
  | getTask x =>
    have hall : ∀ i, isFinished s i = true := h.resolve_right (by simp [hs, Loop.left])
    cases ht : s.tasks x.key with
    | none => exact ⟨by simp [loopStep, hs, ht, Loop.left], Or.inr (by simp [loopStep, hs, ht, Loop.left])⟩
    | some i =>
      refine ⟨by simp [loopStep, hs, ht, Loop.left], Or.inl ?_⟩
      simp only [loopStep, hs, ht]
      exact hall
  | wait x i =>
    have hall : ∀ i, isFinished s i = true := h.resolve_right (by simp [hs, Loop.left])
    exact ⟨by simp [loopStep, hs, hall, Loop.left], Or.inr (by simp [loopStep, hs, hall, Loop.left])⟩
  | removeTask x =>
    cases ht : s.tasks x.key with
    | none => exact ⟨by simp [loopStep, hs, ht, Loop.left], Or.inr (by simp [loopStep, hs, ht, Loop.left])⟩
    | some i => exact ⟨by simp [loopStep, hs, ht, Loop.left], Or.inr (by simp [loopStep, hs, ht, Loop.left])⟩
  | create x =>
    cases ht : taskOf x.action x.actor with
    | none => exact ⟨by simp [loopStep, hs, ht, Loop.left], Or.inr (by simp [loopStep, hs, ht, Loop.left])⟩
    | some t => exact ⟨by simp [loopStep, hs, ht, Loop.left], Or.inr (by simp [loopStep, hs, ht, Loop.left])⟩
  | insert x i => exact ⟨by simp [loopStep, hs, Loop.left], Or.inr (by simp [loopStep, hs, Loop.left])⟩

theorem loop_finishes {s : St} (h : Unblocked s) (n : ℕ) :
    (run step s (List.replicate n .loop)).loop.left ≤ s.loop.left - n := by
  induction n generalizing s with
  | zero => simp
  | succ n ih =>
    obtain ⟨hle, hu⟩ := loopStep_left h
    have := ih hu
    rw [List.replicate_succ, run_cons, step]
    omega

theorem Loop.eq_idle {l : Loop} (h : l.left = 0) : l = .idle := by
  cases l <;> simp [left] at h ⊢

/-! ## Main result -/

/-- **Exactly once, in order, unaborted.** In every run the futures spawned for cargoes and VMs are, in order, one for
each event that the loop has taken for them with action starting, stopping, updating or destroying, running the task that
the action asks for, up to the event it is handling. None of them is aborted. Once every spawned future has ended, the
loop is through with the event it is handling within five steps. -/
theorem exactly_once (ops : List Op) :
    objectSpawned (run step init ops) ++ (run step init ops).loop.objectPending = objectEvents init ops ∧
    (∀ (i : ℕ) (f : Fut), (run step init ops).futs[i]? = some f → f.exec.isObject → f.phase ≠ .aborted) ∧
    ((∀ i, isFinished (run step init ops) i = true) →
      (run step (run step init ops) (List.replicate 5 .loop)).loop = .idle) := by
  refine ⟨?_, ?_, fun hall => ?_⟩
  · simpa [init, objectSpawned, Loop.objectPending, Loop.pending] using run_spawned init ops
  · exact (inv_run (fun s o h _ => step_noAbort s o h) noAbort_init (along_true step init ops)).phase
  · apply Loop.eq_idle
    have hle := loop_finishes (Or.inl hall) 5
    have hmax : (run step init ops).loop.left ≤ 5 := by cases (run step init ops).loop <;> simp [Loop.left]
    omega

example : objectSpawned (run step init startThenStop) = [(⟨web, .starting⟩, .start), (⟨web, .stopping⟩, .stop)] := by
  decide

end Nanocl.TaskManager
