/-
The destruction of a job against its earlier tasks, over the runs of `TaskManager`.

The tasks of a job are not made to wait for each other, so a second start is stored over the first one, and a task that
ends removes whatever is stored, a newer task of its job included. The destruction aborts the task the map holds, and no
other.

Results:
- `destroyed_stops`: in every run in which each destruction of a job finds every live start or stop task of the job in
  the map (`DestroyReaches`), no start or stop task of a job executes a step once a destruction that came after it has
  been handled.
- `unreached_runs_on`: the condition is exact. From a state where it fails, two steps of the loop later the task that
  was not reached executes a step.
- `destroyed_runs_on`: two starts of a job, then its destruction: the first start runs on.
-/
import Nanocl.Tasks.TaskOrder

namespace Nanocl.TaskManager

open Nanocl.Lib

/-! ## Property and condition -/

/-- a start or a stop of the job -/
def Fut.jobWork (f : Fut) : Prop := f.exec.actor.kind = .job ∧ (f.task = .start ∨ f.task = .stop)

instance (f : Fut) : Decidable f.jobWork := by unfold Fut.jobWork; infer_instance

/-- a future of the destruction of its object -/
def Fut.destroys (g f : Fut) : Prop := g.key = f.key ∧ g.task = .delete

/-- future i executes no step if it is a start or a stop of a job whose destruction has been handled since -/
def DestroyedQuiet (s : St) (o : Op) : Prop :=
  ∀ i p (f : Fut), o = .fut i p → s.futs[i]? = some f → f.jobWork → f.phase.live →
    ∀ j (g : Fut), i < j → s.futs[j]? = some g → ¬ g.destroys f

/-- where the loop is about to abort the task of a job, the map holds every start and stop of the job that has not
ended -/
def DestroyReaches (s : St) : Op → Prop
  | .loop =>
    match s.loop with
    | .removeTask x => ∀ q ∈ s.futs.zipIdx, q.1.key = x.key → q.1.jobWork → q.1.phase.live → s.tasks x.key = some q.2
    | _ => True
  | _ => True

instance (s : St) : (o : Op) → Decidable (DestroyReaches s o)
  | .loop =>
    match hl : s.loop with
    | .removeTask x =>
      decidable_of_iff
        (∀ q ∈ s.futs.zipIdx, q.1.key = x.key → q.1.jobWork → q.1.phase.live → s.tasks x.key = some q.2)
        (by simp only [DestroyReaches, hl])
    | .idle | .getTask _ | .wait .. | .create _ | .insert .. => isTrue (by simp only [DestroyReaches, hl])
  | .recv _ | .fut .. => isTrue trivial

/-! ## Invariant -/

theorem taskOf_delete {action : NativeEventAction} {actor : EventActor} (h : taskOf action actor = some .delete) :
    action = .destroying := by
  unfold taskOf at h
  split at h
  · unfold starting at h
    split at h <;> cases h
  · unfold stopping at h
    split at h <;> cases h
  · unfold updating at h
    split at h <;> cases h
  · rfl
  · cases h

/-- no start or stop of the job of the event is live -/
def JobQuiet (futs : List Fut) (x : Exec) : Prop :=
  ∀ (i : ℕ) (f : Fut), futs[i]? = some f → f.key = x.key → f.jobWork → ¬ f.phase.live

/-- which events the loop waits for a task of, and which it removes a task for -/
structure LoopKinds (s : St) : Prop where
  waits : ∀ x, s.loop = .getTask x ∨ (∃ i, s.loop = .wait x i) → x.isObject
  removes : ∀ x, s.loop = .removeTask x → x.isObject ∨ (x.actor.kind = .job ∧ x.action = .destroying)

theorem loopKinds_init : LoopKinds init := by
  constructor <;> simp [init]

theorem recv_loopKinds (s : St) (e : Event) (h : LoopKinds s) : LoopKinds (recv s e) := by
  rcases recv_cases s e with ⟨heq, -⟩ | ⟨actor, -, -, -, -, ⟨hl, ho⟩ | ⟨hl, hk, ha⟩ | ⟨hl, -⟩⟩
  · rwa [heq]
  · refine ⟨fun x hx => ?_, fun x hx => ?_⟩
    · rcases hx with hx | ⟨i, hx⟩
      · rw [hl] at hx
        cases hx
        exact ho
      · rw [hl] at hx
        cases hx
    · rw [hl] at hx
      cases hx
  · refine ⟨fun x hx => ?_, fun x hx => ?_⟩
    · rcases hx with hx | ⟨i, hx⟩ <;> (rw [hl] at hx; cases hx)
    · rw [hl] at hx
      cases hx
      exact Or.inr ⟨hk, ha⟩
  · refine ⟨fun x hx => ?_, fun x hx => ?_⟩
    · rcases hx with hx | ⟨i, hx⟩ <;> (rw [hl] at hx; cases hx)
    · rw [hl] at hx
      cases hx

/-- the loop waits for the event whose task it looked up, and removes the one it waited for -/
theorem loopStep_kinds (s : St) (x : Exec) :
    ((loopStep s).loop = .getTask x ∨ (∃ i, (loopStep s).loop = .wait x i) →
      s.loop = .getTask x ∨ ∃ i, s.loop = .wait x i) ∧
    ((loopStep s).loop = .removeTask x → ∃ i, s.loop = .wait x i) := by
  cases hs : s.loop with
  | idle => simp [loopStep, hs]
  | getTask y => cases ht : s.tasks y.key <;> simp [loopStep, hs, ht]
  | wait y i =>
    simp only [loopStep, hs]
    split_ifs <;> simp [hs]
  | removeTask y => cases ht : s.tasks y.key <;> simp [loopStep, hs, ht]
  | create y => cases ht : taskOf y.action y.actor <;> simp [loopStep, hs, ht]
  | insert y i => simp [loopStep, hs]

theorem step_loopKinds (s : St) (o : Op) (h : LoopKinds s) : LoopKinds (step s o) := by
  cases o with
  | recv e => exact recv_loopKinds s e h
  | loop =>
    refine ⟨fun x hx => h.waits x ((loopStep_kinds s x).1 hx), fun x hx => Or.inl (h.waits x ?_)⟩
    exact Or.inr ((loopStep_kinds s x).2 hx)
  | fut i p =>
    have hl : (pollFut s i p).loop = s.loop := (pollFut_frame s i p).2
    exact ⟨by rw [step, hl]; exact h.waits, by rw [step, hl]; exact h.removes⟩

structure AbortInv (s : St) : Prop where
  /-- a start or stop of a job that was destroyed since has ended -/
  quiet : ∀ (i j : ℕ) (f g : Fut), i < j → s.futs[i]? = some f → s.futs[j]? = some g → g.destroys f → f.jobWork →
    ¬ f.phase.live
  /-- the same of the job whose destruction is about to be spawned -/
  create : ∀ x, s.loop = .create x → x.action = .destroying → JobQuiet s.futs x

theorem abortInv_init : AbortInv init := by
  constructor <;> simp [init]

/-- a live future moves on within its life, or ends -/
theorem setPhase_abortInv {s : St} {i : ℕ} {f : Fut} {p : Phase} (h : AbortInv s) (hf : s.futs[i]? = some f)
    (hlive : p.live → f.phase.live) : AbortInv (setPhase s i p) := by
  -- every future of the new state is one of the old state, no more alive
  have back : ∀ (j : ℕ) (g : Fut), (setPhase s i p).futs[j]? = some g → ∃ g' : Fut, s.futs[j]? = some g' ∧
      g'.exec = g.exec ∧ g'.task = g.task ∧ (g.phase.live → g'.phase.live) := by
    intro j g hg
    rcases getElem?_setPhase hg with ⟨g', hg', rfl, rfl⟩ | ⟨hg', -⟩
    · rw [hf] at hg'
      cases hg'
      exact ⟨f, hf, rfl, rfl, hlive⟩
    · exact ⟨g, hg', rfl, rfl, id⟩
  refine ⟨?_, ?_⟩
  · intro j k g g₂ hjk hg hg₂ hd hw hl
    obtain ⟨g', hg', he, ht, live⟩ := back j g hg
    obtain ⟨k', hk', he', ht', -⟩ := back k g₂ hg₂
    refine h.quiet j k g' k' hjk hg' hk' ⟨?_, ht'.trans hd.2⟩ ⟨by rw [he]; exact hw.1, by rw [ht]; exact hw.2⟩ (live hl)
    rw [Fut.key, Fut.key, he, he']
    exact hd.1
  · intro x hx ha j g hg hk hw hl
    obtain ⟨g', hg', he, ht, live⟩ := back j g hg
    refine h.create x hx ha j g' hg' ?_ ⟨by rw [he]; exact hw.1, by rw [ht]; exact hw.2⟩ (live hl)
    rw [Fut.key, he]
    exact hk

theorem pollFut_abortInv (s : St) (i : ℕ) (p : Poll) (h : AbortInv s) : AbortInv (pollFut s i p) := by
  unfold pollFut
  split
  · exact h
  · rename_i f hf
    have drop : AbortInv (dropEntry s f.key) := ⟨h.quiet, h.create⟩
    have end_inv : ∀ t : St, AbortInv t → t.futs[i]? = some f → AbortInv (setPhase t i .finished) :=
      fun t ht hft => setPhase_abortInv ht hft (fun hl => absurd rfl hl.1)
    split
    · rename_i hph
      exact setPhase_abortInv h hf (fun _ => by simp [hph, Phase.live])
    · rename_i hph
      exact setPhase_abortInv h hf (fun _ => by simp [hph, Phase.live])
    · exact end_inv _ drop hf
    · rename_i hph
      split
      · exact end_inv _ drop hf
      · exact setPhase_abortInv drop hf (fun _ => by simp [hph, Phase.live])
    · rename_i hph
      have h1 : AbortInv (setPhase s i .onErrorEmit) := setPhase_abortInv h hf (fun _ => by simp [hph, Phase.live])
      exact ⟨h1.quiet, h1.create⟩
    · exact end_inv s h hf
    · have h1 := end_inv s h hf
      split
      · exact h1
      · exact ⟨h1.quiet, h1.create⟩
    · exact h

theorem recv_abortInv (s : St) (e : Event) (h : AbortInv s) : AbortInv (recv s e) := by
  rcases recv_cases s e with ⟨heq, -⟩ | ⟨actor, -, -, hf, -, hl⟩
  · rwa [heq]
  · refine ⟨by rw [hf]; exact h.quiet, fun x hx ha => ?_⟩
    rcases hl with ⟨hl, -⟩ | ⟨hl, -, -⟩ | ⟨hl, -, hj⟩
    · rw [hl] at hx
      cases hx
    · rw [hl] at hx
      cases hx
    · -- an event that creates at once is no destruction of a job
      rw [hl] at hx
      cases hx
      intro i f _ hk hw _
      have hkind : actor.kind = f.exec.actor.kind := taskKey_kind hk.symm
      exact hj ⟨hkind.trans hw.1, ha⟩

/-- the loop moves on without touching the futures -/
theorem loop_abortInv {s : St} {l : Loop} {tasks : String → Option ℕ} (h : AbortInv s)
    (hl : ∀ x, l = .create x → x.action = .destroying → JobQuiet s.futs x) :
    AbortInv { s with tasks := tasks, loop := l } :=
  ⟨h.quiet, hl⟩

/-- an object that waited for its task has no start or stop of a job under its key -/
theorem jobQuiet_of_object {futs : List Fut} {x : Exec} (ho : x.isObject) : JobQuiet futs x := by
  intro i f _ hk hw _
  have hkind : x.actor.kind = f.exec.actor.kind := taskKey_kind hk.symm
  rcases ho with ho | ho <;> simp [hkind, hw.1] at ho

theorem spawn_abortInv {s : St} {x : Exec} {t : ObjTaskFuture} (h : AbortInv s) (hs : s.loop = .create x)
    (ht : taskOf x.action x.actor = some t) :
    AbortInv { s with futs := s.futs ++ [⟨x, t, .body⟩], loop := .insert x s.futs.length } := by
  refine ⟨?_, fun y hy => by cases hy⟩
  intro i j f g hij hf hg hd hw
  have hj : j < (s.futs ++ [(⟨x, t, .body⟩ : Fut)]).length := (List.getElem?_eq_some_iff.1 hg).1
  simp only [List.length_append, List.length_cons, List.length_nil, Nat.zero_add] at hj
  have hf' : s.futs[i]? = some f := by rwa [List.getElem?_append_left (by omega)] at hf
  rcases Nat.lt_or_ge j s.futs.length with hlt | hge
  · exact h.quiet i j f g hij hf' (by rwa [List.getElem?_append_left hlt] at hg) hd hw
  · -- the destruction is the one being spawned
    obtain rfl : j = s.futs.length := by omega
    simp only [List.getElem?_append_right (le_refl _), Nat.sub_self, List.getElem?_cons_zero, Option.some.injEq] at hg
    subst hg
    obtain ⟨hk, hdel⟩ := hd
    simp only at hdel
    subst hdel
    exact h.create x hs (taskOf_delete ht) i f hf' hk.symm hw

theorem abort_quiet {s : St} {x : Exec} {i : ℕ} (hi : s.tasks x.key = some i) (hq : DestroyReaches s .loop)
    (hs : s.loop = .removeTask x) : JobQuiet (abort s i).futs x := by
  intro j f hf hk hw hl
  simp only [DestroyReaches, hs] at hq
  have reached : ∀ (g : Fut), s.futs[j]? = some g → g.key = x.key → g.jobWork → g.phase.live → j = i := by
    intro g hg hgk hgw hgl
    have := hq (g, j) (List.mk_mem_zipIdx_iff_getElem?.2 hg) hgk hgw hgl
    rw [hi] at this
    exact (Option.some.inj this).symm
  unfold abort at hf
  split_ifs at hf with hfin
  · obtain rfl := reached f hf hk hw hl
    simp [isFinished, hf, hl] at hfin
  · rcases getElem?_setPhase hf with ⟨g, -, rfl, -⟩ | ⟨hg, hne⟩
    · exact hl.2 rfl
    · exact hne (reached f hg hk hw hl).symm

theorem abort_abortInv (s : St) (i : ℕ) (h : AbortInv s) : AbortInv (abort s i) := by
  unfold abort
  split_ifs with hfin
  · exact h
  · cases hf : s.futs[i]? with
    | none => simp [isFinished, hf] at hfin
    | some f => exact setPhase_abortInv h hf (fun hl => absurd rfl hl.2)

theorem loopStep_abortInv (s : St) (h : AbortInv s) (hkinds : LoopKinds s) (hq : DestroyReaches s .loop) :
    AbortInv (loopStep s) := by
  cases hs : s.loop with
  | idle => simpa [loopStep, hs] using h
  | getTask x =>
    cases ht : s.tasks x.key with
    | none =>
      simp only [loopStep, hs, ht]
      refine loop_abortInv h fun y hy _ => ?_
      cases hy
      exact jobQuiet_of_object (hkinds.waits x (Or.inl hs))
    | some i =>
      simp only [loopStep, hs, ht]
      exact loop_abortInv h (fun y hy => by cases hy)
  | wait x i =>
    simp only [loopStep, hs]
    split_ifs
    · exact loop_abortInv h (fun y hy => by cases hy)
    · exact h
  | removeTask x =>
    cases ht : s.tasks x.key with
    | none =>
      simp only [loopStep, hs, ht]
      refine loop_abortInv h fun y hy _ => ?_
      cases hy
      intro i f hf hk hw hl
      simp only [DestroyReaches, hs] at hq
      have := hq (f, i) (List.mk_mem_zipIdx_iff_getElem?.2 hf) hk hw hl
      rw [ht] at this
      cases this
    | some i =>
      simp only [loopStep, hs, ht]
      refine ⟨(abort_abortInv s i h).quiet, fun y hy _ => ?_⟩
      cases hy
      exact abort_quiet ht hq hs
  | create x =>
    cases ht : taskOf x.action x.actor with
    | none =>
      simp only [loopStep, hs, ht]
      exact loop_abortInv h (fun y hy => by cases hy)
    | some t =>
      simp only [loopStep, hs, ht]
      exact spawn_abortInv h hs ht
  | insert x i =>
    simp only [loopStep, hs]
    exact loop_abortInv h (fun y hy => by cases hy)

theorem step_abortInv (s : St) (o : Op) (h : AbortInv s ∧ LoopKinds s) (hq : DestroyReaches s o) :
    AbortInv (step s o) ∧ LoopKinds (step s o) := by
  refine ⟨?_, step_loopKinds s o h.2⟩
  cases o with
  | recv e => exact recv_abortInv s e h.1
  | loop => exact loopStep_abortInv s h.1 h.2 hq
  | fut i p => exact pollFut_abortInv s i p h.1

theorem destroyedQuiet_of_inv (s : St) (o : Op) (h : AbortInv s) : DestroyedQuiet s o := by
  intro i p f _ hf hw hl j g hij hg hd
  exact h.quiet i j f g hij hf hg hd hw hl

/-! ## Main results -/

/-- **A destroyed job is quiet.** In every run in which each destruction of a job finds every live start or stop of the
job in the map, no start or stop of a job executes a step once a later destruction of the job has been handled. -/
theorem destroyed_stops (ops : List Op) (hops : Along step DestroyReaches init ops) :
    Along step DestroyedQuiet init ops :=
  along_of_inv step_abortInv (fun s o h _ => destroyedQuiet_of_inv s o h.1) ⟨abortInv_init, loopKinds_init⟩ hops

theorem loopStep_create {s : St} {x : Exec} {t : ObjTaskFuture} (hs : s.loop = .create x)
    (ht : taskOf x.action x.actor = some t) :
    loopStep s = { s with futs := s.futs ++ [⟨x, t, .body⟩], loop := .insert x s.futs.length } := by
  simp only [loopStep, hs, ht]

/-- the two steps in which the loop aborts and spawns the destruction leave a future alone that the map does not hold -/
theorem unreached_after {s : St} {x : Exec} {i : ℕ} {f : Fut} (hs : s.loop = .removeTask x)
    (hx : x.actor.kind = .job ∧ x.action = .destroying) (hf : s.futs[i]? = some f) (ht : s.tasks x.key ≠ some i) :
    (run step s [.loop, .loop]).futs[i]? = some f ∧
      (run step s [.loop, .loop]).futs[s.futs.length]? = some ⟨x, .delete, .body⟩ := by
  have htask : taskOf x.action x.actor = some .delete := by simp [taskOf, hx.2, destroying, hx.1]
  obtain ⟨hlt, -⟩ := List.getElem?_eq_some_iff.1 hf
  -- after the first step the loop is about to spawn, and the future is still there
  have first : (loopStep s).loop = .create x ∧ (loopStep s).futs.length = s.futs.length ∧ (loopStep s).futs[i]? = some f := by
    cases hk : s.tasks x.key with
    | none => simp [loopStep, hs, hk, hf]
    | some j =>
      have hji : j ≠ i := fun h => ht (h ▸ hk)
      simp only [loopStep, hs, hk, dropEntry_futs, true_and]
      unfold abort
      split_ifs
      · exact ⟨rfl, hf⟩
      · exact ⟨by simp [setPhase], by simp [setPhase, hji, hf]⟩
  obtain ⟨hl, hlen, hfi⟩ := first
  simp only [run_cons, run_nil, step]
  rw [loopStep_create hl htask]
  refine ⟨?_, by simp [← hlen]⟩
  rw [List.getElem?_append_left (by omega)]
  exact hfi

/-- **The condition is exact.** Where a destruction does not find a live start or stop of the job in the map, that task
executes a step right after the destruction has been handled. -/
theorem unreached_runs_on (ops : List Op) (h : ¬ DestroyReaches (run step init ops) .loop) :
    ∃ i, ¬ Along step DestroyedQuiet init (ops ++ [.loop, .loop, .fut i .pending]) := by
  have hkinds : LoopKinds (run step init ops) :=
    inv_run (fun s o h _ => step_loopKinds s o h) loopKinds_init (along_true step init ops)
  generalize hs : run step init ops = s at h hkinds
  have hloop : ∃ x, s.loop = .removeTask x := by
    unfold DestroyReaches at h
    cases hl : s.loop <;> simp [hl] at h ⊢
  obtain ⟨x, hx⟩ := hloop
  simp only [DestroyReaches, hx, not_forall] at h
  obtain ⟨⟨f, i⟩, hmem, hk, hw, hl, ht⟩ := h
  have hf : s.futs[i]? = some f := List.mk_mem_zipIdx_iff_getElem?.1 hmem
  have hkind : f.exec.actor.kind = x.actor.kind := taskKey_kind hk
  have hdestroy : x.actor.kind = .job ∧ x.action = .destroying := by
    refine (hkinds.removes x hx).resolve_left fun ho => ?_
    exact jobQuiet_of_object ho i f hf hk hw hl
  obtain ⟨hfi, hdel⟩ := unreached_after hx hdestroy hf ht
  refine ⟨i, fun hall => ?_⟩
  have hlast := (along_iff step DestroyedQuiet init _).1 hall (ops ++ [.loop, .loop]) (.fut i .pending) [] (by simp)
  rw [run_append, hs] at hlast
  exact hlast i .pending f rfl hfi hw hl s.futs.length _ (List.getElem?_eq_some_iff.1 hf).1 hdel ⟨hk.symm, rfl⟩

/-- the actor of the runs below -/
def build : EventActor := ⟨some "build", .job, []⟩

/-- a start of a job, which is stored, then its destruction, which aborts it -/
def startThenDestroy : List Op :=
  [.recv ⟨.normal, "starting", some build⟩, .loop, .loop, .fut 0 .pending,
    .recv ⟨.normal, "destroying", some build⟩, .loop, .loop, .loop, .fut 0 .pending, .fut 1 .ok]

theorem destroyed_stops_startThenDestroy :
    Along step DestroyedQuiet init startThenDestroy ∧
      (run step init startThenDestroy).futs.map Fut.phase = [.aborted, .completed] :=
  ⟨destroyed_stops startThenDestroy (by decide), by decide⟩

/-- two starts of a job, then its destruction, which aborts the second -/
def startTwiceThenDestroy : List Op :=
  [.recv ⟨.normal, "starting", some build⟩, .loop, .loop, .recv ⟨.normal, "starting", some build⟩, .loop, .loop,
    .recv ⟨.normal, "destroying", some build⟩, .loop, .loop, .loop]

/-- **The first start runs on.** The second start was stored over it, so the destruction does not find it. -/
theorem destroyed_runs_on : ¬ ∀ ops, Along step DestroyedQuiet init ops := by
  intro h
  have hstep : DestroyedQuiet (run step init startTwiceThenDestroy) (.fut 0 .pending) :=
    (along_iff step DestroyedQuiet init _).1 (h (startTwiceThenDestroy ++ [.fut 0 .pending])) startTwiceThenDestroy _ [] rfl
  have hfuts : (run step init startTwiceThenDestroy).futs =
      [⟨⟨build, .starting⟩, .start, .body⟩, ⟨⟨build, .starting⟩, .start, .aborted⟩,
        ⟨⟨build, .destroying⟩, .delete, .body⟩] := by decide
  exact hstep 0 .pending ⟨⟨build, .starting⟩, .start, .body⟩ rfl (by rw [hfuts]; rfl) (by decide) (by decide) 2
    ⟨⟨build, .destroying⟩, .delete, .body⟩ (by decide) (by rw [hfuts]; rfl) ⟨rfl, rfl⟩

end Nanocl.TaskManager
