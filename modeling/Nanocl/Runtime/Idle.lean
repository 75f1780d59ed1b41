/-
Containers that do not run stay so until they are started.

- `Idling`: between two worlds a container that runs at the end ran before. Every step of a task that starts nothing keeps
  it (`steps_idling`).
- `StaysIdle`: the same of one container; the tasks that create nothing keep it, and so do the starts of other containers
  and the starts that docker refuses.
-/
import Nanocl.Runtime.StaysUp

namespace Nanocl.Runtime

open Nanocl.Lib

variable {E : Env} {S : Call → Prop} {w w' : World} {id : ContainerId}

def Running (w : World) (id : ContainerId) : Prop := ∃ c, w.docker.containers id = some c ∧ c.running = true

/-- the call starts no container -/
def Call.unstarting (c : Call) : Prop := ∀ ref, c ≠ .startContainer ref ∧ c ≠ .restartContainer ref

theorem Call.creating.unstarting {c : Call} (h : c.creating) : c.unstarting := by
  rintro ref
  constructor <;> rintro rfl <;> exact h.elim

/-- what runs after such a call ran before -/
theorem onContainer_unstarting {c : Call} (hc : c.unstarting) {x : Container} {code : ℤ} {x' : Option Container}
    (h : onContainer E c id x = .ok (code, x')) {y : Container} (hy : x' = some y) (hrun : y.running = true) :
    x.running = true := by
  subst hy
  cases c with
  | startContainer ref => exact absurd rfl (hc ref).1
  | restartContainer ref => exact absurd rfl (hc ref).2
  | removeContainer _ _ =>
    simp only [onContainer] at h
    split_ifs at h
    cases h
  | waitContainer _ =>
    simp only [onContainer] at h
    split_ifs at h with hx
    · exact hx
    · obtain ⟨-, heq⟩ := Prod.mk.inj (Except.ok.inj h)
      obtain rfl := Option.some.inj heq
      exact hrun
  | killContainer _ =>
    simp only [onContainer] at h
    split_ifs at h with hx
    exact hx
  | stopContainer _ =>
    obtain ⟨-, heq⟩ := Prod.mk.inj (Except.ok.inj h)
    obtain rfl := Option.some.inj heq
    rw [Container.ended_running] at hrun
    cases hrun
  | renameContainer _ _ =>
    obtain ⟨-, heq⟩ := Prod.mk.inj (Except.ok.inj h)
    obtain rfl := Option.some.inj heq
    exact hrun
  | _ =>
    obtain ⟨-, heq⟩ := Prod.mk.inj (Except.ok.inj h)
    obtain rfl := Option.some.inj heq
    exact hrun

theorem Running.of_call {c : Call} (hc : c.unstarting) {ref : Ref} {d : Docker} {y : Container}
    (hy : (d.call E c ref).2.containers id = some y) (hrun : y.running = true) :
    ∃ x, d.containers id = some x ∧ x.running = true := by
  rcases Docker.call_cases (E := E) c ref d with hd | ⟨i, x, code, x', hfind, hon, hd⟩
  · exact ⟨y, hd ▸ hy, hrun⟩
  · rw [hd] at hy
    by_cases he : id = i
    · subst he
      rw [Function.update_self] at hy
      exact ⟨x, Docker.containers_of_find hfind, onContainer_unstarting hc hon hy hrun⟩
    · rw [Function.update_of_ne he] at hy
      exact ⟨y, hy, hrun⟩

theorem Running.of_fewer (h : Fewer w w') (hrun : Running w' id) : Running w id := by
  obtain ⟨c, hc, hrun⟩ := hrun
  exact ⟨c, h id c hc, hrun⟩

/-- what runs ran before, and was created before -/
structure Idling (w w' : World) : Prop where
  nextId : w.docker.nextId ≤ w'.docker.nextId
  idle : ∀ id < w'.docker.nextId, Running w' id → id < w.docker.nextId ∧ Running w id

instance : IsPreorder World Idling where
  refl _ := ⟨le_rfl, fun _ hid h => ⟨hid, h⟩⟩
  trans _ _ _ h h' := by
    refine ⟨h.nextId.trans h'.nextId, fun id hid hrun => ?_⟩
    obtain ⟨hid, hrun⟩ := h'.idle id hid hrun
    exact h.idle id hid hrun

theorem Idling.of_fewer (hn : w'.docker.nextId = w.docker.nextId) (h : Fewer w w') : Idling w w' :=
  ⟨hn.ge, fun _ hid hrun => ⟨hn ▸ hid, hrun.of_fewer h⟩⟩

theorem idling_suspend : Prog.Keeps Idling (suspend E) := fun w =>
  .of_fewer (quiet_suspend w).nextId (fewer_suspend w)

theorem idling_createContainer (draw : ℕ) (name : String) (config : Config) :
    Prog.Keeps Idling (createContainer E draw name config) := by
  refine Prog.keeps_bind idling_suspend fun _ w => ?_
  rw [Prog.run_lift]
  unfold Docker.createContainer
  split
  · exact .of_fewer rfl fun _ _ h => h
  · refine ⟨Nat.le_succ _, fun id hid ⟨c, hc, hrun⟩ => ?_⟩
    by_cases he : id = w.docker.nextId
    · -- a container that was just created does not run
      simp only [Docker.record, Docker.setContainer, he, Function.update_self, Option.some.injEq] at hc
      rw [← hc] at hrun
      cases hrun
    · refine ⟨Nat.lt_of_le_of_ne (Nat.le_of_lt_succ hid) he, c, ?_, hrun⟩
      simpa [Docker.record, Docker.setContainer, he] using hc

theorem idling_inspectContainer (id : ContainerId) : Prog.Keeps Idling (inspectContainer E id) := by
  refine Prog.keeps_bind idling_suspend fun _ w => ?_
  rw [Prog.run_lift]
  unfold Docker.inspectContainer
  split <;> exact .of_fewer rfl fun _ _ h => h

theorem steps_idling : Steps E Call.unstarting Idling where
  suspend := idling_suspend
  call _ hc ref w := ⟨by simp, fun _ hid ⟨_, hy, hrun⟩ => ⟨by simpa using hid, Running.of_call hc hy hrun⟩⟩
  inert c _ w := by
    obtain ⟨hc, hn⟩ := callInert_containers (E := E) c w.docker
    exact .of_fewer hn fun id x hx => hc ▸ hx
  draw _ := .of_fewer rfl fun _ _ h => h
  create _ _ _ _ _ _ := Prog.keeps_bind (Steps.orThrow (idling_createContainer _ _ _)) fun _ =>
    Prog.keeps_bind (Steps.orThrow (idling_inspectContainer _)) fun _ =>
      Prog.keeps_bind (Prog.keeps_bind idling_suspend fun _ _ => .of_fewer rfl fun _ _ h => h) fun _ => Prog.keeps_pure _
  status _ _ _ := .of_fewer rfl fun _ _ h => h
  emit _ _ := .of_fewer rfl fun _ _ h => h

/-- a container that does not run is not started -/
def StaysIdle (id : ContainerId) (w w' : World) : Prop := Running w' id → Running w id

instance : IsPreorder World (StaysIdle id) where
  refl _ h := h
  trans _ _ _ h h' hrun := h (h' hrun)

/-- the call neither starts nor creates a container -/
def Call.resting : Call → Prop
  | .createContainer .. => False
  | c => c.unstarting

theorem Call.resting.unstarting {c : Call} (h : c.resting) : c.unstarting := by
  cases c with
  | createContainer _ _ => exact h.elim
  | _ => exact h

theorem framed_staysIdle : Framed E Call.resting (StaysIdle id) where
  suspend w h := h.of_fewer (fewer_suspend w)
  call _ hc _ _ := fun ⟨_, hy, hrun⟩ => Running.of_call hc.unstarting hy hrun
  inert c _ w := fun ⟨y, hy, hrun⟩ => ⟨y, (callInert_containers (E := E) c w.docker).1 ▸ hy, hrun⟩
  draw _ h := h
  create h := (h (.createContainer 0 "") trivial).elim
  status _ _ _ h := h
  emit _ _ h := h
  erase _ _ h := h
  defer _ _ h := h

/-- the start of another container leaves it, and so does one that docker refuses -/
theorem staysIdle_startProcess {p : ProcessDb} (h : p.key = id → E.fate (.startContainer (.id id)) ≠ none) :
    Prog.Keeps (StaysIdle id) (startProcess E p) := by
  intro w hrun
  by_cases hok : (startProcess E p w).1 = .ok ()
  · obtain ⟨hfate, hsome⟩ := startProcess_ok_iff.1 hok
    obtain ⟨c, hc⟩ := Option.isSome_iff_exists.1 hsome
    have hne : id ≠ p.key := by
      rintro rfl
      exact h rfl hfate
    rw [startProcess_run hfate hc] at hrun
    obtain ⟨y, hy, hrun⟩ := hrun
    refine Running.of_fewer (fewer_suspend (E := E) w) ⟨y, ?_, hrun⟩
    simpa [Docker.record, Docker.setContainer, hne] using hy
  · obtain ⟨e, found, hfailed⟩ := startProcess_failed (mt startProcess_ok_iff.2 hok)
    rw [hfailed] at hrun
    exact Running.of_fewer (fewer_suspend (E := E) w) hrun

end Nanocl.Runtime
