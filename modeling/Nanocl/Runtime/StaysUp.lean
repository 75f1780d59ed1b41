/-
Containers that stay up while a task runs.

- `StaysUp`: between two worlds the containers below an id that run go on running, unless a removal that was spawned
  before takes them away or docker is asked to stop them by a name; what is gone stays gone.
- `steps_staysUp`: each step of a task that removes nothing and stops nothing by its id keeps it.
- `startProcess_up`: an instance that was started runs.
-/
import Nanocl.Runtime.Instances

namespace Nanocl.Runtime

open Nanocl.Lib

variable {E : Env} {S : Call → Prop} {key : String} {b : ContainerId} {w w' : World}

/-! ## Containers that stay up -/

/-- the container runs, with this configuration -/
def Up (w : World) (id : ContainerId) (config : Config) : Prop :=
  ∃ c, w.docker.containers id = some c ∧ c.running = true ∧ c.config = config

/-- docker was asked to stop it by a name, and did -/
def StoppedByName (w w' : World) (id : ContainerId) : Prop := ∃ name, Done w w' (.stopContainer (.name name)) id

/-- the calls are in `S`, and the containers below `b` that run stay up, but for removals spawned before and stops by a
name -/
structure StaysUp (E : Env) (S : Call → Prop) (b : ContainerId) (w w' : World) : Prop where
  logs : Logs E S w w'
  nextId : w.docker.nextId ≤ w'.docker.nextId
  removals : ∀ r ∈ w'.removals, ∃ r' ∈ w.removals, r'.id = r.id
  gone : b ≤ w.docker.nextId → ∀ id < b, w.docker.containers id = none → w'.docker.containers id = none
  up : b ≤ w.docker.nextId → ∀ id < b, ∀ config, Up w id config →
    Up w' id config ∨ ((∃ r ∈ w.removals, r.id = id) ∧ w'.docker.containers id = none) ∨ StoppedByName w w' id

theorem StoppedByName.mono {w₁ w₂ : World} {id : ContainerId} (h₁ : Logs E S w w₁)
    (h : StoppedByName w₁ w₂ id) (h₂ : Logs E S w₂ w') : StoppedByName w w' id := by
  obtain ⟨name, h⟩ := h
  exact ⟨name, h.mono h₁ h₂⟩

instance : IsPreorder World (StaysUp E S b) where
  refl w := ⟨Std.Refl.refl w, le_refl _, fun r hr => ⟨r, hr, rfl⟩, fun _ _ _ h => h, fun _ _ _ _ h => .inl h⟩
  trans w w₁ w' h h' := by
    refine ⟨IsTrans.trans _ _ _ h.logs h'.logs, le_trans h.nextId h'.nextId, fun r hr => ?_,
      fun hb id hid hnone => h'.gone (le_trans hb h.nextId) id hid (h.gone hb id hid hnone), fun hb id hid config hup => ?_⟩
    · obtain ⟨r₁, hr₁, he₁⟩ := h'.removals r hr
      obtain ⟨r₀, hr₀, he₀⟩ := h.removals r₁ hr₁
      exact ⟨r₀, hr₀, he₀.trans he₁⟩
    · rcases h.up hb id hid config hup with hup | ⟨hremoved, hnone⟩ | hstopped
      · rcases h'.up (le_trans hb h.nextId) id hid config hup with hup | ⟨⟨r, hr, rfl⟩, hnone⟩ | hstopped
        · exact .inl hup
        · exact .inr (.inl ⟨h.removals r hr, hnone⟩)
        · exact .inr (.inr (hstopped.mono h.logs (Std.Refl.refl (r := Logs E S) w')))
      · exact .inr (.inl ⟨hremoved, h'.gone (le_trans hb h.nextId) id hid hnone⟩)
      · exact .inr (.inr (hstopped.mono (Std.Refl.refl (r := Logs E S) w) h'.logs))

theorem StaysUp.of_containers (hl : Logs E S w w') (hc : w'.docker.containers = w.docker.containers)
    (hn : w'.docker.nextId = w.docker.nextId) (hr : w'.removals = w.removals) : StaysUp E S b w w' where
  logs := hl
  nextId := hn.ge
  removals r h := ⟨r, hr ▸ h, rfl⟩
  gone _ id _ h := by rwa [hc]
  up _ id _ config h := by
    refine .inl ?_
    rwa [Up, hc]

theorem StaysUp.of_docker (hd : w'.docker = w.docker) (hr : w'.removals = w.removals) : StaysUp E S b w w' :=
  .of_containers (logs_of_docker hd) (by rw [hd]) (by rw [hd]) hr

/-! ## Steps -/

theorem staysUp_removalStep (w : World) (s : RemovalStep) : StaysUp E S b w (w.removalStep s) := by
  cases s with
  | remove i =>
    simp only [World.removalStep]
    split_ifs with hmem
    · refine ⟨⟨[], by simp [Docker.setContainer], by simp⟩, le_refl _, fun r hr => ?_, fun _ id _ hnone => ?_,
        fun _ id _ config hup => ?_⟩
      · obtain ⟨r', hr', rfl⟩ := List.mem_map.1 hr
        refine ⟨r', hr', ?_⟩
        split_ifs with he
        · exact he
        · rfl
      · by_cases he : id = i <;> simp [Docker.setContainer, he, hnone]
      · by_cases he : id = i
        · exact .inr (.inl ⟨⟨_, hmem, he.symm⟩, by simp [Docker.setContainer, he]⟩)
        · refine .inl ?_
          simpa [Up, Docker.setContainer, he] using hup
    · exact Std.Refl.refl w
  | refused i =>
    exact ⟨⟨[], by simp [World.removalStep], by simp⟩, le_refl _, fun r hr => ⟨r, (List.mem_filter.1 hr).1, rfl⟩,
      fun _ _ _ h => h, fun _ _ _ _ h => .inl h⟩
  | deleteRow i =>
    simp only [World.removalStep]
    split_ifs
    · exact ⟨⟨[], by simp, by simp⟩, le_refl _, fun r hr => ⟨r, (List.mem_filter.1 hr).1, rfl⟩,
        fun _ _ _ h => h, fun _ _ _ _ h => .inl h⟩
    · exact Std.Refl.refl w

theorem staysUp_suspend : Prog.Keeps (StaysUp E S b) (suspend E) :=
  keeps_suspend staysUp_removalStep fun _ => .of_docker rfl rfl

/-- the call takes no container down, unless it stops it by a name -/
def Call.leavesUp : Call → Prop
  | .stopContainer (.id _) | .killContainer _ | .waitContainer _ | .removeContainer .. => False
  | _ => True

/-- a call leaves docker's containers as they are, or answers for the one it is about and is logged -/
theorem Docker.call_cases_log (c : Call) (ref : Ref) (d : Docker) :
    (d.call E c ref).2.containers = d.containers ∨
    ∃ id x code x', d.find ref = some (id, x) ∧ onContainer E c id x = .ok (code, x') ∧
      (d.call E c ref).2 = (d.setContainer id x').record c (some id) true := by
  unfold Docker.call
  split
  · exact Or.inl rfl
  · exact Or.inl rfl
  · rename_i id x _ hfind
    split
    · exact Or.inl rfl
    · rename_i code x' hon
      exact Or.inr ⟨id, x, code, x', hfind, hon, rfl⟩

/-- what such a call leaves of a container that runs -/
theorem onContainer_up {c : Call} (hc : c.leavesUp) {id : ContainerId} {x : Container} {code : ℤ} {x' : Option Container}
    (h : onContainer E c id x = .ok (code, x')) (hrun : x.running = true) :
    (∃ y, x' = some y ∧ y.running = true ∧ y.config = x.config) ∨ ∃ name, c = .stopContainer (.name name) := by
  cases c with
  | stopContainer ref =>
    cases ref with
    | id _ => exact hc.elim
    | name name => exact .inr ⟨name, rfl⟩
  | removeContainer _ _ | killContainer _ | waitContainer _ => exact hc.elim
  | startContainer _ | restartContainer _ =>
    obtain ⟨-, rfl⟩ := Prod.mk.inj (Except.ok.inj h)
    exact .inl ⟨_, rfl, rfl, rfl⟩
  | renameContainer _ _ =>
    obtain ⟨-, rfl⟩ := Prod.mk.inj (Except.ok.inj h)
    exact .inl ⟨_, rfl, hrun, rfl⟩
  | _ =>
    obtain ⟨-, rfl⟩ := Prod.mk.inj (Except.ok.inj h)
    exact .inl ⟨_, rfl, hrun, rfl⟩

/-- no call brings a container back -/
theorem Docker.call_gone {c : Call} {ref : Ref} {d : Docker} {id : ContainerId} (h : d.containers id = none) :
    (d.call E c ref).2.containers id = none := by
  rcases Docker.call_cases (E := E) c ref d with hd | ⟨i, x, code, x', hfind, -, hd⟩
  · rwa [hd]
  · have hne : id ≠ i := by
      rintro rfl
      rw [Docker.containers_of_find hfind] at h
      cases h
    rwa [hd, Function.update_of_ne hne]

theorem staysUp_call {c : Call} (hS : S c) (hc : c.leavesUp) (ref : Ref) (w : World) :
    StaysUp E S b w { w with docker := (w.docker.call E c ref).2 } := by
  have hlogs : Logs E S w { w with docker := (w.docker.call E c ref).2 } := logs_call hS ref w.docker
  rcases Docker.call_cases_log (E := E) c ref w.docker with hsame | ⟨id, x, code, x', hfind, hon, hd⟩
  · exact .of_containers hlogs hsame (by simp) rfl
  · refine ⟨hlogs, by simp, fun r hr => ⟨r, hr, rfl⟩, fun _ _ _ h => Docker.call_gone h, fun _ i _ config hup => ?_⟩
    by_cases he : i = id
    · subst he
      obtain ⟨y, hy, hrun, hconfig⟩ := hup
      obtain rfl : y = x := Option.some.inj (hy.symm.trans (Docker.containers_of_find hfind))
      rcases onContainer_up hc hon hrun with ⟨z, rfl, hrun', hconfig'⟩ | ⟨name, rfl⟩
      · refine .inl ⟨z, ?_, hrun', hconfig'.trans hconfig⟩
        change (w.docker.call E c ref).2.containers i = some z
        rw [hd]
        simp [Docker.setContainer, Docker.record]
      · refine .inr (.inr ⟨name, [⟨.stopContainer (.name name), some i, true⟩], ?_, by simp⟩)
        change (w.docker.call E (.stopContainer (.name name)) ref).2.log = _
        rw [hd]
        simp [Docker.setContainer, Docker.record]
    · refine .inl ?_
      obtain ⟨y, hy, hrun, hconfig⟩ := hup
      refine ⟨y, ?_, hrun, hconfig⟩
      change (w.docker.call E c ref).2.containers i = some y
      rw [hd]
      simp [Docker.setContainer, Docker.record, he, hy]

/-- a container that is created is none of those before it -/
theorem staysUp_createContainer {draw : ℕ} {name : String} (hS : S (.createContainer draw name)) (config : Config) :
    Prog.Keeps (StaysUp E S b) (createContainer E draw name config) := by
  refine Prog.keeps_bind staysUp_suspend fun _ w => ?_
  change StaysUp E S b w { w with docker := (w.docker.createContainer E draw name config).2 }
  unfold Docker.createContainer
  cases hf : E.fate (.createContainer draw name) with
  | some e => exact .of_containers (logs_record rfl hS (by simp)) rfl rfl rfl
  | none =>
    refine ⟨⟨[⟨.createContainer draw name, some w.docker.nextId, true⟩], rfl, fun e he => ?_⟩, Nat.le_succ _,
      fun r hr => ⟨r, hr, rfl⟩, fun hb id hid hnone => ?_, fun hb id hid _ hup => .inl ?_⟩
    · obtain rfl := List.mem_singleton.1 he
      exact ⟨hS, fun _ => hf⟩
    · have hne : id ≠ w.docker.nextId := Nat.ne_of_lt (Nat.lt_of_lt_of_le hid hb)
      simpa [Docker.setContainer, Docker.record, hne] using hnone
    · have hne : id ≠ w.docker.nextId := Nat.ne_of_lt (Nat.lt_of_lt_of_le hid hb)
      simpa [Up, Docker.setContainer, Docker.record, hne] using hup

theorem staysUp_inspectContainer {id : ContainerId} (hS : S (.inspectContainer id)) :
    Prog.Keeps (StaysUp E S b) (inspectContainer E id) := by
  refine Prog.keeps_bind staysUp_suspend fun _ w => ?_
  change StaysUp E S b w { w with docker := (w.docker.inspectContainer E id).2 }
  unfold Docker.inspectContainer
  split
  · exact .of_containers (logs_record rfl hS (by simp)) rfl rfl rfl
  · exact .of_containers (logs_record rfl hS (by simp)) rfl rfl rfl
  · rename_i hf _
    exact .of_containers (logs_record rfl hS fun _ => hf) rfl rfl rfl

/-- the steps of an update up to the removals -/
theorem steps_staysUp : Steps E (fun c => S c ∧ c.leavesUp) (StaysUp E S b) where
  suspend := staysUp_suspend
  call _ hc ref w := staysUp_call hc.1 hc.2 ref w
  inert c hc w := by
    obtain ⟨hsame, hn⟩ := callInert_containers (E := E) c w.docker
    exact .of_containers (logs_callInert hc.1 w.docker) hsame hn rfl
  draw _ := .of_docker rfl rfl
  create h _ draw name _ _ :=
    Prog.keeps_bind (Steps.orThrow (staysUp_createContainer (h (.createContainer draw name) trivial).1 _)) fun id =>
      Prog.keeps_bind (Steps.orThrow (staysUp_inspectContainer (h (.inspectContainer id) trivial).1)) fun _ =>
        Prog.keeps_bind (Prog.keeps_bind staysUp_suspend fun _ _ => .of_docker rfl rfl) fun _ => Prog.keeps_pure _
  status _ _ _ := .of_docker rfl rfl
  emit _ _ := .of_docker rfl rfl

/-- a call about a container that is not older than `b` -/
theorem staysUp_callNew {c : Call} {ref : Ref} (hS : S c) (h : ∀ id x, w.docker.find ref = some (id, x) → b ≤ id) :
    StaysUp E S b w { w with docker := (w.docker.call E c ref).2 } := by
  have hlogs : Logs E S w { w with docker := (w.docker.call E c ref).2 } := logs_call hS ref w.docker
  rcases Docker.call_cases_log (E := E) c ref w.docker with hsame | ⟨id, x, code, x', hfind, -, hd⟩
  · exact .of_containers hlogs hsame (by simp) rfl
  · refine ⟨hlogs, by simp, fun r hr => ⟨r, hr, rfl⟩, fun _ _ _ h => Docker.call_gone h,
      fun _ i hi config hup => .inl ?_⟩
    have hne : i ≠ id := Nat.ne_of_lt (Nat.lt_of_lt_of_le hi (h id x hfind))
    obtain ⟨y, hy, hrun, hconfig⟩ := hup
    refine ⟨y, ?_, hrun, hconfig⟩
    change (w.docker.call E c ref).2.containers i = some y
    rw [hd]
    simp [Docker.setContainer, Docker.record, hne, hy]

/-- a container that no removal is about is still there after a suspension, as it was -/
theorem suspend_containers {id : ContainerId} {c : Container} (ho : OlderRemovals id w)
    (hc : w.docker.containers id = some c) : (suspend E w).2.docker.containers id = some c := by
  have hgrows : Grows id w (suspend E w).2 := (quiet_suspend w).grows
  obtain ⟨c', hc'⟩ := Option.isSome_iff_exists.1 (hgrows.containers ho id (le_refl id) (by rw [hc]; rfl))
  rw [hc', ← fewer_suspend w id c' hc', hc]

theorem staysUp_deleteInstance {id : ContainerId} (hid : b ≤ id) (hS : S (.removeContainer (.id id) true)) :
    Prog.Keeps (StaysUp E S b) (deleteInstance E (.id id) true) := by
  obtain ⟨f, heq, hrow⟩ := deleteInstance_eq (E := E) (.id id) true
  rw [heq]
  refine Prog.keeps_bind (Prog.keeps_bind staysUp_suspend fun _ w => staysUp_callNew hS fun i x hi => ?_)
    (hrow ((steps_staysUp (E := E) (S := S) (b := b)).modifyDb fun w => .of_docker rfl rfl))
  obtain ⟨y, -, heq⟩ := Option.map_eq_some_iff.1 hi
  obtain ⟨rfl, -⟩ := Prod.mk.inj heq
  exact hid

/-- an instance that docker does not let be removed stays -/
theorem staysUp_deleteRefused {id : ContainerId} (hS : S (.removeContainer (.id id) true))
    (hfate : E.fate (.removeContainer (.id id) true) ≠ none) :
    Prog.Keeps (StaysUp E S b) (deleteInstance E (.id id) true) := by
  obtain ⟨f, heq, hrow⟩ := deleteInstance_eq (E := E) (.id id) true
  rw [heq]
  refine Prog.keeps_bind (Prog.keeps_bind staysUp_suspend fun _ w => ?_)
    (hrow ((steps_staysUp (E := E) (S := S) (b := b)).modifyDb fun w => .of_docker rfl rfl))
  obtain ⟨e, hfate⟩ := Option.ne_none_iff_exists'.1 hfate
  have hcall : (w.docker.call E (.removeContainer (.id id) true) (.id id)).2.containers = w.docker.containers := by
    simp [Docker.call, hfate, Docker.record]
  exact .of_containers (logs_call hS _ _) hcall (by simp) rfl

/-- a container that no removal is about and that is not stopped by a name stays up -/
theorem StaysUp.still {id : ContainerId} {config : Config} (h : StaysUp E S b w w') (hb : b ≤ w.docker.nextId)
    (hid : id < b) (hS : ∀ name, ¬ S (.stopContainer (.name name))) (hr : ∀ r ∈ w.removals, r.id ≠ id)
    (hup : Up w id config) : Up w' id config := by
  rcases h.up hb id hid config hup with hup | ⟨⟨r, hr', he⟩, -⟩ | ⟨name, hdone⟩
  · exact hup
  · exact absurd he (hr r hr')
  · exact absurd (hdone.of_logs h.logs).1 (hS name)

/-! ## Starting an instance -/

/-- the start of an instance that docker lets start -/
theorem startProcess_run {p : ProcessDb} {c : Container} (hf : E.fate (.startContainer (.id p.key)) = none)
    (hc : (suspend E w).2.docker.containers p.key = some c) :
    startProcess E p w = (.ok (), { (suspend E w).2 with
      docker := ((suspend E w).2.docker.setContainer p.key (some { c with running := true })).record
        (.startContainer (.id p.key)) (some p.key) true }) := by
  have hcall := Docker.call_ok (E := E) hf (Docker.find_id hc) rfl
  have hrun : orThrow "StartProcess" (startContainer E (.id p.key)) w = _ := orThrow_run_ok hcall
  rw [startProcess, dataId_eq, Prog.bind_of_ok hrun]
  rfl

/-- the start of an instance that docker refuses, or that is gone -/
theorem startProcess_failed {p : ProcessDb} (h : ¬ (E.fate (.startContainer (.id p.key)) = none ∧
    ((suspend E w).2.docker.containers p.key).isSome)) : ∃ e found, startProcess E p w = (.error e,
      { (suspend E w).2 with docker := (suspend E w).2.docker.record (.startContainer (.id p.key)) found false }) := by
  have hfailed {e : DockerError} {d : Docker}
      (hcall : (suspend E w).2.docker.call E (.startContainer (.id p.key)) (.id p.key) = (.error e, d)) :
      startProcess E p w = (.error (e.withContext "StartProcess"), { (suspend E w).2 with docker := d }) := by
    have hrun : orThrow "StartProcess" (startContainer E (.id p.key)) w = _ := orThrow_run_error hcall
    rw [startProcess, dataId_eq, Prog.bind_of_error hrun]
  cases hc : (suspend E w).2.docker.containers p.key with
  | none =>
    obtain ⟨e, hcall⟩ := Docker.call_missing (E := E) (c := .startContainer (.id p.key)) hc
    exact ⟨_, _, hfailed hcall⟩
  | some c =>
    cases hf : E.fate (.startContainer (.id p.key)) with
    | some e => exact ⟨_, _, hfailed (Docker.call_refused hc hf)⟩
    | none => exact absurd ⟨hf, by rw [hc]; rfl⟩ h

/-- the start of an instance succeeds if docker lets it, and the container is there -/
theorem startProcess_ok_iff {p : ProcessDb} : (startProcess E p w).1 = .ok () ↔
    E.fate (.startContainer (.id p.key)) = none ∧ ((suspend E w).2.docker.containers p.key).isSome := by
  by_cases h : E.fate (.startContainer (.id p.key)) = none ∧ ((suspend E w).2.docker.containers p.key).isSome
  · obtain ⟨c, hc⟩ := Option.isSome_iff_exists.1 h.2
    exact iff_of_true (by rw [startProcess_run h.1 hc]) h
  · obtain ⟨e, found, hrun⟩ := startProcess_failed h
    refine iff_of_false (fun hok => ?_) h
    rw [hrun] at hok
    cases hok

/-- and then it runs -/
theorem startProcess_up {p : ProcessDb} {c : Container} (h : (startProcess E p w).1 = .ok ())
    (hc : (suspend E w).2.docker.containers p.key = some c) : Up (startProcess E p w).2 p.key c.config := by
  rw [startProcess_run (startProcess_ok_iff.1 h).1 hc]
  exact ⟨{ c with running := true }, by simp [Docker.record, Docker.setContainer], rfl, rfl⟩

/-- the call stops no container -/
def Call.unstopping (c : Call) : Prop := ∀ ref, c ≠ .stopContainer ref

end Nanocl.Runtime
