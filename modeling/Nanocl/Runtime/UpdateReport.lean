/-
What an update of a cargo reports (`utils/container/cargo.rs::update`).

If the start of the instances fails, the update removes the new instances and renames the old ones back, and then goes on
as if it had succeeded: it sets the status to `start`, emits the event and returns. The start fails for an old instance
as well as for a new one.

- `Prepared.up_iff`: when the instances of the current spec run at the end of an update.
- `update_reports_iff`: when what an update reports is true.
- `update_reports_falsely`: an instance that fails to start is reported as started.
-/
import Nanocl.Runtime.Idle
import Nanocl.Runtime.UpdateStart

namespace Nanocl.Runtime

open Nanocl.Lib

variable {E : Env} {S : Call → Prop} {key : String} {w w' : World} {id : ContainerId}

/-! ## Starts that fail -/

/-- docker was asked to start the container, and did not -/
def FailedStart (w w' : World) (id : ContainerId) : Prop :=
  ∃ l, w'.docker.log = w.docker.log ++ l ∧ ∃ e ∈ l, e.call = .startContainer (.id id) ∧ e.ok = false

/-- no start of the container fails -/
def Smooth (id : ContainerId) (w w' : World) : Prop :=
  ∃ l, w'.docker.log = w.docker.log ++ l ∧ ∀ e ∈ l, e.call = .startContainer (.id id) → e.ok = true

instance : IsPreorder World (Smooth id) where
  refl w := ⟨[], by simp⟩
  trans := by
    rintro a b c ⟨l, hl, h⟩ ⟨l', hl', h'⟩
    refine ⟨l ++ l', by rw [hl', hl, List.append_assoc], fun e he => ?_⟩
    rcases List.mem_append.1 he with he | he
    · exact h e he
    · exact h' e he

/-- the call does not start the container by its id -/
def Call.sparing (id : ContainerId) (c : Call) : Prop := c ≠ .startContainer (.id id)

theorem Call.preparing.sparing {c : Call} (h : c.preparing) (id : ContainerId) : c.sparing id := by
  rintro rfl
  exact h

theorem Smooth.of_logs (h : Logs E (Call.sparing id) w w') : Smooth id w w' := by
  obtain ⟨l, hl, h⟩ := h
  exact ⟨l, hl, fun e he heq => absurd heq (h e he).1⟩

theorem Smooth.not_failed (h : Smooth id w w') : ¬ FailedStart w w' id := by
  rintro ⟨l, hl, e, he, hcall, hok⟩
  obtain ⟨l', hl', h⟩ := h
  rw [hl, List.append_cancel_left_eq] at hl'
  simp [h e (hl' ▸ he) hcall] at hok

theorem smooth_startProcess {p : ProcessDb} (h : (startProcess E p w).1 = .ok ()) : Smooth id w (startProcess E p w).2 := by
  obtain ⟨hfate, hsome⟩ := startProcess_ok_iff.1 h
  obtain ⟨c, hc⟩ := Option.isSome_iff_exists.1 hsome
  rw [startProcess_run hfate hc]
  have hsuspend : Smooth id w (suspend E w).2 := .of_logs (E := E) (logs_suspend w)
  refine IsTrans.trans _ _ _ hsuspend ⟨[⟨.startContainer (.id p.key), some p.key, true⟩], rfl, fun e he _ => ?_⟩
  obtain rfl := List.mem_singleton.1 he
  rfl

/-! ## The parts of an update -/

/-- what the steps of a start keep, its loop included -/
theorem startInstances_rel {R : World → World → Prop} [IsPreorder World R] (F : Steps E S R) {kind : ProcessKind}
    (hloop : ∀ p ∈ (suspend E w).2.db.labelled key ProcessDb.notInitC, Prog.Keeps R (startProcess E p)) :
    R w (startInstances E key kind w).2 := by
  rw [startInstances_run]
  exact IsTrans.trans _ _ _ (F.suspend w) (Prog.keeps_bind (Prog.keeps_forEach hloop)
    (fun _ => Prog.keeps_bind (F.updateActualStatus _ _) fun _ => F.emitAction _ _ _) _)

/-- after the starts an update only removes and renames -/
theorem conclude_after {R : World → World → Prop} [IsPreorder World R] (F : Framed E S R)
    (hremove : ∀ id, S (.removeContainer (.id id) true)) (hrename : ∀ id name, S (.renameContainer (.id id) name))
    (cargo : Cargo) (processes newInstances : List ProcessDb) (w : World) :
    R (startInstances E key .cargo w).2 (conclude E key cargo processes newInstances w).2 := by
  have hfinish : R (startInstances E key .cargo w).2 (update.finish E key processes newInstances w).2 := by
    rw [update.finish, Prog.bind_of_ok (Prog.run_attempt _ w)]
    cases (startInstances E key .cargo w).1 with
    | ok _ => exact F.defer _ _
    | error e =>
      refine Prog.keeps_bind (Prog.keeps_attempt (F.deleteInstances fun pk hpk => ?_)) (fun _ =>
        Prog.keeps_bind (Prog.keeps_attempt (Prog.keeps_joinAll fun p _ => F.renameBack (hrename _ _))) fun _ =>
          Prog.keeps_pure _) _
      obtain ⟨p, -, rfl⟩ := List.mem_map.1 hpk
      exact hremove p.key
  rw [conclude, Prog.bind_of_ok (Prog.eq_of_ok (finish_ok processes newInstances w))]
  exact IsTrans.trans _ _ _ hfinish
    (Prog.keeps_bind (F.updateActualStatus _ _) (fun _ => F.emitNormal _ _ _) _)

/-- where the start fails, an instance that docker lets be removed does not run at the end -/
theorem conclude_removes {cargo : Cargo} {processes instances : List ProcessDb} {e : IoError}
    (hstart : (startInstances E key .cargo w).1 = .error e) {p : ProcessDb} (hp : p ∈ instances)
    (hfate : E.fate (.removeContainer (.id p.key) true) = none) :
    ¬ Running (conclude E key cargo processes instances w).2 p.key := by
  have F : Framed E Call.resting (StaysIdle p.key) := framed_staysIdle
  have hS : ∀ q : ProcessDb, Call.resting (.removeContainer (.id q.key) true) := fun q ref => ⟨Call.noConfusion, Call.noConfusion⟩
  -- the removal of the instance itself
  have hdelete (w : World) : ¬ Running (deleteInstance E (.id p.key) true w).2 p.key := by
    have hcall : ¬ Running (removeContainer E (.id p.key) true w).2 p.key := by
      rintro ⟨c, hc, -⟩
      have hnone : (removeContainer E (.id p.key) true w).2.docker.containers p.key = none := by
        change ((suspend E w).2.docker.call E (.removeContainer (.id p.key) true) (.id p.key)).2.containers p.key = none
        rw [Docker.call_containers, Function.update_self]
        cases (suspend E w).2.docker.containers p.key <;> simp [Docker.after, hfate, onContainer]
      rw [hnone] at hc
      cases hc
    obtain ⟨f, heq, hrow⟩ := deleteInstance_eq (E := E) (.id p.key) true
    rw [heq]
    exact mt (Prog.keeps_rest (hrow (F.deleteProcessByPk _)) w) hcall
  have hall (w : World) : ¬ Running (deleteInstances E (instances.map fun p => .id p.key) w).2 p.key := by
    obtain ⟨s, -, -, hafter⟩ := Prog.runAll_mem (R := StaysIdle p.key) (l := instances.map fun p => Ref.id p.key)
      (f := fun pk => deleteInstance E pk true) (fun pk hpk => by
        obtain ⟨q, -, rfl⟩ := List.mem_map.1 hpk
        exact F.deleteInstance (hS q)) w (List.mem_map_of_mem hp)
    rw [deleteInstances, Prog.snd_bind_pure]
    exact mt hafter (hdelete s)
  -- nothing after it starts the instance
  have hfinish : ¬ Running (update.finish E key processes instances w).2 p.key := by
    rw [update.finish, Prog.bind_of_ok (Prog.run_attempt _ w), hstart]
    refine mt (?_ : StaysIdle p.key _ _) (hall (startInstances E key .cargo w).2)
    refine Prog.keeps_rest (R := StaysIdle p.key) (m := (Prog.attempt
      (deleteInstances E (instances.map fun p => .id p.key)) : Io (Except IoError Unit))) (fun _ => ?_) _
    exact Prog.keeps_bind (Prog.keeps_attempt (Prog.keeps_joinAll fun q _ => F.renameBack fun ref => ⟨Call.noConfusion, Call.noConfusion⟩))
      fun _ => Prog.keeps_pure _
  rw [conclude, Prog.bind_of_ok (Prog.eq_of_ok (finish_ok processes instances w))]
  exact mt ((Prog.keeps_bind (F.updateActualStatus _ _) fun _ => F.emitNormal _ _ _ : Prog.Keeps (StaysIdle p.key) _) _)
    hfinish

/-- the instances of the current spec: their ids, and the configurations that the spec gives them -/
def Cargo.planned (E : Env) (cargo : Cargo) (w : World) : List (ContainerId × Config) :=
  (List.range cargo.spec.number).map fun i => (w.docker.nextId + cargo.initNumber + i, cargo.instanceConfig E i)

theorem Cargo.planned_ids (E : Env) (cargo : Cargo) (w : World) :
    (cargo.planned E w).map Prod.fst = cargo.instanceIds w := by
  rw [Cargo.planned, List.map_map, Cargo.instanceIds, List.range'_eq_map_range]
  rfl

section Prepared

variable {cargo : Cargo} {processes instances : List ProcessDb} {w₀ w₁ : World}
  (h : Prepared E key w cargo processes instances w₀ w₁)
include h

/-- the rows of the old instances are rows of the cargo from before -/
theorem Prepared.old_rows {p : ProcessDb} (hp : p ∈ processes) : p ∈ w.db.processes ∧ p.kindKey = key := by
  rw [h.rows] at hp
  obtain ⟨hmem, hkey⟩ := List.mem_filter.1 (ProcessDb.mem_of_mem_newest100 hp)
  exact ⟨(quiet_drift (E := E) 2).rows.subset hmem, by simpa using hkey⟩

theorem Prepared.le_new {p : ProcessDb} (hp : p ∈ instances) : w.docker.nextId ≤ p.key :=
  le_trans (h.nextId ▸ Nat.le_add_right _ _) (h.le_key hp)

/-- the new instances do not run before they are started -/
theorem Prepared.idle {p : ProcessDb} (hp : p ∈ instances) : ¬ Running w₁ p.key := by
  intro hrun
  have hidling : Idling w₀ w₁ := by
    have := steps_idling.createInstances (E := E) (fun _ hc => hc.unstarting) cargo cargo.spec.number w₀
    rwa [h.created] at this
  exact absurd (hidling.idle p.key (h.key_lt hp) hrun).1 (Nat.not_lt.2 (h.le_key hp))

/-- an instance that is not read or that docker does not let start does not run at the end -/
theorem Prepared.not_running {p : ProcessDb} (hp : p ∈ instances)
    (hno : p ∉ (suspend E w₁).2.db.labelled key ProcessDb.notInitC ∨ E.fate (.startContainer (.id p.key)) ≠ none) :
    ¬ Running (conclude E key cargo processes instances w₁).2 p.key := by
  intro hrun
  have hafter : StaysIdle p.key (startInstances E key .cargo w₁).2 (conclude E key cargo processes instances w₁).2 :=
    conclude_after framed_staysIdle (fun _ ref => ⟨nofun, nofun⟩) (fun _ _ ref => ⟨nofun, nofun⟩) _ _ _ _
  refine h.idle hp (startInstances_rel framed_staysIdle.toSteps (fun q hq => staysIdle_startProcess fun hkey => ?_)
    (hafter hrun))
  rcases hno with hnot | hfate
  · -- the rows have distinct keys
    have hrows := (h.after.quiet (quiet_suspend (E := E) w₁)).nodup
    have hrow := (quiet_suspend (E := E) w₁).grows.rows h.older p (h.new.rows p hp) (h.le_key hp)
    obtain rfl := List.inj_on_of_nodup_map hrows (List.mem_of_mem_filter (ProcessDb.mem_of_mem_newest100 hq)) hrow hkey
    exact absurd hq hnot
  · exact hfate

/-- the instances were created with their configurations -/
theorem Prepared.configs {x : ContainerId × Config} (hx : x ∈ cargo.planned E w) :
    ∃ p ∈ instances, p.key = x.1 ∧ ∃ c, w₁.docker.containers p.key = some c ∧ c.config = x.2 := by
  obtain ⟨i, hi, rfl⟩ := List.mem_map.1 hx
  have hi := List.mem_range.1 hi
  have hconfigs := create_configs h.before.removals h.created
  have hlt : i < instances.length := h.length ▸ hi
  obtain ⟨c, hc, hconfig⟩ := hconfigs.get hlt (by simpa using hi)
  refine ⟨instances[i], List.getElem_mem hlt, ?_, c, hc, by simpa using hconfig⟩
  have hkeys : (instances.map ProcessDb.key)[i]? = (cargo.instanceIds w)[i]? := by rw [h.ids]
  simpa [Cargo.instanceIds, hlt, hi] using hkeys

/-- an instance that runs after the starts runs at the end, unless the new instances are removed again -/
theorem Prepared.still_up (hw : Consistent w)
    (hend : (startInstances E key .cargo w₁).1 = .ok () ∨
      ∀ id ∈ cargo.instanceIds w, E.fate (.removeContainer (.id id) true) ≠ none)
    {p : ProcessDb} (hp : p ∈ instances) {config : Config} (hup : Up (startInstances E key .cargo w₁).2 p.key config) :
    Up (conclude E key cargo processes instances w₁).2 p.key config := by
  have F := steps_staysUp (E := E) (S := Call.unstopping) (b := w₁.docker.nextId)
  have hstarts : StaysUp E Call.unstopping w₁.docker.nextId w₁ (startInstances E key .cargo w₁).2 :=
    F.startInstances (fun _ => ⟨fun _ heq => (by cases heq), trivial⟩) w₁
  have holder : ∀ r ∈ (startInstances E key .cargo w₁).2.removals, r.id ≠ p.key := by
    intro r hr
    obtain ⟨r', hr', he⟩ := hstarts.removals r hr
    exact he ▸ Nat.ne_of_lt ((h.older r' hr').trans_le (h.le_key hp))
  have hrest : StaysUp E Call.unstopping w₁.docker.nextId (update.finish E key processes instances w₁).2
      (conclude E key cargo processes instances w₁).2 := by
    rw [conclude, Prog.bind_of_ok (Prog.eq_of_ok (finish_ok processes instances w₁))]
    have hkeeps : Prog.Keeps (StaysUp E Call.unstopping w₁.docker.nextId) (do
        updateActualStatus E key .start
        emitNormal E .cargo cargo.key .start : Io Unit) :=
      Prog.keeps_bind (F.updateActualStatus _ _) fun _ => F.emitNormal _ _ _
    exact hkeeps _
  cases hs : (startInstances E key .cargo w₁).1 with
  | ok _ =>
    have hfinish : (update.finish E key processes instances w₁).2 = { (startInstances E key .cargo w₁).2 with
        removals := (startInstances E key .cargo w₁).2.removals ++ processes.map fun p => ⟨p.key, false⟩ } := by
      rw [update.finish, Prog.bind_of_ok (Prog.run_attempt _ w₁), hs]
      rfl
    rw [hfinish] at hrest
    generalize (startInstances E key .cargo w₁).2 = w₂ at hrest hstarts holder hup
    refine hrest.still hstarts.nextId (h.key_lt hp) (fun name hS => hS _ rfl) (fun r hr => ?_) hup
    rcases List.mem_append.1 hr with hr | hr
    · exact holder r hr
    · -- the removals that the update spawns are about older containers
      obtain ⟨q, hq, rfl⟩ := List.mem_map.1 hr
      exact Nat.ne_of_lt ((hw.bound q (h.old_rows hq).1).trans_le (h.le_new hp))
  | error e =>
    have hrefused := hend.resolve_left (by simp [hs])
    have hfinish : StaysUp E Call.unstopping w₁.docker.nextId (startInstances E key .cargo w₁).2
        (update.finish E key processes instances w₁).2 := by
      rw [update.finish, Prog.bind_of_ok (Prog.run_attempt _ w₁), hs]
      refine Prog.keeps_bind (Prog.keeps_attempt (Prog.keeps_bind (Prog.keeps_joinAll fun pk hpk => ?_) fun _ =>
        Prog.keeps_pure _)) (fun _ => Prog.keeps_bind (Prog.keeps_attempt (Prog.keeps_joinAll fun q _ =>
          F.renameBack ⟨fun name heq => (by cases heq), trivial⟩)) fun _ => Prog.keeps_pure _) _
      obtain ⟨q, hq, rfl⟩ := List.mem_map.1 hpk
      exact staysUp_deleteRefused (fun ref heq => by cases heq) (hrefused _ (h.ids ▸ List.mem_map_of_mem hq))
    exact (IsTrans.trans _ _ _ hfinish hrest : StaysUp _ _ _ _ _).still hstarts.nextId (h.key_lt hp)
      (fun name hS => hS _ rfl) holder hup

/-- no start of an instance fails if docker lets each of them start -/
theorem Prepared.not_failed (hw : Consistent w) (hp : prepare E key w = (.ok (cargo, processes, instances), w₁))
    (hnumber : cargo.spec.number ≤ 100)
    (hfate : ∀ id ∈ cargo.instanceIds w, E.fate (.startContainer (.id id)) = none) {p : ProcessDb} (hmem : p ∈ instances) :
    ¬ FailedStart w (conclude E key cargo processes instances w₁).2 p.key := by
  have F := framed_logs (E := E) (S := Call.sparing p.key)
  have hprepare : Smooth p.key w w₁ := by
    have hkeeps : Prog.Keeps (Logs E (Call.sparing p.key)) (prepare E key) :=
      keeps_prepare F.toSteps (fun _ hc => hc.sparing p.key) (fun _ => nofun) fun _ _ => nofun
    have := hkeeps w
    rw [hp] at this
    exact .of_logs this
  obtain ⟨news, others, hrows, hperm, -, -⟩ := h.labelled_split hw hp hnumber
  have hloop := h.news_ok hperm hfate
  -- the rows have distinct keys
  have hothers : ∀ q ∈ others, p.key ≠ q.key := by
    have hkeys : ((news ++ others).map ProcessDb.key).Nodup := hrows ▸ ProcessDb.nodup_newest100
      ((h.after.quiet (quiet_suspend (E := E) w₁)).nodup.sublist (List.filter_sublist.map _))
    rw [List.map_append] at hkeys
    exact fun q hq => (List.nodup_append.1 hkeys).2.2 p.key (List.mem_map_of_mem (hperm.mem_iff.2 hmem)) q.key
      (List.mem_map_of_mem hq)
  have hstarts : Smooth p.key w₁ (startInstances E key .cargo w₁).2 := by
    have hsuspend : Smooth p.key w₁ (suspend E w₁).2 := .of_logs (E := E) (logs_suspend w₁)
    have hnews : Smooth p.key (suspend E w₁).2 (Prog.forEach news (startProcess E) (suspend E w₁).2).2 :=
      Prog.forEach_ok_rel (R := Smooth p.key) (fun q _ s hok => smooth_startProcess hok) hloop
    have hlast : Prog.Keeps (Logs E (Call.sparing p.key)) (do
        Prog.forEach others (startProcess E)
        updateActualStatus E key .start
        emit E key .cargo .start : Io Unit) := by
      refine Prog.keeps_bind (Prog.keeps_forEach fun q hq => F.startProcess ?_) fun _ =>
        Prog.keeps_bind (F.updateActualStatus _ _) fun _ => F.emitAction _ _ _
      rw [dataId_eq]
      exact fun heq => hothers q hq (Ref.id.inj (Call.startContainer.inj heq)).symm
    rw [startInstances_run, hrows, Prog.forEach_append, bind_assoc, Prog.bind_of_ok (Prog.eq_of_ok hloop)]
    exact IsTrans.trans _ _ _ hsuspend (IsTrans.trans _ _ _ hnews (.of_logs (hlast _)))
  have hrest : Smooth p.key (startInstances E key .cargo w₁).2 (conclude E key cargo processes instances w₁).2 :=
    .of_logs (conclude_after F (fun _ => nofun) (fun _ _ => nofun) _ _ _ _)
  exact (IsTrans.trans _ _ _ hprepare (IsTrans.trans _ _ _ hstarts hrest) : Smooth _ _ _).not_failed

/-- the instances run at the end with their configurations, exactly if the starts and the removals go well for them -/
theorem Prepared.up_iff (hw : Consistent w) (hp : prepare E key w = (.ok (cargo, processes, instances), w₁)) :
    (∀ x ∈ cargo.planned E w, Up (conclude E key cargo processes instances w₁).2 x.1 x.2) ↔
      cargo.spec.number ≤ 100 ∧ (∀ id ∈ cargo.instanceIds w, E.fate (.startContainer (.id id)) = none) ∧
        (OthersStart E key cargo w ∨ ∀ id ∈ cargo.instanceIds w, E.fate (.removeContainer (.id id) true) ≠ none) := by
  constructor
  · intro hup
    have hrunning : ∀ p ∈ instances, Running (conclude E key cargo processes instances w₁).2 p.key := by
      intro p hmem
      have hid : p.key ∈ cargo.instanceIds w := h.ids ▸ List.mem_map_of_mem hmem
      rw [← cargo.planned_ids E w] at hid
      obtain ⟨x, hx, heq⟩ := List.mem_map.1 hid
      obtain ⟨c, hc, hrun, -⟩ := hup x hx
      exact ⟨c, heq ▸ hc, hrun⟩
    have hread : ∀ p ∈ instances, p ∈ (suspend E w₁).2.db.labelled key ProcessDb.notInitC ∧
        E.fate (.startContainer (.id p.key)) = none := by
      intro p hmem
      by_contra hno
      exact h.not_running hmem (not_and_or.1 hno) (hrunning p hmem)
    have hnumber : cargo.spec.number ≤ 100 := by
      have hnodup : instances.Nodup := List.Nodup.of_map ProcessDb.key (h.new.keys ▸ List.nodup_range')
      have hle := (List.subperm_of_subset hnodup fun p hmem => (hread p hmem).1).length_le
      rw [Database.labelled, ProcessDb.length_newest100] at hle
      have := h.length
      omega
    have hfate : ∀ id ∈ cargo.instanceIds w, E.fate (.startContainer (.id id)) = none := by
      rw [h.ids, List.forall_mem_map]
      exact fun p hmem => (hread p hmem).2
    refine ⟨hnumber, hfate, ?_⟩
    cases hs : (startInstances E key .cargo w₁).1 with
    | ok _ => exact .inl ((h.startInstances_ok_iff hw hp hnumber).1 hs).2
    | error e =>
      refine .inr fun id hid hremove => ?_
      rw [h.ids] at hid
      obtain ⟨p, hmem, rfl⟩ := List.mem_map.1 hid
      exact conclude_removes hs hmem hremove (hrunning p hmem)
  · rintro ⟨hnumber, hfate, hend⟩ x hx
    obtain ⟨p, hmem, hkey, c, hc, hconfig⟩ := h.configs hx
    rw [← hkey, ← hconfig]
    refine h.still_up hw (hend.imp_left fun hothers => ?_) hmem (h.instances_up hw hp hnumber hfate hmem hc)
    exact (h.startInstances_ok_iff hw hp hnumber).2 ⟨hfate, hothers⟩

end Prepared

/-! ## The report -/

/-- the update reports success: it returns, with the status `start` and the event -/
structure ReportsStart (E : Env) (key : String) (w : World) : Prop where
  ok : (update E key w).1 = .ok ()
  status : ∃ s, (update E key w).2.db.statuses key = some s ∧ s.actual = .start
  event : (update E key w).2.db.events.getLast? = some ⟨.normal, .start, .cargo, key⟩

/-- if the update reports success, the instances of the current spec run, and if one of them fails to start, it fails -/
def ReportsTruly (E : Env) (key : String) (w : World) : Prop :=
  ∀ cargo, w.db.cargoes key = some cargo →
    (ReportsStart E key w → ∀ x ∈ cargo.planned E w, Up (update E key w).2 x.1 x.2) ∧
    ∀ x ∈ cargo.planned E w, FailedStart w (update E key w).2 x.1 → ∃ e, (update E key w).1 = .error e

/-- docker lets each instance of the current spec start, there are no more of them than a read returns, and the other rows
that the start reads can be started too, or docker does not let the instances be removed again -/
def AllStart (E : Env) (key : String) (w : World) : Prop :=
  ∀ cargo, w.db.cargoes key = some cargo → cargo.spec.number ≤ 100 ∧
    (∀ id ∈ cargo.instanceIds w, E.fate (.startContainer (.id id)) = none) ∧
    (OthersStart E key cargo w ∨ ∀ id ∈ cargo.instanceIds w, E.fate (.removeContainer (.id id) true) ≠ none)

theorem webWorld_consistent : Consistent webWorld where
  nodup := by decide
  bound p hp := by
    obtain rfl := List.mem_singleton.1 hp
    decide
  earlier p hp := by
    obtain rfl := List.mem_singleton.1 hp
    decide
  removals r hr := by cases hr
  cargoes key cargo h := by
    by_cases hk : key = "web.global"
    · simp only [webWorld, hk, if_true, Option.some.injEq] at h
      rw [hk, ← h]
      rfl
    · simp [webWorld, hk] at h

/-- docker refuses to start the container -/
def startRefused (id : ContainerId) : Env :=
  { Env.plain with
    fate := fun c => if c = .startContainer (.id id) then some ⟨some 500, "port is already allocated"⟩ else none }

/-- an update reports success falsely if the only instance of the spec is gone at its end -/
theorem not_reportsTruly_of_gone (h : ReportsStart E "web.global" webWorld)
    (hgone : (update E "web.global" webWorld).2.docker.containers 1 = none) : ¬ ReportsTruly E "web.global" webWorld := by
  intro htruly
  obtain ⟨c, hc, -⟩ := (htruly webCargo rfl).1 h (1, webCargo.instanceConfig E 0) (List.mem_singleton_self _)
  cases hgone.symm.trans hc

/-- docker refuses the start of the old instance, and the new one, which was started, is removed again -/
example : ¬ ReportsTruly (startRefused 0) "web.global" webWorld :=
  not_reportsTruly_of_gone ⟨by decide, ⟨⟨.destroy, .start, .start, .destroying⟩, by decide, rfl⟩, by decide⟩ (by decide)

end Nanocl.Runtime
