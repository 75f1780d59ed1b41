/-
An update of a cargo creates the new instances before it removes the old ones (`utils/container/cargo.rs::update`), "this
way we can have zero downtime deployment".

- `prepare_staysUp`: every step of an update up to its starts leaves the containers up that ran before (`StaysUp`).
- `update_zero_downtime`: an instance that ran before an update runs after it, or else the new instances all run, whatever
  calls fail and whatever removals go on; an instance that docker is restarting is the exception, which is stopped first.
-/
import Nanocl.Runtime.UpdateReport

namespace Nanocl.Runtime

open Nanocl.Lib

variable {E : Env} {S : Call → Prop} {key : String} {b : ContainerId} {w w' : World}

/-! ## The init container -/

/-- the name finds the container, or one created later -/
structure Findable (id : ContainerId) (name : String) (w : World) : Prop where
  older : OlderRemovals id w
  bound : id < w.docker.nextId
  named : ∃ c, w.docker.containers id = some c ∧ c.name = name

theorem Docker.find_name_ge {d : Docker} {id : ContainerId} {c : Container} (hid : id < d.nextId)
    (hc : d.containers id = some c) : ∃ id' x, d.find (.name c.name) = some (id', x) ∧ id ≤ id' := by
  have hrange : ∀ n, id < n → ∃ id' x, ((List.range n).reverse.findSome? fun i =>
      ((d.containers i).filter fun x => x.name = c.name).map fun x => (i, x)) = some (id', x) ∧ id ≤ id' := by
    intro n hn
    induction n with
    | zero => exact absurd hn (Nat.not_lt_zero id)
    | succ n ih =>
      rw [List.range_succ, List.reverse_append, List.reverse_singleton, List.singleton_append, List.findSome?_cons]
      cases hx : (d.containers n).filter fun x => x.name = c.name with
      | some x => exact ⟨n, x, rfl, Nat.le_of_lt_succ hn⟩
      | none =>
        rcases Nat.lt_succ_iff_lt_or_eq.1 hn with hlt | rfl
        · exact ih hlt
        · simp [hc] at hx
  exact hrange d.nextId hid

theorem Findable.suspend {id : ContainerId} {name : String} (h : Findable id name w) :
    Findable id name (suspend E w).2 := by
  have hquiet := quiet_suspend (E := E) w
  obtain ⟨c, hc, hname⟩ := h.named
  exact ⟨(hquiet.grows (b := id)).removals h.older, hquiet.nextId ▸ h.bound, c, suspend_containers h.older hc, hname⟩

/-- the containers below the id stay up while the container is found by its name -/
def KeepsNamed (E : Env) (S : Call → Prop) (id : ContainerId) (name : String) (w w' : World) : Prop :=
  Findable id name w → Findable id name w' ∧ StaysUp E S id w w'

instance {id : ContainerId} {name : String} : IsPreorder World (KeepsNamed E S id name) where
  refl w h := ⟨h, Std.Refl.refl w⟩
  trans _ _ _ h h' hf := ⟨(h' (h hf).1).1, IsTrans.trans _ _ _ (h hf).2 (h' (h hf).1).2⟩

/-- a call by the name that neither renames nor removes -/
theorem keepsNamed_await {id : ContainerId} {name : String} {c : Call} (hS : S c)
    (hc : ∀ i x code x', onContainer E c i x = .ok (code, x') → ∃ y, x' = some y ∧ y.name = x.name) :
    Prog.Keeps (KeepsNamed E S id name) (await E (Docker.call E c (.name name))) := by
  intro w h
  have hsuspended := h.suspend (E := E)
  have hrun : (await E (Docker.call E c (.name name)) w).2 =
      { (suspend E w).2 with docker := ((suspend E w).2.docker.call E c (.name name)).2 } := rfl
  obtain ⟨x, hx, hname⟩ := hsuspended.named
  obtain ⟨id', y, hfind, hle⟩ := Docker.find_name_ge hsuspended.bound hx
  rw [hname] at hfind
  rw [hrun]
  refine ⟨⟨hsuspended.older, by simpa using hsuspended.bound, ?_⟩, IsTrans.trans _ _ _ (staysUp_suspend w)
    (staysUp_callNew hS fun i z hi => ?_)⟩
  · change ∃ c', ((suspend E w).2.docker.call E c (.name name)).2.containers id = some c' ∧ c'.name = name
    rcases Docker.call_cases_log (E := E) c (.name name) (suspend E w).2.docker with hsame | ⟨i, z, code, z', hi, hon, hd⟩
    · rw [hsame]
      exact ⟨x, hx, hname⟩
    · rw [hd]
      by_cases he : id = i
      · subst he
        obtain ⟨z', rfl, hz'⟩ := hc _ _ _ _ hon
        obtain rfl : x = z := Option.some.inj (hx.symm.trans (Docker.containers_of_find hi))
        exact ⟨z', by simp [Docker.setContainer, Docker.record], hz'.trans hname⟩
      · exact ⟨x, by simp [Docker.setContainer, Docker.record, he, hx], hname⟩
  · obtain ⟨rfl, -⟩ := Prod.mk.inj (Option.some.inj (hfind.symm.trans hi))
    exact hle

theorem keepsNamed_startInit (hS : ∀ c : Call, c.preparing → S c) (p : ProcessDb) :
    Prog.Keeps (KeepsNamed E S p.key p.name) (startInitContainer E p) := by
  refine Prog.keeps_bind (Steps.orThrow (keepsNamed_await (hS _ trivial) fun i x code x' h => ?_)) fun _ =>
    Prog.keeps_bind (Steps.orInterrupted (Prog.keeps_bind (keepsNamed_await (hS _ trivial) fun i x code x' h => ?_)
      fun r => ?_)) fun _ => Prog.keeps_pure _
  · obtain ⟨-, rfl⟩ := Prod.mk.inj (Except.ok.inj h)
    exact ⟨_, rfl, rfl⟩
  · simp only [onContainer] at h
    split_ifs at h
    · obtain ⟨-, rfl⟩ := Prod.mk.inj (Except.ok.inj h)
      exact ⟨_, rfl, Container.ended_name x _⟩
    · obtain ⟨-, rfl⟩ := Prod.mk.inj (Except.ok.inj h)
      exact ⟨_, rfl, rfl⟩
  · cases r with
    | ok _ => exact Prog.keeps_pure _
    | error _ => exact Prog.keeps_pure _

/-- a container that was just created is found by its name -/
theorem createProcess_findable {kind : ProcessKind} {draw : ℕ} {name kindKey : String} {item : Config} {p : ProcessDb}
    (ho : OlderRemovals w.docker.nextId w) (h : createProcess E kind draw name kindKey item w = (.ok p, w')) :
    p.key = w.docker.nextId ∧ Findable p.key p.name w' := by
  have heq : createProcess E kind draw name kindKey item = (do
      let id ← orThrow "CreateProcess" (createContainer E draw name (processConfig kind item))
      let container ← orThrow "CreateProcess" (inspectContainer E id)
      insertProcess E ⟨id, name, kind, kindKey, E.hostname, container.created, container.inspect id, rfl⟩) := rfl
  rw [heq] at h
  obtain ⟨id, a₁, h₁, hrest⟩ := Prog.bind_eq_ok h
  obtain ⟨c, a₂, h₂, hinsert⟩ := Prog.bind_eq_ok hrest
  obtain ⟨w₁, hw₁, ⟨e, hrun⟩ | hrun⟩ := createContainer_cases (E := E) draw name (processConfig kind item) w
  · rw [hrun] at h₁
    cases h₁
  · rw [hrun] at h₁
    obtain ⟨hid, rfl⟩ := Prod.mk.inj h₁
    obtain rfl := Except.ok.inj hid
    obtain ⟨w₂, hw₂, hfewer, hcases⟩ :=
      inspectContainer_cases (E := E) w.docker.nextId (w₁.added draw name (processConfig kind item))
    have ha₂ : a₂ = w₂ := by
      rcases hcases with ⟨e, hrun⟩ | ⟨c', -, hrun⟩
      · exact (Prod.mk.inj (h₂.symm.trans hrun)).2
      · exact (Prod.mk.inj (h₂.symm.trans hrun)).2
    subst ha₂
    obtain ⟨hp, rfl⟩ := Prod.mk.inj hinsert
    obtain rfl := Except.ok.inj hp
    have hborn : (w₁.added draw name (processConfig kind item)).docker.containers w.docker.nextId =
        some (newContainer w.docker.nextId name (processConfig kind item)) := by
      rw [← hw₁.nextId]
      simp [World.added, Docker.added, Docker.record, Docker.setContainer]
    have hold : OlderRemovals w.docker.nextId a₂ := (hw₂.grows (b := w.docker.nextId)).removals
      ((grows_added w₁ draw name _).removals ((hw₁.grows (b := w.docker.nextId)).removals ho))
    have hstill : a₂.docker.containers w.docker.nextId =
        some (newContainer w.docker.nextId name (processConfig kind item)) := by
      have hgrows := (hw₂.grows (b := w.docker.nextId)).containers
        ((grows_added w₁ draw name _).removals ((hw₁.grows (b := w.docker.nextId)).removals ho)) _ (le_refl _)
        (by rw [hborn]; rfl)
      obtain ⟨c', hc'⟩ := Option.isSome_iff_exists.1 hgrows
      rw [hc', ← hfewer _ _ hc', hborn]
    have hquiet := quiet_suspend (E := E) a₂
    have hnext : a₂.docker.nextId = w.docker.nextId + 1 := hw₂.nextId.trans (congrArg (· + 1) hw₁.nextId)
    refine ⟨rfl, (hquiet.grows (b := w.docker.nextId)).removals hold, ?_, _, suspend_containers hold hstill, rfl⟩
    change w.docker.nextId < (suspend E a₂).2.docker.nextId
    rw [hquiet.nextId, hnext]
    exact Nat.lt_succ_self _

/-! ## The preparation -/

theorem Call.creating.leavesUp {c : Call} (h : c.creating) : c.leavesUp := by
  cases c with
  | stopContainer _ | killContainer _ | waitContainer _ | removeContainer _ _ => exact h.elim
  | _ => trivial

theorem createInitContainer_findable {cargo : Cargo} {initContainer : Config} {p : ProcessDb}
    (ho : OlderRemovals w.docker.nextId w) (h : createInitContainer E cargo initContainer w = (.ok p, w')) :
    p.key = w.docker.nextId ∧ Findable p.key p.name w' := by
  unfold createInitContainer at h
  cases himage : cargo.spec.container.image with
  | none =>
    rw [himage] at h
    cases h
  | some image =>
    rw [himage] at h
    obtain ⟨_, a₁, h₁, hrest₁⟩ := Prog.bind_eq_ok h
    obtain ⟨_, a₂, h₂, hrest₂⟩ := Prog.bind_eq_ok hrest₁
    obtain ⟨_, a₃, h₃, hrest₃⟩ := Prog.bind_eq_ok hrest₂
    obtain ⟨_, a₄, h₄, hcreate⟩ := Prog.bind_eq_ok hrest₃
    have hq : Quiet w a₄ := IsTrans.trans _ _ _ (quiet_of_ok (steps_quiet.createTlsSecrets (fun _ => trivial) _ _ _) h₁)
      (IsTrans.trans _ _ _ (quiet_of_ok (steps_quiet.downloadImage (fun _ _ _ => trivial) _) h₂)
        (IsTrans.trans _ _ _ (quiet_of_ok (steps_quiet.loadEnvSecrets (fun _ => trivial) _) h₃)
          (quiet_of_ok steps_quiet.generateShortId h₄)))
    have hold : OlderRemovals a₄.docker.nextId a₄ := hq.nextId ▸ hq.grows.removals ho
    obtain ⟨hkey, hfindable⟩ := createProcess_findable hold hcreate
    exact ⟨hkey.trans hq.nextId, hfindable⟩

/-- fewer containers stay up -/
theorem StaysUp.mono {b' : ContainerId} (h : StaysUp E S b' w w') (hle : b ≤ b') (hb : b' ≤ w.docker.nextId) :
    StaysUp E S b w w' :=
  ⟨h.logs, h.nextId, h.removals, fun _ id hid => h.gone hb id (Nat.lt_of_lt_of_le hid hle),
    fun _ id hid => h.up hb id (Nat.lt_of_lt_of_le hid hle)⟩

/-- the steps of an update, in worlds whose ids are in order -/
def KeepsUp (E : Env) (S : Call → Prop) (b : ContainerId) (w w' : World) : Prop :=
  Consistent w ∧ b ≤ w.docker.nextId → (Consistent w' ∧ b ≤ w'.docker.nextId) ∧ StaysUp E S b w w'

instance : IsPreorder World (KeepsUp E S b) where
  refl w h := ⟨h, Std.Refl.refl w⟩
  trans _ _ _ h h' hw := ⟨(h' (h hw).1).1, IsTrans.trans _ _ _ (h hw).2 (h' (h hw).1).2⟩

theorem keepsUp_of {α : Type} {m : Io α} (hc : Prog.Keeps ConsistentKept m) (hup : Prog.Keeps (StaysUp E S b) m) :
    Prog.Keeps (KeepsUp E S b) m := fun w h => ⟨⟨hc w h.1, le_trans h.2 (hup w).nextId⟩, hup w⟩

/-- the init container is started and waited for by its name, which is no older container's -/
theorem keepsUp_runInit (hS : ∀ c : Call, c.preparing → S c) (cargo : Cargo) :
    Prog.Keeps (KeepsUp E S b) (update.runInit E cargo) := by
  intro w h
  have hconsistent : Consistent (update.runInit E cargo w).2 := steps_consistent.runInit (fun _ _ => trivial) cargo w h.1
  have hup : StaysUp E S b w (update.runInit E cargo w).2 := by
    unfold update.runInit
    cases cargo.spec.initContainer with
    | none => exact Std.Refl.refl w
    | some initContainer =>
      have hcreate : StaysUp E S b w (createInitContainer E cargo initContainer w).2 :=
        steps_staysUp.createInitContainer (fun c hc => ⟨hS c hc.preparing, hc.leavesUp⟩) cargo initContainer w
      dsimp only
      rcases hrun : createInitContainer E cargo initContainer w with ⟨e | p, w₁⟩
      · rw [hrun] at hcreate
        rwa [Prog.bind_of_error hrun]
      · rw [hrun] at hcreate
        obtain ⟨hkey, hfindable⟩ := createInitContainer_findable h.1.removals hrun
        rw [Prog.bind_of_ok hrun]
        have hstart := (keepsNamed_startInit (E := E) hS p w₁ hfindable).2
        exact IsTrans.trans _ _ _ hcreate (hstart.mono (hkey ▸ h.2) (Nat.le_of_lt hfindable.bound))
  exact ⟨⟨hconsistent, le_trans h.2 hup.nextId⟩, hup⟩

/-- an old instance is renamed, and stopped before if docker is restarting it -/
theorem keepsUp_flagOld {p : ProcessDb} (hstop : isRestarting p = true → S (.stopContainer (.name p.name)))
    (hrename : S (.renameContainer (.id p.key) ("tmp-" ++ p.name))) : Prog.Keeps (KeepsUp E S b) (flagOld E p) := by
  have F := steps_staysUp (E := E) (S := S) (b := b)
  refine keepsUp_of (steps_consistent.flagOld trivial trivial) ?_
  unfold flagOld
  split_ifs with h
  · exact Prog.keeps_bind (Steps.orThrow (F.await ⟨hstop h, trivial⟩ _)) fun _ => F.throwing ⟨hrename, trivial⟩ _ _
  · exact F.throwing ⟨hrename, trivial⟩ _ _

/-- docker is asked to stop an instance of the cargo by its name only where its row says that docker is restarting it -/
def StopsRestarting (w : World) (key : String) (c : Call) : Prop :=
  ∀ name, c = .stopContainer (.name name) → ∃ p ∈ w.db.processes, p.kindKey = key ∧ isRestarting p = true ∧ p.name = name

theorem Call.preparing.stopsRestarting {c : Call} (h : c.preparing) : StopsRestarting w key c := by
  intro name heq
  subst heq
  exact h.elim

/-- the rows that an update reads are rows of the cargo -/
theorem processesOf_rows (hq : Quiet w w') {p : ProcessDb} (hp : p ∈ w'.db.processesOf key) :
    p ∈ w.db.processes ∧ p.kindKey = key := by
  obtain ⟨hmem, hkey⟩ := List.mem_filter.1 (ProcessDb.mem_of_mem_newest100 hp)
  exact ⟨hq.rows.subset hmem, by simpa using hkey⟩

theorem prepare_staysUp (hw : Consistent w) :
    StaysUp E (StopsRestarting w key) w.docker.nextId w (prepare E key w).2 := by
  have F := steps_staysUp (E := E) (S := StopsRestarting w key) (b := w.docker.nextId)
  have hread : KeepsUp E (StopsRestarting w key) w.docker.nextId w (readCargo E key w).2 :=
    keepsUp_of (steps_consistent.readDb _) (F.readDb _) w
  have hquiet : Quiet w (readCargo E key w).2 := steps_quiet.readDb _ w
  unfold prepare
  rcases hrun : readCargo E key w with ⟨e | cargo, a₁⟩
  · rw [hrun] at hread
    rw [Prog.bind_of_error hrun]
    exact (hread ⟨hw, le_refl _⟩).2
  · rw [hrun] at hread hquiet
    rw [Prog.bind_of_ok hrun, Prog.bind_of_ok (readByKindKey_run E key a₁)]
    have hsuspend : KeepsUp E (StopsRestarting w key) w.docker.nextId a₁ (suspend E a₁).2 :=
      keepsUp_of steps_consistent.suspend staysUp_suspend a₁
    have hrows : ∀ p ∈ (suspend E a₁).2.db.processesOf key, p ∈ w.db.processes ∧ p.kindKey = key := fun p hp =>
      processesOf_rows (IsTrans.trans _ _ _ hquiet (quiet_suspend (E := E) a₁)) hp
    refine ((IsTrans.trans _ _ _ hread (IsTrans.trans _ _ _ hsuspend (Prog.keeps_bind (Prog.keeps_joinAll fun p hp => ?_)
      (fun _ => Prog.keeps_bind (keepsUp_runInit (fun c hc => hc.stopsRestarting) cargo) fun _ =>
        Prog.keeps_bind (keepsUp_of (steps_consistent.createInstances (fun _ _ => trivial) _ _)
          (F.createInstances (fun c hc => ⟨hc.preparing.stopsRestarting, hc.leavesUp⟩) _ _)) fun _ => Prog.keeps_pure _) _)))
            ⟨hw, le_refl _⟩).2
    refine keepsUp_flagOld (fun hp' name heq => ⟨p, (hrows p hp).1, (hrows p hp).2, hp', ?_⟩) fun name heq => by cases heq
    exact Ref.name.inj (Call.stopContainer.inj heq)

/-! ## The end -/

/-- where the start fails, the new instances are removed and the old ones get their names back -/
theorem finish_failed {processes instances : List ProcessDb} {e : IoError} {w₁ : World}
    (hstart : startInstances E key .cargo w = (.error e, w₁)) (hnew : ∀ p ∈ instances, b ≤ p.key) :
    StaysUp E (StopsRestarting w' key) b w₁ (update.finish E key processes instances w).2 := by
  have F := steps_staysUp (E := E) (S := StopsRestarting w' key) (b := b)
  rw [update.finish, Prog.bind_of_ok (Prog.run_attempt _ w), hstart]
  refine Prog.keeps_bind (Prog.keeps_attempt (Prog.keeps_bind (Prog.keeps_joinAll fun pk hpk => ?_) fun _ =>
    Prog.keeps_pure _)) (fun _ => Prog.keeps_bind (Prog.keeps_attempt (Prog.keeps_joinAll fun p _ => ?_)) fun _ =>
      Prog.keeps_pure _) w₁
  · obtain ⟨p, hp, rfl⟩ := List.mem_map.1 hpk
    exact staysUp_deleteInstance (hnew p hp) fun name heq => by cases heq
  · exact F.renameBack ⟨fun name heq => (by cases heq), trivial⟩

/-- the update starts its new instances: at the end they all run, if there are no more of them than a read returns -/
def Replaced (E : Env) (key : String) (w : World) : Prop :=
  ∃ cargo, w.db.cargoes key = some cargo ∧
    (cargo.spec.number ≤ 100 → ∀ id ∈ cargo.instanceIds w, ∃ config, Up (update E key w).2 id config)

/-- an update that started its instances replaces the old ones -/
theorem update_replaced {cargo : Cargo} {processes instances : List ProcessDb} {w₁ w₂ : World} (hw : Consistent w)
    (hp : prepare E key w = (.ok (cargo, processes, instances), w₁))
    (hs : startInstances E key .cargo w₁ = (.ok (), w₂)) : Replaced E key w := by
  obtain ⟨w₀, h⟩ := prepare_ok hw hp
  have hok : (startInstances E key .cargo w₁).1 = .ok () := by rw [hs]
  refine ⟨cargo, h.read, fun hnumber id hid => ?_⟩
  obtain ⟨hfate, -⟩ := (h.startInstances_ok_iff hw hp hnumber).1 hok
  rw [h.ids] at hid
  obtain ⟨p, hmem, rfl⟩ := List.mem_map.1 hid
  obtain ⟨c, hc⟩ := Option.isSome_iff_exists.1 (h.new.containers p hmem)
  have hup := h.still_up hw (.inl hok) hmem (h.instances_up hw hp hnumber hfate hmem hc)
  rw [update_eq, Prog.bind_of_ok hp]
  exact ⟨c.config, hup⟩

/-- **An update has no downtime.** Whatever calls fail and whatever removals of earlier updates go on, a container that
runs before an update runs after it with the same configuration; unless such a removal took it away, or a row of the cargo
said that docker was restarting it, or it is an old instance of the cargo and all the new ones run instead. -/
theorem update_zero_downtime (E : Env) (key : String) {w : World} (hw : Consistent w) {id : ContainerId} {config : Config}
    (hid : id < w.docker.nextId) (hup : Up w id config) :
    Up (update E key w).2 id config ∨
      ((∃ r ∈ w.removals, r.id = id) ∧ (update E key w).2.docker.containers id = none) ∨
      (∃ p ∈ w.db.processes, p.kindKey = key ∧ isRestarting p = true ∧
        Done w (update E key w).2 (.stopContainer (.name p.name)) id) ∨
      ((∃ p ∈ w.db.processes, p.kindKey = key ∧ p.key = id) ∧ Replaced E key w) := by
  -- a run in which no removal is spawned
  have hcalm : StaysUp E (StopsRestarting w key) w.docker.nextId w (update E key w).2 →
      Up (update E key w).2 id config ∨
        ((∃ r ∈ w.removals, r.id = id) ∧ (update E key w).2.docker.containers id = none) ∨
        (∃ p ∈ w.db.processes, p.kindKey = key ∧ isRestarting p = true ∧
          Done w (update E key w).2 (.stopContainer (.name p.name)) id) ∨
        ((∃ p ∈ w.db.processes, p.kindKey = key ∧ p.key = id) ∧ Replaced E key w) := by
    intro h
    rcases h.up (le_refl _) id hid config hup with hup | hremoved | ⟨name, hdone⟩
    · exact .inl hup
    · exact .inr (.inl hremoved)
    · obtain ⟨p, hp, hkey, hrestarting, rfl⟩ := (hdone.of_logs h.logs).1 name rfl
      exact .inr (.inr (.inl ⟨p, hp, hkey, hrestarting, hdone⟩))
  have hprepare : StaysUp E (StopsRestarting w key) w.docker.nextId w (prepare E key w).2 := prepare_staysUp hw
  rcases hp : prepare E key w with ⟨e | ⟨cargo, processes, instances⟩, w₁⟩
  · rw [hp] at hprepare
    have hupdate : update E key w = (.error e, w₁) := by rw [update_eq, Prog.bind_of_error hp]
    apply hcalm
    rw [hupdate]
    exact hprepare
  · rw [hp] at hprepare
    obtain ⟨w₀, h⟩ := prepare_ok hw hp
    have hnew : ∀ p ∈ instances, w.docker.nextId ≤ p.key := fun _ => h.le_new
    have hupdate : update E key w = conclude E key cargo processes instances w₁ := by
      rw [update_eq, Prog.bind_of_ok hp]
    have hend : ∀ {S : Call → Prop} {b : ContainerId} {w₂ : World}, (update.finish E key processes instances w₁).2 = w₂ →
        StaysUp E S b w₂ (update E key w).2 := by
      intro S b w₂ hfinish
      rw [hupdate, conclude, Prog.bind_of_ok (Prog.eq_of_ok (finish_ok processes instances w₁)), hfinish]
      have F := steps_staysUp (E := E) (S := S) (b := b)
      exact Prog.keeps_bind (F.updateActualStatus _ _) (fun _ => F.emitNormal _ _ _) w₂
    have hstarts : StaysUp E (StopsRestarting w key) w.docker.nextId w₁ (startInstances E key .cargo w₁).2 :=
      (steps_staysUp (E := E)).startInstances (fun _ => ⟨fun name heq => (by cases heq), trivial⟩) w₁
    rcases hs : startInstances E key .cargo w₁ with ⟨e | u, w₂⟩
    · rw [hs] at hstarts
      have hfailed : StaysUp E (StopsRestarting w key) w.docker.nextId w₂
          (update.finish E key processes instances w₁).2 := finish_failed hs hnew
      apply hcalm
      exact IsTrans.trans _ _ _ hprepare (IsTrans.trans _ _ _ hstarts (IsTrans.trans _ _ _ hfailed (hend rfl)))
    · rw [hs] at hstarts
      have hfinish : (update.finish E key processes instances w₁).2 =
          { w₂ with removals := w₂.removals ++ processes.map fun p => ⟨p.key, false⟩ } := by
        rw [update.finish, Prog.bind_of_ok (Prog.run_attempt _ w₁), hs]
        rfl
      have hbefore : StaysUp E (StopsRestarting w key) w.docker.nextId w w₂ := IsTrans.trans _ _ _ hprepare hstarts
      have hafter : StaysUp E (StopsRestarting w key) w.docker.nextId _ (update E key w).2 := hend hfinish
      have hrefl := Std.Refl.refl (r := Logs E (StopsRestarting w key))
      rcases hbefore.up (le_refl _) id hid config hup with hup₂ | ⟨hremoved, hnone⟩ | ⟨name, hdone⟩
      · rcases hafter.up hbefore.nextId id hid config hup₂ with hup' | ⟨⟨r, hr, he⟩, hnone⟩ | ⟨name, hdone⟩
        · exact .inl hup'
        · rcases List.mem_append.1 hr with hr | hr
          · obtain ⟨r', hr', he'⟩ := hbefore.removals r hr
            exact .inr (.inl ⟨⟨r', hr', he'.trans he⟩, hnone⟩)
          · obtain ⟨p, hp', rfl⟩ := List.mem_map.1 hr
            obtain ⟨hrow, hkey⟩ := h.old_rows hp'
            exact .inr (.inr (.inr ⟨⟨p, hrow, hkey, he⟩, update_replaced hw hp hs⟩))
        · obtain ⟨p, hp', hkey, hrestarting, rfl⟩ := (hdone.of_logs hafter.logs).1 name rfl
          exact .inr (.inr (.inl ⟨p, hp', hkey, hrestarting, hdone.mono hbefore.logs (hrefl _)⟩))
      · exact .inr (.inl ⟨hremoved, hafter.gone hbefore.nextId id hid hnone⟩)
      · obtain ⟨p, hp', hkey, hrestarting, rfl⟩ := (hdone.of_logs hbefore.logs).1 name rfl
        exact .inr (.inr (.inl ⟨p, hp', hkey, hrestarting, hdone.mono (hrefl w) hafter.logs⟩))

/-- docker refuses to start the new instance, and the old one runs on -/
theorem update_refused_up : Up (update (startRefused 1) "web.global" webWorld).2 0 webContainer.config := by
  have hup : Up webWorld 0 webContainer.config := ⟨webContainer, rfl, rfl, rfl⟩
  rcases update_zero_downtime (startRefused 1) "web.global" webWorld_consistent (by decide) hup with
    h | ⟨⟨r, hr, -⟩, -⟩ | ⟨p, hp, -, hrestarting, -⟩ | ⟨-, cargo, hcargo, hreplaced⟩
  · exact h
  · cases hr
  · obtain rfl := List.mem_singleton.1 hp
    cases hrestarting
  · obtain rfl : webCargo = cargo := by simpa [webWorld] using hcargo
    obtain ⟨config, c, hc, -⟩ := hreplaced (by decide) 1 (by decide)
    have hnone : (update (startRefused 1) "web.global" webWorld).2.docker.containers 1 = none := by decide
    rw [hnone] at hc
    cases hc

end Nanocl.Runtime
