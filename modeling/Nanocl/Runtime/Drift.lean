/-
What the spawned removals alone make of the world, and how often a task is suspended.

A task is suspended at each call and at each query, and the removals of earlier tasks run then. As long as the task itself
removes nothing, they do to the containers and the rows of before what they would have done without it.

- `drift E w n`: the world after `n` suspensions in which nothing else happens.
- `Drifted b`: below the id `b` the same containers exist as in the drift, and the rows are the same; each step of a task
  that removes nothing keeps it.
- `Takes n`: a program that is suspended `n` times if it returns.
-/
import Nanocl.Runtime.Instances

namespace Nanocl.Runtime

open Nanocl.Lib

variable {E : Env} {b : ContainerId} {u v w w' : World}

/-! ## Drift -/

/-- only the spawned removals go on, for so many suspensions -/
def drift (E : Env) (w : World) : ℕ → World
  | 0 => w
  | n + 1 => (suspend E (drift E w n)).2

theorem drift_add (m n : ℕ) : drift E w (m + n) = drift E (drift E w m) n := by
  induction n with
  | zero => rfl
  | succ n ih => rw [← Nat.add_assoc, drift, ih, drift]

theorem quiet_drift (n : ℕ) : Quiet w (drift E w n) := by
  induction n with
  | zero => exact Std.Refl.refl w
  | succ n ih => exact IsTrans.trans _ _ _ ih (quiet_suspend _)

/-- below the id the same containers exist and the rows are the same, and the same removals go on -/
structure Alike (b : ContainerId) (u v : World) : Prop where
  ticks : v.ticks = u.ticks
  removals : v.removals = u.removals
  containers : ∀ id < b, (v.docker.containers id).isSome = (u.docker.containers id).isSome
  rows : v.db.processes.filter (fun p => p.key < b) = u.db.processes.filter fun p => p.key < b

theorem Alike.trans {x : World} (h : Alike b u v) (h' : Alike b v x) : Alike b u x where
  ticks := h'.ticks.trans h.ticks
  removals := h'.removals.trans h.removals
  containers id hid := (h'.containers id hid).trans (h.containers id hid)
  rows := h'.rows.trans h.rows

theorem Alike.removalStep (h : Alike b u v) (s : RemovalStep) : Alike b (u.removalStep s) (v.removalStep s) := by
  cases s with
  | remove i =>
    simp only [World.removalStep]
    rw [h.removals]
    split_ifs
    · refine ⟨h.ticks, rfl, fun id hid => ?_, h.rows⟩
      by_cases he : id = i
      · simp [Docker.setContainer, he]
      · simpa [Docker.setContainer, he] using h.containers id hid
    · exact h
  | refused i =>
    refine ⟨h.ticks, ?_, h.containers, h.rows⟩
    change (v.removals.filter _) = u.removals.filter _
    rw [h.removals]
  | deleteRow i =>
    simp only [World.removalStep]
    rw [h.removals]
    split_ifs
    · refine ⟨h.ticks, rfl, h.containers, ?_⟩
      have hcomm : ∀ l : List ProcessDb, (l.filter fun p => p.key ≠ i).filter (fun p => p.key < b) =
          (l.filter fun p => p.key < b).filter fun p => p.key ≠ i := fun l => List.filter_comm ..
      change (v.db.processes.filter fun p => p.key ≠ i).filter _ = (u.db.processes.filter fun p => p.key ≠ i).filter _
      rw [hcomm, hcomm, h.rows]
    · exact h

theorem Alike.suspend (h : Alike b u v) : Alike b (suspend E u).2 (suspend E v).2 := by
  have hfold : ∀ steps : List RemovalStep, ∀ u v, Alike b u v →
      Alike b (steps.foldl World.removalStep u) (steps.foldl World.removalStep v) := by
    intro steps
    induction steps with
    | nil => exact fun _ _ h => h
    | cons s steps ih => exact fun u v h => ih _ _ (h.removalStep s)
  have hsteps := hfold (E.interference u.ticks) u v h
  have hrun : ∀ w, (Runtime.suspend E w).2 =
      { (E.interference w.ticks).foldl World.removalStep w with ticks := w.ticks + 1 } := fun _ => rfl
  rw [hrun, hrun, h.ticks]
  exact ⟨rfl, hsteps.removals, hsteps.containers, hsteps.rows⟩

theorem Alike.drift (h : Alike b u v) (n : ℕ) : Alike b (drift E u n) (drift E v n) := by
  induction n with
  | zero => exact h
  | succ n ih => exact ih.suspend

theorem drift_ticks (n : ℕ) : (drift E w n).ticks = w.ticks + n := by
  induction n with
  | zero => rfl
  | succ n ih =>
    change (drift E w n).ticks + 1 = w.ticks + (n + 1)
    rw [ih, Nat.add_assoc]

/-! ## Tasks that remove nothing -/

/-- ids below `b` were given out before; of their containers and rows a task leaves what the drift leaves -/
structure Drifted (E : Env) (b : ContainerId) (w w' : World) : Prop where
  nextId : w.docker.nextId ≤ w'.docker.nextId
  alike : b ≤ w.docker.nextId → ∃ n, Alike b (drift E w n) w'

instance : IsPreorder World (Drifted E b) where
  refl w := ⟨le_refl _, fun _ => ⟨0, rfl, rfl, fun _ _ => rfl, rfl⟩⟩
  trans _ _ _ h h' := by
    refine ⟨h.nextId.trans h'.nextId, fun hb => ?_⟩
    obtain ⟨m, hm⟩ := h.alike hb
    obtain ⟨n, hn⟩ := h'.alike (hb.trans h.nextId)
    exact ⟨m + n, by rw [drift_add]; exact (hm.drift n).trans hn⟩

/-- how far it drifted is told by the suspensions -/
theorem Drifted.at {n : ℕ} (h : Drifted E b w w') (hb : b ≤ w.docker.nextId) (ht : w'.ticks = w.ticks + n) :
    Alike b (drift E w n) w' := by
  obtain ⟨m, hm⟩ := h.alike hb
  have hticks := hm.ticks
  rw [drift_ticks] at hticks
  obtain rfl : m = n := by omega
  exact hm

/-- a step between two suspensions -/
theorem Drifted.of_same (hn : w.docker.nextId ≤ w'.docker.nextId) (ht : w'.ticks = w.ticks)
    (hr : w'.removals = w.removals)
    (hc : b ≤ w.docker.nextId → ∀ id < b, (w'.docker.containers id).isSome = (w.docker.containers id).isSome)
    (hp : b ≤ w.docker.nextId → w'.db.processes.filter (fun p => p.key < b) = w.db.processes.filter fun p => p.key < b) :
    Drifted E b w w' :=
  ⟨hn, fun hb => ⟨0, ht, hr, hc hb, hp hb⟩⟩

theorem drifted_suspend : Prog.Keeps (Drifted E b) (suspend E) := fun w =>
  ⟨(quiet_suspend w).nextId.ge, fun _ => ⟨1, rfl, rfl, fun _ _ => rfl, rfl⟩⟩

/-- a call that is no removal leaves the same containers -/
theorem call_isSome_eq {c : Call} (hc : c.keeping) (ref : Ref) (d : Docker) (id : ContainerId) :
    ((d.call E c ref).2.containers id).isSome = (d.containers id).isSome := by
  rcases Docker.call_cases (E := E) c ref d with hd | ⟨i, x, code, x', hfind, hon, hd⟩
  · rw [hd]
  · rw [hd]
    by_cases he : id = i
    · subst he
      rw [Function.update_self, onContainer_isSome hc.ne_remove hon, Docker.containers_of_find hfind, Option.isSome_some]
    · rw [Function.update_of_ne he]

theorem drifted_createContainer (draw : ℕ) (name : String) (config : Config) :
    Prog.Keeps (Drifted E b) (createContainer E draw name config) := by
  refine Prog.keeps_bind drifted_suspend fun _ w => ?_
  rw [Prog.run_lift]
  unfold Docker.createContainer
  split
  · exact .of_same le_rfl rfl rfl (fun _ _ _ => rfl) fun _ => rfl
  · refine .of_same (Nat.le_succ _) rfl rfl (fun hb id hid => ?_) fun _ => rfl
    have hne : id ≠ w.docker.nextId := Nat.ne_of_lt (Nat.lt_of_lt_of_le hid hb)
    simp [Docker.record, Docker.setContainer, hne]

theorem drifted_inspectContainer (id : ContainerId) : Prog.Keeps (Drifted E b) (inspectContainer E id) := by
  refine Prog.keeps_bind drifted_suspend fun _ w => ?_
  rw [Prog.run_lift]
  unfold Docker.inspectContainer
  split <;> exact .of_same le_rfl rfl rfl (fun _ _ _ => rfl) fun _ => rfl

/-- a container that was created gets a row above the id -/
theorem drifted_createProcess (kind : ProcessKind) (draw : ℕ) (name kindKey : String) (item : Config) :
    Prog.Keeps (Drifted E b) (createProcess E kind draw name kindKey item) := by
  intro w
  have hdef : createProcess E kind draw name kindKey item = (do
      let id ← orThrow "CreateProcess" (createContainer E draw name (processConfig kind item))
      let container ← orThrow "CreateProcess" (inspectContainer E id)
      insertProcess E ⟨id, name, kind, kindKey, E.hostname, container.created, container.inspect id, rfl⟩) := rfl
  rw [hdef]
  have hcreate : Drifted E b w
      (orThrow "CreateProcess" (createContainer E draw name (processConfig kind item)) w).2 :=
    Steps.orThrow (drifted_createContainer draw name (processConfig kind item)) w
  obtain ⟨w₀, hq, ⟨e, hrun⟩ | hrun⟩ := createContainer_cases (E := E) draw name (processConfig kind item) w
  · rw [Prog.bind_of_error hrun]
    rwa [hrun] at hcreate
  · rw [Prog.bind_of_ok hrun]
    rw [hrun] at hcreate
    have hinspect : Drifted E b (w₀.added draw name (processConfig kind item)) (orThrow "CreateProcess"
        (inspectContainer E w.docker.nextId) (w₀.added draw name (processConfig kind item))).2 :=
      Steps.orThrow (drifted_inspectContainer w.docker.nextId) (w₀.added draw name (processConfig kind item))
    rcases hc : orThrow "CreateProcess" (inspectContainer E w.docker.nextId)
      (w₀.added draw name (processConfig kind item)) with ⟨e | c, w₂⟩
    · rw [Prog.bind_of_error hc]
      rw [hc] at hinspect
      exact IsTrans.trans _ _ _ hcreate hinspect
    · rw [Prog.bind_of_ok hc]
      rw [hc] at hinspect
      have hbefore : Drifted E b w (suspend E w₂).2 :=
        IsTrans.trans _ _ _ hcreate (IsTrans.trans _ _ _ hinspect (drifted_suspend w₂))
      refine ⟨hbefore.nextId, fun hb => ?_⟩
      obtain ⟨n, hn⟩ := hbefore.alike hb
      refine ⟨n, hn.ticks, hn.removals, hn.containers, ?_⟩
      rw [← hn.rows]
      change ((suspend E w₂).2.db.processes ++ [_]).filter _ = _
      have hnot : ¬ w.docker.nextId < b := Nat.not_lt.2 hb
      rw [List.filter_append, List.filter_singleton]
      simp [hnot]

theorem steps_drifted : Steps E Call.keeping (Drifted E b) where
  suspend := drifted_suspend
  call _ hc ref w := .of_same (by simp) rfl rfl (fun _ id _ => call_isSome_eq hc ref w.docker id) fun _ => rfl
  inert c _ w := by
    obtain ⟨hc, hn⟩ := callInert_containers (E := E) c w.docker
    exact .of_same hn.ge rfl rfl (fun _ id _ => by rw [hc]) fun _ => rfl
  draw _ := .of_same le_rfl rfl rfl (fun _ _ _ => rfl) fun _ => rfl
  create _ := drifted_createProcess
  status _ _ _ := .of_same le_rfl rfl rfl (fun _ _ _ => rfl) fun _ => rfl
  emit _ _ := .of_same le_rfl rfl rfl (fun _ _ _ => rfl) fun _ => rfl

/-! ## Suspensions -/

/-- the program is suspended so many times, if it returns -/
def Takes {α : Type} (n : ℕ) (m : Io α) : Prop := Prog.Advances World.ticks n m

theorem takes_suspend : Takes 1 (suspend E) := Prog.advances_modify fun _ => rfl

theorem takes_await {α : Type} (call : Docker → α × Docker) : Takes 1 (await E call) :=
  (Prog.advances_bind takes_suspend fun _ => Prog.advances_lift (n := 0) fun _ => rfl).of_eq rfl

theorem takes_modifyDb (f : Database → Database) : Takes 1 (modifyDb E f) := by
  intro w _ w' h
  obtain ⟨-, rfl⟩ := Prod.mk.inj h
  rfl

/-- what comes after is done at once -/
theorem takes_then {α β : Type} {n : ℕ} {m : Io α} {f : α → Io β} (hm : Takes n m) (hf : ∀ a, Takes 0 (f a)) :
    Takes n (m >>= f) := (Prog.advances_bind hm hf).of_eq rfl

theorem takes_pure {α : Type} (a : α) : Takes 0 (pure a : Io α) := Prog.advances_pure a

theorem Takes.orThrow {α : Type} {n : ℕ} {m : Io (Except DockerError α)} (hm : Takes n m) (context : String) :
    Takes n (orThrow context m) :=
  takes_then hm fun r => by
    cases r with
    | ok a => exact takes_pure a
    | error e => exact Prog.advances_fail 0 _

theorem Takes.orInterrupted {α : Type} {n : ℕ} {m : Io (Except DockerError α)} (hm : Takes n m) (context : String) :
    Takes n (orInterrupted context m) :=
  takes_then hm fun r => by
    cases r with
    | ok a => exact takes_pure a
    | error e => exact Prog.advances_fail 0 _

theorem takes_throwing (c : Call) (ref : Ref) (context : String) : Takes 1 (do
    let _ ← orThrow context (await E (Docker.call E c ref))
    return () : Io Unit) :=
  takes_then ((takes_await _).orThrow context) fun _ => takes_pure ()

/-- an image is pulled or not -/
def pulls (E : Env) (image : String) : ImagePullPolicy → ℕ
  | .never => 0
  | .ifNotPresent => if E.imagePresent image then 0 else 1
  | .always => 1

theorem takes_download (image : String) (secret : Option String) (policy : ImagePullPolicy) :
    Takes (pulls E image policy) (download E image secret policy) := by
  have hpull : Takes 1 (download.pull E image secret) := by
    unfold download.pull
    split
    · exact Prog.advances_fail 1 _
    · exact (Prog.advances_bind Prog.advances_get fun _ => (takes_await _).orThrow _).of_eq rfl
  cases policy with
  | never => exact takes_pure ()
  | always => exact hpull
  | ifNotPresent =>
    unfold download pulls
    dsimp only
    split_ifs
    · exact takes_pure ()
    · exact hpull

/-- the secrets are read if there are any -/
def reads (secrets : Option (List String)) : ℕ := if secrets.isSome then 1 else 0

theorem takes_loadEnvSecrets (secrets : Option (List String)) : Takes (reads secrets) (loadEnvSecrets E secrets) := by
  cases secrets with
  | none => exact takes_pure []
  | some secrets =>
    exact (Prog.advances_bind Prog.advances_get fun _ => takes_then ((takes_await _).orThrow _) fun _ => takes_pure _).of_eq rfl

theorem takes_createTlsSecrets (key : String) (kind : ProcessKind) (secrets : Option (List String)) :
    Takes (reads secrets) (createTlsSecrets E key kind secrets) := by
  unfold createTlsSecrets reads
  dsimp only
  split_ifs
  · exact (Prog.advances_bind Prog.advances_get fun _ => takes_then ((takes_await _).orThrow _) fun _ => takes_pure _).of_eq rfl
  · exact takes_pure _

theorem takes_generateShortId : Takes 0 (generateShortId E) :=
  takes_then Prog.advances_get fun _ => takes_then (Prog.advances_modify fun _ => rfl) fun _ => takes_pure _

theorem takes_createProcess (kind : ProcessKind) (draw : ℕ) (name kindKey : String) (item : Config) :
    Takes 3 (createProcess E kind draw name kindKey item) :=
  (Prog.advances_bind ((takes_await _).orThrow _) fun _ => Prog.advances_bind ((takes_await _).orThrow _) fun _ =>
    takes_then (takes_modifyDb _) fun _ => takes_pure _).of_eq rfl

theorem takes_startInitContainer (p : ProcessDb) : Takes 2 (startInitContainer E p) := by
  have hwait : Takes 1 (waitContainer E (.name p.name)) := takes_then (takes_await _) fun r => by
    cases r with
    | ok a => exact takes_pure _
    | error e => exact takes_pure _
  exact (Prog.advances_bind ((takes_await _).orThrow _) fun _ =>
    takes_then (hwait.orInterrupted _) fun _ => takes_pure _).of_eq rfl

/-- the old instance is stopped if it is restarting, and renamed -/
def flagTicks (p : ProcessDb) : ℕ := if isRestarting p then 2 else 1

theorem takes_flagOld (p : ProcessDb) : Takes (flagTicks p) (flagOld E p) := by
  unfold flagOld flagTicks
  split_ifs
  · exact (Prog.advances_bind ((takes_await _).orThrow _) fun _ => takes_throwing _ _ _).of_eq rfl
  · exact takes_throwing _ _ _

/-- the creation of the instances: the gateway, the image and the secrets, and three steps for each instance -/
def createTicks (E : Env) (cargo : Cargo) : ℕ :=
  let spec := (cargo.inject E.internalGateway).spec
  1 + (pulls E (spec.container.image.getD "") (spec.imagePullPolicy.getD .ifNotPresent) + (reads spec.secrets +
    (reads spec.secrets + 3 * cargo.spec.number)))

theorem takes_create (cargo : Cargo) : Takes (createTicks E cargo) (create E cargo cargo.spec.number) := by
  intro w ps w' h
  obtain ⟨cargo', w₁, h₁, h₂⟩ := Prog.bind_eq_ok h
  have hinject : Takes 1 (injectData E cargo) := takes_then ((takes_await _).orThrow _) fun _ => takes_pure _
  obtain rfl := injectData_ok h₁
  have hrest := Prog.advances_bind (takes_download (E := E) ((cargo.inject E.internalGateway).spec.container.image.getD "")
    (cargo.inject E.internalGateway).spec.imagePullSecret
    ((cargo.inject E.internalGateway).spec.imagePullPolicy.getD .ifNotPresent)) fun _ =>
      Prog.advances_bind (takes_loadEnvSecrets (E := E) (cargo.inject E.internalGateway).spec.secrets) fun envSecrets =>
        Prog.advances_bind (takes_createTlsSecrets (E := E) (cargo.inject E.internalGateway).key .cargo
          (cargo.inject E.internalGateway).spec.secrets) fun secretDir =>
          Prog.advances_joinAll (n := fun _ => 3) (l := List.range cargo.spec.number) (f := createInstance E
            (cargo.inject E.internalGateway) secretDir envSecrets) fun current => by
            unfold createInstance
            refine (Prog.advances_bind (n := 3) takes_generateShortId fun a => ?_).of_eq rfl
            dsimp only
            split_ifs
            · exact Prog.advances_fail 3 _
            · exact takes_createProcess _ _ _ _ _
  have hthree : ((List.range cargo.spec.number).map fun _ => 3).sum = 3 * cargo.spec.number := by
    simp [Nat.mul_comm]
  rw [hthree] at hrest
  rw [hrest w₁ ps w' h₂, hinject w _ w₁ h₁, createTicks, Nat.add_assoc]

/-- the init container, if there is one: its image and secrets, its creation, its start and the wait for its end -/
def initTicks (E : Env) (cargo : Cargo) : ℕ :=
  match cargo.spec.initContainer with
  | none => 0
  | some initContainer =>
    (reads cargo.spec.secrets + (pulls E (initContainer.image.getD (cargo.spec.container.image.getD ""))
      (cargo.spec.imagePullPolicy.getD .ifNotPresent) + (reads cargo.spec.secrets + 3))) + 2

theorem takes_runInit (cargo : Cargo) : Takes (initTicks E cargo) (update.runInit E cargo) := by
  unfold update.runInit initTicks
  cases cargo.spec.initContainer with
  | none => exact takes_pure ()
  | some initContainer =>
    refine Prog.advances_bind ?_ takes_startInitContainer
    unfold createInitContainer
    cases cargo.spec.container.image with
    | none => exact Prog.advances_fail _ _
    | some image =>
      exact Prog.advances_bind (takes_createTlsSecrets _ _ _) fun _ => Prog.advances_bind (takes_download _ _ _) fun _ =>
        Prog.advances_bind (takes_loadEnvSecrets _) fun _ => (Prog.advances_bind takes_generateShortId fun _ =>
          takes_createProcess _ _ _ _ _).of_eq rfl

end Nanocl.Runtime
