/-
Frames of the tasks. `Framed E S R` says that the steps a task is made of keep the relation `R`, as long as its calls are
in the set `S`, and `Steps E S R` says it of the steps that delete no row and spawn no removal; each function of the tasks
then gets its rule once, for every such relation and any interference of the spawned removals.
-/
import Nanocl.Runtime.Job
import Nanocl.Runtime.Cargo

namespace Nanocl.Runtime

open Nanocl.Lib

/-- the calls by which a task creates containers -/
def Call.creating : Call → Prop
  | .inspectNetwork | .createImage .. | .loadEnvSecrets _ | .createTlsSecrets _ | .createContainer ..
  | .inspectContainer _ => True
  | _ => False

/-- the calls by which a task creates containers and runs an init container -/
def Call.preparing : Call → Prop
  | .startContainer (.name _) | .waitContainer _ => True
  | c => c.creating

theorem Call.creating.preparing {c : Call} (h : c.creating) : c.preparing := by
  cases c with
  | startContainer _ | waitContainer _ => cases h
  | _ => exact h

/-- a suspension keeps what each step of the removals keeps -/
theorem keeps_suspend {E : Env} {R : World → World → Prop} [IsPreorder World R] (hstep : ∀ w s, R w (w.removalStep s))
    (htick : ∀ w : World, R w { w with ticks := w.ticks + 1 }) : Prog.Keeps R (suspend E) := by
  intro w
  have hfold : ∀ (l : List RemovalStep) (w : World), R w (l.foldl World.removalStep w) := by
    intro l
    induction l with
    | nil => exact fun w => Std.Refl.refl w
    | cons s l ih => exact fun w => IsTrans.trans _ _ _ (hstep w s) (ih _)
  -- the counter of the suspensions is the one before the removals ran
  have hticks : ∀ (l : List RemovalStep) (w : World), (l.foldl World.removalStep w).ticks = w.ticks := by
    intro l
    induction l with
    | nil => exact fun w => rfl
    | cons s l ih =>
      intro w
      rw [List.foldl_cons, ih]
      cases s <;> simp only [World.removalStep] <;> (try split_ifs) <;> rfl
  have h := htick ((E.interference w.ticks).foldl World.removalStep w)
  rw [hticks] at h
  exact IsTrans.trans _ _ _ (hfold _ w) h

/-- what the deletion of the row keeps, an instance keeps once its container is removed -/
theorem deleteInstance_eq {E : Env} (pk : Ref) (force : Bool) : ∃ f : Except DockerError ℤ → Io Unit,
    deleteInstance E pk force = removeContainer E pk force >>= f ∧
      ∀ {R : World → World → Prop} [IsPreorder World R], Prog.Keeps R (deleteProcessByPk E pk) → ∀ r, Prog.Keeps R (f r) := by
  refine ⟨_, rfl, fun hrow r => ?_⟩
  cases r with
  | ok _ => exact hrow
  | error e =>
    dsimp only
    split_ifs
    · exact Prog.keeps_bind (Prog.keeps_fail _) fun _ => hrow
    · exact hrow

/-- the relation is kept by every step of a task whose calls are in `S` and that clears no row -/
structure Steps (E : Env) (S : Call → Prop) (R : World → World → Prop) : Prop where
  suspend : Prog.Keeps R (suspend E)
  call : ∀ c, S c → ∀ ref w, R w { w with docker := (w.docker.call E c ref).2 }
  inert : ∀ c, S c → ∀ w, R w { w with docker := (w.docker.callInert E c).2 }
  draw : ∀ w, R w { w with draws := w.draws + 1 }
  create : (∀ c : Call, c.creating → S c) → ∀ kind draw name kindKey item,
    Prog.Keeps R (createProcess E kind draw name kindKey item)
  status : ∀ w key s, R w { w with db := { w.db with statuses := Function.update w.db.statuses key (some s) } }
  emit : ∀ w e, R w { w with db := w.db.emit e }

/-- the relation is kept by every step of a task whose calls are in `S`; the rows of the objects are not cleared -/
structure Framed (E : Env) (S : Call → Prop) (R : World → World → Prop) : Prop extends Steps E S R where
  erase : ∀ w id, R w { w with db := w.db.deleteProcess id }
  defer : ∀ w l, R w { w with removals := w.removals ++ l }

section

variable {E : Env} {S : Call → Prop} {R : World → World → Prop} [IsPreorder World R]

namespace Steps

variable (F : Steps E S R)
include F

/-! ## Steps -/

theorem await {c : Call} (hc : S c) (ref : Ref) : Prog.Keeps R (await E (Docker.call E c ref)) :=
  Prog.keeps_bind F.suspend fun _ w => F.call c hc ref w

theorem awaitInert {c : Call} (hc : S c) : Prog.Keeps R (Runtime.await E (Docker.callInert E c)) :=
  Prog.keeps_bind F.suspend fun _ w => F.inert c hc w

theorem modifyDb {f : Database → Database} (hf : ∀ w : World, R w { w with db := f w.db }) :
    Prog.Keeps R (modifyDb E f) :=
  Prog.keeps_bind F.suspend fun _ w => hf w

theorem readDb {α : Type} (f : Database → Except IoError α) : Prog.Keeps R (readDb E f) := by
  refine Prog.keeps_bind F.suspend fun _ => Prog.keeps_bind Prog.keeps_get fun w => ?_
  cases f w.db with
  | ok a => exact Prog.keeps_pure a
  | error e => exact Prog.keeps_fail e

omit F in
theorem orThrow {α : Type} {context : String} {m : Io (Except DockerError α)} (hm : Prog.Keeps R m) :
    Prog.Keeps R (orThrow context m) :=
  Prog.keeps_bind hm fun r => by
    cases r with
    | ok a => exact Prog.keeps_pure a
    | error e => exact Prog.keeps_fail _

omit F in
theorem orInterrupted {α : Type} {context : String} {m : Io (Except DockerError α)} (hm : Prog.Keeps R m) :
    Prog.Keeps R (orInterrupted context m) :=
  Prog.keeps_bind hm fun r => by
    cases r with
    | ok a => exact Prog.keeps_pure a
    | error e => exact Prog.keeps_fail _

/-- a call whose error ends the task -/
theorem throwing {c : Call} (hc : S c) (ref : Ref) (context : String) : Prog.Keeps R (do
    let _ ← Runtime.orThrow context (Runtime.await E (Docker.call E c ref))
    return () : Io Unit) :=
  Prog.keeps_bind (orThrow (F.await hc ref)) fun _ => Prog.keeps_pure _

theorem updateActualStatus (key : String) (status : ObjPsStatusKind) :
    Prog.Keeps R (updateActualStatus E key status) := by
  refine Prog.keeps_bind (F.readDb _) fun s => ?_
  split_ifs
  · exact Prog.keeps_pure ()
  · exact F.modifyDb fun w => F.status w key _

theorem emitNormal (kind : EventActorKind) (key : String) (action : NativeEventAction) :
    Prog.Keeps R (emitNormal E kind key action) := F.modifyDb fun w => F.emit w _

theorem emitAction (key : String) (kind : ProcessKind) (action : NativeEventAction) :
    Prog.Keeps R (Runtime.emit E key kind action) := by
  cases kind with
  | vm | cargo => exact Prog.keeps_bind (F.readDb _) fun _ => F.emitNormal _ _ _
  | job => exact Prog.keeps_bind (F.readDb _) fun _ => Prog.keeps_bind (F.readDb _) fun _ => F.emitNormal _ _ _

theorem readByKindKey (kindKey : String) (filter : Option GenericFilter) :
    Prog.Keeps R (readByKindKey E kindKey filter) := F.readDb _

/-! ## Preparing containers -/

theorem downloadImage {image : String} {secret : Option String} (h : ∀ draw name tag, S (.createImage draw name tag secret))
    (policy : ImagePullPolicy) : Prog.Keeps R (Runtime.download E image secret policy) := by
  have hpull : Prog.Keeps R (download.pull E image secret) := by
    unfold download.pull
    split
    · exact Prog.keeps_fail _
    · exact Prog.keeps_bind Prog.keeps_get fun _ => orThrow (F.awaitInert (h _ _ _))
  cases policy with
  | never => exact Prog.keeps_pure ()
  | always => exact hpull
  | ifNotPresent =>
    unfold Runtime.download
    dsimp only
    split_ifs
    · exact Prog.keeps_pure ()
    · exact hpull

theorem loadEnvSecrets (h : ∀ draw, S (.loadEnvSecrets draw)) (secrets : Option (List String)) :
    Prog.Keeps R (loadEnvSecrets E secrets) := by
  cases secrets with
  | none => exact Prog.keeps_pure []
  | some secrets =>
    exact Prog.keeps_bind Prog.keeps_get fun _ => Prog.keeps_bind (orThrow (F.awaitInert (h _))) fun _ => Prog.keeps_pure _

theorem createTlsSecrets (h : ∀ draw, S (.createTlsSecrets draw)) (key : String) (kind : ProcessKind)
    (secrets : Option (List String)) :
    Prog.Keeps R (createTlsSecrets E key kind secrets) := by
  unfold Runtime.createTlsSecrets
  dsimp only
  split_ifs
  · exact Prog.keeps_bind Prog.keeps_get fun _ => Prog.keeps_bind (orThrow (F.awaitInert (h _))) fun _ => Prog.keeps_pure _
  · exact Prog.keeps_pure _

theorem injectData (h : S .inspectNetwork) (cargo : Cargo) : Prog.Keeps R (injectData E cargo) :=
  Prog.keeps_bind (orThrow (F.awaitInert h)) fun _ => Prog.keeps_pure _

theorem waitContainer {ref : Ref} (h : S (.waitContainer ref)) : Prog.Keeps R (waitContainer E ref) :=
  Prog.keeps_bind (F.await h ref) fun r => by
    cases r <;> exact Prog.keeps_pure _

theorem startInitContainer {p : ProcessDb} (hstart : S (.startContainer (.name p.name)))
    (hwait : S (.waitContainer (.name p.name))) : Prog.Keeps R (startInitContainer E p) :=
  Prog.keeps_bind (orThrow (F.await hstart _)) fun _ =>
    Prog.keeps_bind (orInterrupted (F.waitContainer hwait)) fun _ => Prog.keeps_pure _

theorem generateShortId : Prog.Keeps R (generateShortId E) :=
  Prog.keeps_bind Prog.keeps_get fun _ => Prog.keeps_bind F.draw fun _ => Prog.keeps_pure _

section Creating

variable (hS : ∀ c : Call, c.creating → S c)
include hS

theorem download (image : String) (secret : Option String) (policy : ImagePullPolicy) :
    Prog.Keeps R (download E image secret policy) := F.downloadImage (fun _ _ _ => hS _ trivial) policy

theorem createInitContainer (cargo : Cargo) (initContainer : Config) :
    Prog.Keeps R (createInitContainer E cargo initContainer) := by
  unfold Runtime.createInitContainer
  split
  · exact Prog.keeps_bind (F.createTlsSecrets (fun _ => hS _ trivial) _ _ _) fun _ =>
      Prog.keeps_bind (F.download hS _ _ _) fun _ => Prog.keeps_bind (F.loadEnvSecrets (fun _ => hS _ trivial) _) fun _ =>
        Prog.keeps_bind F.generateShortId fun _ => F.create hS _ _ _ _ _
  · exact Prog.keeps_fail _

theorem createInstance (cargo : Cargo) (secretDir : String) (envSecrets : List String) (current : ℕ) :
    Prog.Keeps R (createInstance E cargo secretDir envSecrets current) := by
  refine Prog.keeps_bind F.generateShortId fun _ => ?_
  dsimp only
  split_ifs
  · exact Prog.keeps_fail _
  · exact F.create hS _ _ _ _ _

theorem createInstances (cargo : Cargo) (number : ℕ) : Prog.Keeps R (Runtime.create E cargo number) :=
  Prog.keeps_bind (F.injectData (hS _ trivial) cargo) fun _ => Prog.keeps_bind (F.download hS _ _ _) fun _ =>
    Prog.keeps_bind (F.loadEnvSecrets (fun _ => hS _ trivial) _) fun _ =>
      Prog.keeps_bind (F.createTlsSecrets (fun _ => hS _ trivial) _ _ _) fun _ =>
        Prog.keeps_joinAll fun _ _ => F.createInstance hS _ _ _ _

end Creating

theorem runInit (hS : ∀ c : Call, c.preparing → S c) (cargo : Cargo) : Prog.Keeps R (update.runInit E cargo) := by
  unfold update.runInit
  split
  · exact Prog.keeps_pure ()
  · exact Prog.keeps_bind (F.createInitContainer (fun c hc => hS c hc.preparing) _ _) fun _ =>
      F.startInitContainer (hS _ trivial) (hS _ trivial)

/-! ## Acting on processes -/

theorem startProcess {p : ProcessDb} (h : S (.startContainer (dataId p))) : Prog.Keeps R (startProcess E p) :=
  F.throwing h _ _

theorem stopProcess {p : ProcessDb} (h : S (.stopContainer (dataId p))) : Prog.Keeps R (stopProcess E p) :=
  F.throwing h _ _

theorem killProcess {p : ProcessDb} (h : S (.killContainer (.id p.key))) : Prog.Keeps R (killProcess E p) :=
  F.throwing h _ _

theorem restartProcess {p : ProcessDb} (h : S (.restartContainer (.id p.key))) : Prog.Keeps R (restartProcess E p) :=
  F.throwing h _ _

theorem renameBack {p : ProcessDb} (h : S (.renameContainer (.id p.key) p.name)) : Prog.Keeps R (renameBack E p) :=
  F.throwing h _ _

theorem flagOld {p : ProcessDb} (hstop : S (.stopContainer (.name p.name)))
    (hrename : S (.renameContainer (.id p.key) ("tmp-" ++ p.name))) : Prog.Keeps R (flagOld E p) := by
  unfold Runtime.flagOld
  split_ifs
  · exact Prog.keeps_bind (orThrow (F.await hstop _)) fun _ => F.throwing hrename _ _
  · exact F.throwing hrename _ _

theorem dropProcess {p : ProcessDb} (hstop : S (.stopContainer (.id p.key)))
    (hremove : S (.removeContainer (.id p.key) false)) : Prog.Keeps R (dropProcess E p) :=
  Prog.keeps_bind (F.await hstop _) fun _ => Prog.keeps_bind (F.await hremove _) fun _ => Prog.keeps_pure _

theorem startInstances {key : String} {kind : ProcessKind} (h : ∀ id, S (.startContainer (.id id))) :
    Prog.Keeps R (startInstances E key kind) := by
  refine Prog.keeps_bind (F.readByKindKey _ _) fun _ => Prog.keeps_bind (Prog.keeps_forEach fun p _ => ?_) fun _ =>
    Prog.keeps_bind (F.updateActualStatus _ _) fun _ => F.emitAction _ _ _
  refine F.startProcess ?_
  rw [dataId_eq]
  exact h p.key

end Steps

namespace Framed

variable (F : Framed E S R)
include F

theorem deleteProcessByPk (pk : Ref) : Prog.Keeps R (deleteProcessByPk E pk) := by
  cases pk with
  | id id => exact F.modifyDb fun w => F.erase w id
  | name _ => exact F.modifyDb fun w => Std.Refl.refl w

theorem deleteInstance {pk : Ref} {force : Bool} (h : S (.removeContainer pk force)) :
    Prog.Keeps R (deleteInstance E pk force) := by
  obtain ⟨f, heq, hrow⟩ := deleteInstance_eq (E := E) pk force
  rw [heq]
  exact Prog.keeps_bind (F.await h _) (hrow (F.deleteProcessByPk pk))

theorem deleteInstances {pks : List Ref} (h : ∀ pk ∈ pks, S (.removeContainer pk true)) :
    Prog.Keeps R (deleteInstances E pks) :=
  Prog.keeps_bind (Prog.keeps_joinAll fun pk hpk => F.deleteInstance (h pk hpk)) fun _ => Prog.keeps_pure _

/-- the end of an update, on the instances it flagged -/
theorem finish {key : String} {processes newInstances : List ProcessDb} (hstart : ∀ id, S (.startContainer (.id id)))
    (hremove : ∀ id, S (.removeContainer (.id id) true))
    (hrename : ∀ p ∈ processes, S (.renameContainer (.id p.key) p.name)) :
    Prog.Keeps R (update.finish E key processes newInstances) := by
  refine Prog.keeps_bind (Prog.keeps_attempt (F.startInstances hstart)) fun r => ?_
  cases r with
  | ok _ => exact fun w => F.defer w _
  | error e =>
    refine Prog.keeps_bind (Prog.keeps_attempt (F.deleteInstances fun pk hpk => ?_)) fun _ =>
      Prog.keeps_bind (Prog.keeps_attempt (Prog.keeps_joinAll fun p hp => F.renameBack (hrename p hp))) fun _ =>
        Prog.keeps_pure _
    obtain ⟨p, -, rfl⟩ := List.mem_map.1 hpk
    exact hremove p.key

end Framed

end

/-! ## Objects -/

/-- the rows of the objects are the same, and each that had a status has one -/
structure SameObjects (w w' : World) : Prop where
  cargoes : w'.db.cargoes = w.db.cargoes
  jobs : w'.db.jobs = w.db.jobs
  vms : w'.db.vms = w.db.vms
  vmImages : w'.db.vmImages = w.db.vmImages
  statuses : ∀ key, (w.db.statuses key).isSome → (w'.db.statuses key).isSome

instance : IsPreorder World SameObjects where
  refl _ := ⟨rfl, rfl, rfl, rfl, fun _ => id⟩
  trans _ _ _ h h' := ⟨h'.cargoes.trans h.cargoes, h'.jobs.trans h.jobs, h'.vms.trans h.vms,
    h'.vmImages.trans h.vmImages, fun key => h'.statuses key ∘ h.statuses key⟩

theorem SameObjects.readJob {w w' : World} (h : SameObjects w w') {key : String} {job : Job}
    (hj : w.db.readJob key = some job) : w'.db.readJob key = some job := by
  obtain ⟨hrow, hs⟩ := Option.filter_eq_some_iff.1 hj
  exact Option.filter_eq_some_iff.2 ⟨h.jobs ▸ hrow, h.statuses key hs⟩

theorem SameObjects.readCargo {w w' : World} (h : SameObjects w w') {key : String} {cargo : Cargo}
    (hc : w.db.readCargo key = some cargo) : w'.db.readCargo key = some cargo := by
  obtain ⟨hrow, hs⟩ := Option.filter_eq_some_iff.1 hc
  exact Option.filter_eq_some_iff.2 ⟨h.cargoes ▸ hrow, h.statuses key hs⟩

theorem SameObjects.readVm {w w' : World} (h : SameObjects w w') {key : String} {vm : Vm}
    (hv : w.db.readVm key = some vm) : w'.db.readVm key = some vm := by
  obtain ⟨hrow, hs⟩ := Option.filter_eq_some_iff.1 hv
  exact Option.filter_eq_some_iff.2 ⟨h.vms ▸ hrow, h.statuses key hs⟩

/-- an object that could be read can still be read -/
theorem SameObjects.actor {w w' : World} (h : SameObjects w w') {kind : ProcessKind} {key k : String}
    (hk : w.db.actor kind key = some k) : w'.db.actor kind key = some k := by
  cases kind with
  | vm =>
    obtain ⟨vm, hvm, rfl⟩ := Option.map_eq_some_iff.1 hk
    exact Option.map_eq_some_iff.2 ⟨vm, h.readVm hvm, rfl⟩
  | cargo =>
    obtain ⟨cargo, hcargo, rfl⟩ := Option.map_eq_some_iff.1 hk
    exact Option.map_eq_some_iff.2 ⟨cargo, h.readCargo hcargo, rfl⟩
  | job =>
    obtain ⟨job, hjob, rfl⟩ := Option.map_eq_some_iff.1 hk
    exact Option.map_eq_some_iff.2 ⟨job, h.readJob hjob, rfl⟩

theorem SameObjects.of_docker {w w' : World} (h : w'.db = w.db) : SameObjects w w' := by
  refine ⟨by rw [h], by rw [h], by rw [h], by rw [h], fun key => ?_⟩
  rw [h]
  exact id

theorem sameObjects_removalStep (w : World) (s : RemovalStep) : SameObjects w (w.removalStep s) := by
  cases s <;> simp only [World.removalStep] <;> (try split_ifs) <;> exact ⟨rfl, rfl, rfl, rfl, fun _ => id⟩

variable {E : Env}

theorem sameObjects_suspend : Prog.Keeps SameObjects (suspend E) :=
  keeps_suspend sameObjects_removalStep fun _ => .of_docker rfl

/-- no step of a task clears the rows of an object -/
theorem framed_sameObjects : Framed E (fun _ => True) SameObjects where
  suspend := sameObjects_suspend
  call _ _ _ _ := .of_docker rfl
  inert _ _ _ := .of_docker rfl
  draw _ := .of_docker rfl
  create _ kind draw name kindKey item :=
    Prog.keeps_bind (Steps.orThrow (Prog.keeps_bind sameObjects_suspend fun _ _ => .of_docker rfl)) fun _ =>
      Prog.keeps_bind (Steps.orThrow (Prog.keeps_bind sameObjects_suspend fun _ _ => .of_docker rfl)) fun _ =>
        Prog.keeps_bind (Prog.keeps_bind sameObjects_suspend fun _ _ => ⟨rfl, rfl, rfl, rfl, fun _ => id⟩) fun _ =>
          Prog.keeps_pure _
  status w key s := by
    refine ⟨rfl, rfl, rfl, rfl, fun key' h => ?_⟩
    by_cases hk : key' = key
    · simp [hk]
    · simpa [hk] using h
  emit _ _ := ⟨rfl, rfl, rfl, rfl, fun _ => id⟩
  erase _ _ := ⟨rfl, rfl, rfl, rfl, fun _ => id⟩
  defer _ _ := .of_docker rfl

end Nanocl.Runtime
