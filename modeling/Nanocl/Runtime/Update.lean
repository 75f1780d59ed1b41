/-
An update of a cargo (`utils/container/cargo.rs::update`) in its parts.

An update prepares the new instances (`prepare`), then starts the instances of the cargo. If that fails it removes the new
instances and renames the old ones back, and then goes on as if it had succeeded: it sets the status to `start`, emits the
event and returns (`conclude`).

- `update_eq`: an update is its preparation followed by its conclusion, and `conclude_ok`: the conclusion never fails.
- `prepare_ok`: what a preparation that returns has read and created (`Prepared`).
-/
import Nanocl.Runtime.CargoDelete
import Nanocl.Runtime.Drift

namespace Nanocl.Runtime

open Nanocl.Lib

/-! ## The two parts of an update -/

section Parts

variable (E : Env) (key : String)

/-- an update up to the start of the instances: the cargo, its old instances and the new ones -/
def prepare : Io (Cargo × List ProcessDb × List ProcessDb) := do
  let cargo ← readCargo E key
  let processes ← readByKindKey E key none
  let _ ← Prog.joinAll processes (flagOld E)
  update.runInit E cargo
  let newInstances ← create E cargo cargo.spec.number
  return (cargo, processes, newInstances)

/-- an update from the start of the instances on -/
def conclude (cargo : Cargo) (processes newInstances : List ProcessDb) : Io Unit := do
  update.finish E key processes newInstances
  updateActualStatus E key .start
  emitNormal E .cargo cargo.key .start

theorem update_eq : update E key = prepare E key >>= fun r => conclude E key r.1 r.2.1 r.2.2 := by
  simp only [update, prepare, conclude, bind_assoc, pure_bind]

end Parts

variable {E : Env} {key : String} {w w' : World}

/-! ## The conclusion -/

theorem finish_ok (processes newInstances : List ProcessDb) (w : World) :
    (update.finish E key processes newInstances w).1 = .ok () := by
  rw [update.finish, Prog.bind_of_ok (Prog.run_attempt _ w)]
  rcases (startInstances E key .cargo w).1 with e | _ <;> rfl

/-- the removals leave the statuses and the events as they are -/
def SameReport (w w' : World) : Prop := w'.db.statuses = w.db.statuses ∧ w'.db.events = w.db.events

instance : IsPreorder World SameReport where
  refl _ := ⟨rfl, rfl⟩
  trans _ _ _ h h' := ⟨h'.1.trans h.1, h'.2.trans h.2⟩

theorem sameReport_suspend : Prog.Keeps SameReport (suspend E) := by
  refine keeps_suspend (fun w s => ?_) fun w => ⟨rfl, rfl⟩
  cases s <;> simp only [World.removalStep] <;> (try split_ifs) <;> exact ⟨rfl, rfl⟩

/-- the status of an object that has one can be set -/
theorem updateActualStatus_ok (status : ObjPsStatusKind) (h : (w.db.statuses key).isSome) :
    (updateActualStatus E key status w).1 = .ok () ∧
      ∃ s, (updateActualStatus E key status w).2.db.statuses key = some s ∧ s.actual = status := by
  obtain ⟨s, hs⟩ := Option.isSome_iff_exists.1 h
  have hs₁ : (suspend E w).2.db.statuses key = some s := by rw [(sameReport_suspend w).1, hs]
  have hread : readRow E "ObjPsStatusDb" (·.statuses key) w = (.ok s, (suspend E w).2) := by
    rw [readRow_run, hs₁]
    rfl
  unfold updateActualStatus
  rw [Prog.bind_of_ok hread]
  split_ifs with heq
  · exact ⟨rfl, s, hs₁, heq⟩
  · exact ⟨rfl, _, Function.update_self .., rfl⟩

/-- whatever became of the instances, the update ends with success, the status and the event -/
theorem conclude_ok (cargo : Cargo) (processes newInstances : List ProcessDb) (h : (w.db.statuses key).isSome) :
    (conclude E key cargo processes newInstances w).1 = .ok () ∧
      (∃ s, (conclude E key cargo processes newInstances w).2.db.statuses key = some s ∧ s.actual = .start) ∧
      (conclude E key cargo processes newInstances w).2.db.events.getLast? =
        some ⟨.normal, .start, .cargo, cargo.key⟩ := by
  have hfinish : update.finish E key processes newInstances w = (.ok (), _) :=
    Prog.eq_of_ok (finish_ok processes newInstances w)
  have hkept : SameObjects w (update.finish E key processes newInstances w).2 :=
    framed_sameObjects.finish (fun _ => trivial) (fun _ => trivial) (fun _ _ => trivial) w
  obtain ⟨hok, s, hs, hactual⟩ := updateActualStatus_ok (E := E) .start (hkept.statuses key h)
  rw [conclude, Prog.bind_of_ok hfinish, Prog.bind_of_ok (Prog.eq_of_ok hok)]
  generalize (updateActualStatus E key .start (update.finish E key processes newInstances w).2).2 = w₁ at hs
  have hsame := sameReport_suspend (E := E) w₁
  refine ⟨rfl, ⟨s, ?_, hactual⟩, List.getLast?_concat ..⟩
  change (suspend E w₁).2.db.statuses key = some s
  rw [hsame.1, hs]

/-! ## The preparation -/

/-- between the two worlds one container was created, and this row was inserted for it -/
structure OneMore (w w' : World) (p : ProcessDb) : Prop where
  key : p.key = w.docker.nextId
  createdAt : p.createdAt = w.docker.nextId
  nextId : w'.docker.nextId = w.docker.nextId + 1
  row : p ∈ w'.db.processes
  container : (w'.docker.containers p.key).isSome
  only : ∀ q ∈ w'.db.processes, q ∈ w.db.processes ∨ q = p
  removals : OlderRemovals w.docker.nextId w'

theorem createProcess_one {kind : ProcessKind} {draw : ℕ} {name kindKey : String} {item : Config} {p : ProcessDb}
    {w₁ : World} (ho : OlderRemovals w.docker.nextId w)
    (h : createProcess E kind draw name kindKey item w = (.ok p, w₁)) :
    p = newRow E kind name kindKey item w.docker.nextId ∧ OneMore w w₁ p := by
  obtain ⟨w₂, hw₂, ⟨e, hrun⟩ | ⟨w₃, hw₃, ⟨e, hrun⟩ | hrun⟩⟩ := createProcess_cases (E := E) kind draw name kindKey item w
  · rw [hrun] at h
    cases h
  · rw [hrun] at h
    cases h
  · rw [hrun] at h
    cases h
    have hgrows : Grows w.docker.nextId w (w₂.added draw name (processConfig kind item)) :=
      IsTrans.trans _ _ _ hw₂.grows (grows_added w₂ draw name _)
    refine ⟨rfl, rfl, rfl, hw₃.nextId.trans (congrArg (· + 1) hw₂.nextId),
      List.mem_append_right _ (List.mem_singleton_self _), ?_, fun q hq => ?_, hw₃.grows.removals (hgrows.removals ho)⟩
    · refine hw₃.grows.containers (hgrows.removals ho) _ (le_refl _) ?_
      change ((w₂.added draw name (processConfig kind item)).docker.containers w.docker.nextId).isSome
      rw [← hw₂.nextId]
      simp [World.added, Docker.added, Docker.setContainer, Docker.record]
    · exact (List.mem_append.1 hq).imp (fun hq => hw₂.rows.subset (hw₃.rows.subset hq)) List.mem_singleton.1

/-- steps that create nothing come before and after -/
theorem OneMore.quiet {w₁ w₂ : World} {p : ProcessDb} (hq : Quiet w w₁) (h : OneMore w₁ w₂ p) (hq' : Quiet w₂ w') :
    OneMore w w' p where
  key := h.key.trans hq.nextId
  createdAt := h.createdAt.trans (congrArg Nat.cast hq.nextId)
  nextId := by rw [hq'.nextId, h.nextId, hq.nextId]
  row := hq'.grows.rows h.removals p h.row h.key.ge
  container := hq'.grows.containers h.removals p.key h.key.ge h.container
  only q hq₁ := (h.only q (hq'.rows.subset hq₁)).imp_left fun h => hq.rows.subset h
  removals := hq.nextId ▸ hq'.grows.removals h.removals

/-- the init container has the label of the instances too, if its spec says so -/
def Cargo.initLabelled (cargo : Cargo) : Bool :=
  cargo.spec.initContainer.any fun c => Labels.has (c.labels.getD []) ProcessDb.notInitC "true"

theorem initConfig_labelled (cargo : Cargo) (initContainer : Config) (image secretDir : String)
    (envSecrets : List String) :
    ((processConfig .cargo (initConfig E cargo initContainer image secretDir envSecrets)).labels.getD []).has
      ProcessDb.notInitC "true" = Labels.has (initContainer.labels.getD []) ProcessDb.notInitC "true" := by
  change (Labels.insert (Labels.insert (cargoLabels cargo ProcessDb.initC _) "io.nanocl" "enabled") "io.nanocl.kind"
    "cargo").has ProcessDb.notInitC "true" = _
  rw [Labels.has_insert_ne _ (by decide), Labels.has_insert_ne _ (by decide), cargoLabels,
    Labels.has_insert_ne _ (by decide), Labels.has_insert_ne _ (by decide), Labels.has_insert_ne _ (by decide),
    Labels.has_insert_ne _ (by decide)]

theorem createInitContainer_one {cargo : Cargo} {initContainer : Config} {p : ProcessDb} {w₁ : World}
    (ho : OlderRemovals w.docker.nextId w) (h : createInitContainer E cargo initContainer w = (.ok p, w₁)) :
    OneMore w w₁ p ∧ p.kindKey = cargo.key ∧
      p.hasLabel ProcessDb.notInitC = Labels.has (initContainer.labels.getD []) ProcessDb.notInitC "true" := by
  unfold createInitContainer at h
  cases himage : cargo.spec.container.image with
  | none =>
    rw [himage] at h
    cases h
  | some image =>
    rw [himage] at h
    obtain ⟨_, a₁, h₁, h⟩ := Prog.bind_eq_ok h
    obtain ⟨_, a₂, h₂, h⟩ := Prog.bind_eq_ok h
    obtain ⟨_, a₃, h₃, h⟩ := Prog.bind_eq_ok h
    obtain ⟨_, a₄, h₄, h⟩ := Prog.bind_eq_ok h
    have hq : Quiet w a₄ := IsTrans.trans _ _ _ (quiet_of_ok (steps_quiet.createTlsSecrets (fun _ => trivial) _ _ _) h₁)
      (IsTrans.trans _ _ _ (quiet_of_ok (steps_quiet.downloadImage (fun _ _ _ => trivial) _) h₂)
        (IsTrans.trans _ _ _ (quiet_of_ok (steps_quiet.loadEnvSecrets (fun _ => trivial) _) h₃)
          (quiet_of_ok steps_quiet.generateShortId h₄)))
    have hold : OlderRemovals a₄.docker.nextId a₄ := hq.nextId ▸ hq.grows.removals ho
    obtain ⟨rfl, hone⟩ := createProcess_one hold h
    exact ⟨hone.quiet hq (Std.Refl.refl _), rfl, initConfig_labelled ..⟩

/-- the number of the init containers of a cargo -/
def Cargo.initNumber (cargo : Cargo) : ℕ := if cargo.spec.initContainer.isSome then 1 else 0

theorem runInit_cases {cargo : Cargo} {w₁ : World} (ho : OlderRemovals w.docker.nextId w)
    (h : update.runInit E cargo w = (.ok (), w₁)) :
    (cargo.spec.initContainer = none ∧ w₁ = w) ∨
    ∃ p, OneMore w w₁ p ∧ p.kindKey = cargo.key ∧ p.hasLabel ProcessDb.notInitC = cargo.initLabelled ∧
      cargo.initNumber = 1 := by
  cases hc : cargo.spec.initContainer with
  | none =>
    simp only [update.runInit, hc] at h
    cases h
    exact .inl ⟨rfl, rfl⟩
  | some initContainer =>
    simp only [update.runInit, hc] at h
    obtain ⟨p, w₂, hcreate, h⟩ := Prog.bind_eq_ok h
    obtain ⟨hone, hkey, hlabel⟩ := createInitContainer_one ho hcreate
    refine .inr ⟨p, hone.quiet (Std.Refl.refl w) (quiet_of_ok (steps_quiet.startInitContainer trivial trivial) h),
      hkey, ?_, ?_⟩
    · rw [hlabel, Cargo.initLabelled, hc, Option.any_some]
    · simp [Cargo.initNumber, hc]

theorem runInit_nextId {cargo : Cargo} {w₁ : World} (ho : OlderRemovals w.docker.nextId w)
    (h : update.runInit E cargo w = (.ok (), w₁)) : w₁.docker.nextId = w.docker.nextId + cargo.initNumber := by
  rcases runInit_cases ho h with ⟨hc, rfl⟩ | ⟨p, hone, -, -, hnumber⟩
  · simp [Cargo.initNumber, hc]
  · rw [hone.nextId, hnumber]

/-- what the steps of a preparation keep -/
theorem keeps_prepare {S : Call → Prop} {R : World → World → Prop} [IsPreorder World R] (F : Steps E S R)
    (hS : ∀ c : Call, c.preparing → S c) (hstop : ∀ name, S (.stopContainer (.name name)))
    (hrename : ∀ id name, S (.renameContainer (.id id) name)) : Prog.Keeps R (prepare E key) :=
  Prog.keeps_bind (F.readDb _) fun _ => Prog.keeps_bind (F.readByKindKey _ _) fun _ =>
    Prog.keeps_bind (Prog.keeps_joinAll fun _ _ => F.flagOld (hstop _) (hrename _ _)) fun _ =>
      Prog.keeps_bind (F.runInit hS _) fun _ => Prog.keeps_bind
        (F.createInstances (fun c hc => hS c hc.preparing) _ _) fun _ => Prog.keeps_pure _

/-- the suspensions of a preparation -/
def prepareTicks (E : Env) (key : String) (cargo : Cargo) (w : World) : ℕ :=
  2 + ((((drift E w 2).db.processesOf key).map flagTicks).sum + (initTicks E cargo + createTicks E cargo))

/-- a preparation that returns has read the cargo and its rows, and created its new instances last -/
structure Prepared (E : Env) (key : String) (w : World) (cargo : Cargo) (processes instances : List ProcessDb)
    (w₀ w₁ : World) : Prop where
  read : w.db.cargoes key = some cargo
  status : (w.db.statuses key).isSome
  rows : processes = (drift E w 2).db.processesOf key
  ticks : w₁.ticks = w.ticks + prepareTicks E key cargo w
  init : ∃ a, Quiet w a ∧ update.runInit E cargo a = (.ok (), w₀)
  created : create E cargo cargo.spec.number w₀ = (.ok instances, w₁)
  nextId : w₀.docker.nextId = w.docker.nextId + cargo.initNumber
  older : OlderRemovals w₀.docker.nextId w₁
  before : Consistent w₀
  after : Consistent w₁
  new : Instances key w₀ w₁ instances
  length : instances.length = cargo.spec.number

theorem prepare_ok {cargo : Cargo} {processes instances : List ProcessDb} {w₁ : World} (hw : Consistent w)
    (h : prepare E key w = (.ok (cargo, processes, instances), w₁)) :
    ∃ w₀, Prepared E key w cargo processes instances w₀ w₁ := by
  unfold prepare at h
  obtain ⟨cargo', a₁, h₁, h⟩ := Prog.bind_eq_ok h
  obtain ⟨ps, a₂, h₂, h⟩ := Prog.bind_eq_ok h
  obtain ⟨_, a₃, h₃, h⟩ := Prog.bind_eq_ok h
  obtain ⟨_, w₀, hinit, h⟩ := Prog.bind_eq_ok h
  obtain ⟨new, a₅, hcreate, h⟩ := Prog.bind_eq_ok h
  cases h
  rw [readCargo, readRow_run] at h₁
  obtain ⟨hresult, rfl⟩ := Prod.mk.inj h₁
  rw [readByKindKey_run] at h₂
  obtain ⟨hrows, rfl⟩ := Prod.mk.inj h₂
  obtain rfl := Except.ok.inj hrows
  have hread : (suspend E w).2.db.readCargo key = some cargo := by
    cases hr : (suspend E w).2.db.readCargo key with
    | none =>
      rw [hr] at hresult
      cases hresult
    | some c =>
      rw [hr] at hresult
      exact congrArg some (Except.ok.inj hresult)
  obtain ⟨hcargo, hstatus⟩ := Option.filter_eq_some_iff.1 hread
  rw [(quiet_suspend w).cargoes] at hcargo
  rw [(sameReport_suspend w).1] at hstatus
  have hquiet : Quiet w a₃ := IsTrans.trans _ _ _ (quiet_drift 2)
    (quiet_of_ok (Prog.keeps_joinAll fun _ _ => steps_quiet.flagOld trivial trivial) h₃)
  have hticks : w₁.ticks = w.ticks + prepareTicks E key cargo w := by
    have hflag := Prog.advances_joinAll (fun p => takes_flagOld (E := E) p) _ _ _ h₃
    rw [takes_create cargo w₀ _ _ hcreate, takes_runInit cargo a₃ _ _ hinit, hflag, prepareTicks]
    change w.ticks + 2 + _ + _ + _ = _
    simp only [Nat.add_assoc]
    rfl
  have hbefore : Consistent w₀ := by
    have := steps_consistent.runInit (E := E) (fun _ _ => trivial) cargo a₃ (hw.quiet hquiet)
    rwa [hinit] at this
  have hafter : Consistent w₁ := by
    have := steps_consistent.createInstances (E := E) (fun _ _ => trivial) cargo cargo.spec.number w₀ hbefore
    rwa [hcreate] at this
  have hgrows : Grows w₀.docker.nextId w₀ w₁ := by
    have := steps_grows.createInstances (E := E) (fun _ hc => hc.preparing.keeping) cargo cargo.spec.number
      (R := Grows w₀.docker.nextId) w₀
    rwa [hcreate] at this
  obtain ⟨hinstances, hlength⟩ := create_ok hbefore.removals (congrArg Prod.fst hcreate)
  rw [hcreate, hw.cargoes key cargo hcargo] at hinstances
  exact ⟨w₀, hcargo, hstatus, rfl, hticks, ⟨a₃, hquiet, hinit⟩, hcreate,
    by rw [runInit_nextId (hw.quiet hquiet).removals hinit, hquiet.nextId], hgrows.removals hbefore.removals, hbefore,
    hafter, hinstances, hlength⟩

/-- the ids of the instances an update creates; an init container comes before them -/
def Cargo.instanceIds (cargo : Cargo) (w : World) : List ContainerId :=
  List.range' (w.docker.nextId + cargo.initNumber) cargo.spec.number

section Prepared

variable {cargo : Cargo} {processes instances : List ProcessDb} {w₀ w₁ : World}

theorem Prepared.ids (h : Prepared E key w cargo processes instances w₀ w₁) :
    cargo.instanceIds w = instances.map ProcessDb.key := by
  rw [Cargo.instanceIds, ← h.nextId, h.new.keys, h.length]

theorem Prepared.le_key (h : Prepared E key w cargo processes instances w₀ w₁) {p : ProcessDb} (hp : p ∈ instances) :
    w₀.docker.nextId ≤ p.key := by
  have hmem : p.key ∈ List.range' w₀.docker.nextId instances.length := h.new.keys ▸ List.mem_map_of_mem hp
  exact (List.mem_range'_1.1 hmem).1

theorem Prepared.key_lt (h : Prepared E key w cargo processes instances w₀ w₁) {p : ProcessDb} (hp : p ∈ instances) :
    p.key < w₁.docker.nextId := by
  have hmem : p.key ∈ List.range' w₀.docker.nextId instances.length := h.new.keys ▸ List.mem_map_of_mem hp
  rw [h.new.nextId]
  exact (List.mem_range'_1.1 hmem).2

end Prepared

end Nanocl.Runtime
