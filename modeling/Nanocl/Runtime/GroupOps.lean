/-
The operations on the processes of an object as a group: stop, start, kill and restart them, the delete tasks of a
cargo, a VM and a job, and the update task of a cargo.

Each of them reads the processes through `read_by_kind_key` and runs over the rows it gets. A row the read leaves out is
skipped silently, and the operation still reports success.

Results:
- `group_covers_iff`: an operation acts on every process of the object before it reports success, or removes the row of
  the object, exactly when the read returns all of them: at most 100 rows, and for a start the label of the daemon.
- `stop_skips`: with 101 rows a stop leaves one container running.
-/
import Nanocl.Runtime.CargoDelete
import Nanocl.Runtime.Log

namespace Nanocl.Runtime

open Nanocl.Lib

variable (E : Env)

/-! ## Operations -/

inductive GroupOp where
  | stop (kind : ProcessKind)
  | start (kind : ProcessKind)
  | kill
  | restart (kind : ProcessKind)
  | deleteCargo
  | deleteVm
  | deleteJob
  | updateCargo
deriving DecidableEq

namespace GroupOp

def run (key : String) : GroupOp → Io Unit
  | .stop kind => stopInstances E key kind
  | .start kind => startInstances E key kind
  | .kill => killByKindKey E key
  | .restart kind => restartInstances E key kind
  | .deleteCargo => delete E key
  | .deleteVm => Runtime.deleteVm E key
  | .deleteJob => Runtime.deleteJob E key
  | .updateCargo => update E key

/-- the call by which the operation acts on a process; an update flags it for its later removal -/
def call (p : ProcessDb) : GroupOp → Call
  | .stop _ => .stopContainer (.id p.key)
  | .start _ => .startContainer (.id p.key)
  | .kill => .killContainer (.id p.key)
  | .restart _ => .restartContainer (.id p.key)
  | .deleteCargo => .removeContainer (.id p.key) false
  | .deleteVm | .deleteJob => .removeContainer (.id p.key) true
  | .updateCargo => .renameContainer (.id p.key) ("tmp-" ++ p.name)

/-- the processes the operation is about: a start leaves out the init containers -/
def concerns (p : ProcessDb) : GroupOp → Bool
  | .start _ => !p.hasLabel ProcessDb.initC
  | _ => true

/-- the rows the operation reads -/
def reads (key : String) (rows : List ProcessDb) : GroupOp → List ProcessDb
  | .start _ => ProcessDb.newest100 (rows.filter fun p => p.hasLabel ProcessDb.notInitC && decide (p.kindKey = key))
  | _ => ProcessDb.newest100 (rows.filter fun p => p.kindKey = key)

/-- the operation removed the row of the object -/
def Cleared (key : String) (db db' : Database) : GroupOp → Prop
  | .deleteCargo => (db.cargoes key).isSome ∧ db'.cargoes key = none
  | .deleteVm => (db.vms key).isSome ∧ db'.vms key = none
  | .deleteJob => (db.jobs key).isSome ∧ db'.jobs key = none
  | _ => False

/-- the loop of the operation over the processes -/
def loop (processes : List ProcessDb) : GroupOp → Io Unit
  | .stop _ => Prog.forEach processes (stopProcess E)
  | .start _ => Prog.forEach processes (startProcess E)
  | .kill => Prog.forEach processes (killProcess E)
  | .restart _ => Prog.forEach processes (restartProcess E)
  | .deleteCargo => Prog.forEach processes (dropProcess E)
  | .deleteVm | .deleteJob => deleteInstances E (processes.map fun p => .id p.key)
  | .updateCargo => do
    let _ ← Prog.joinAll processes (flagOld E)
    return ()

/-- what the operation does after its loop, where the object it reads first exists -/
def rest (key : String) (db : Database) : GroupOp → Option (Io Unit)
  | .stop kind => some do
    updateActualStatus E key .stop
    emit E key kind .stop
  | .start kind => some do
    updateActualStatus E key .start
    emit E key kind .start
  | .kill => some (return ())
  | .restart kind => some (emit E key kind .restart)
  | .deleteCargo => some do
    let cargo ← readCargo E key
    clearCargo E key
    emitNormal E .cargo cargo.key .destroy
  | .deleteVm => (db.readVm key).map fun vm => do
    deleteVmImage E vm.diskImage
    clearVm E vm.key
    emitNormal E .vm vm.key .destroy
  | .deleteJob => (db.readJob key).map fun job => do
    clearJob E job.name
    if job.schedule.isSome then
      orThrow "Cron job" (await E (Docker.callInert E (.removeCronRule job.name)))
    emitNormal E .job job.name .destroy
  | .updateCargo => (db.readCargo key).map fun cargo => do
    update.runInit E cargo
    let newInstances ← create E cargo cargo.spec.number
    update.finish E key (db.processesOf key) newInstances
    updateActualStatus E key .start
    emitNormal E .cargo cargo.key .start

/-- whatever rows the object has, the operation acts on each process it is about before it reports success or removes
the row of the object -/
def Covers (key : String) (rows : List ProcessDb) (op : GroupOp) : Prop :=
  ∀ (E : Env) (w : World), w.db.processes = rows →
    ((op.run E.alone key w).1 = .ok () ∨ op.Cleared key w.db (op.run E.alone key w).2.db) →
      ∀ p ∈ rows, p.kindKey = key → op.concerns p = true → Issued w (op.run E.alone key w).2 (op.call p)

/-- the read of the operation returns every process it is about -/
def ReadsAll (key : String) (rows : List ProcessDb) : GroupOp → Prop
  | .start _ => ∀ p ∈ rows, p.kindKey = key → p.hasLabel ProcessDb.initC = false →
      p ∈ ProcessDb.newest100 (rows.filter fun p => p.hasLabel ProcessDb.notInitC && decide (p.kindKey = key))
  | _ => (rows.filter fun p => p.kindKey = key).length ≤ 100

end GroupOp

/-! ## What the loop issues -/

section Issued

variable {E}

theorem issued_call (c : Call) (ref : Ref) (w : World) : Issued w (await E (Docker.call E c ref) w).2 c := by
  have hlog : ∀ d : Docker, ∃ id ok, (d.call E c ref).2.log = d.log ++ [⟨c, id, ok⟩] := by
    intro d
    unfold Docker.call
    split
    · exact ⟨_, _, rfl⟩
    · exact ⟨_, _, rfl⟩
    · split <;> exact ⟨_, _, rfl⟩
  obtain ⟨id, ok, h⟩ := hlog (suspend E w).2.docker
  have hcall : Issued (suspend E w).2 (await E (Docker.call E c ref) w).2 c :=
    ⟨[⟨c, id, ok⟩], h, _, List.mem_singleton_self _, rfl⟩
  exact Issued.mono (logs_suspend (S := fun _ => True) w) hcall (Std.Refl.refl _)

theorem issued_orThrow {c : Call} {ref : Ref} {context : String} (w : World) :
    Issued w ((do
      let _ ← orThrow context (await E (Docker.call E c ref))
      return ()) w).2 c := by
  refine Issued.bind (E := E) (Issued.bind (E := E) (issued_call c ref w) fun r => ?_) fun _ => Prog.keeps_pure _
  cases r with
  | ok _ => exact Prog.keeps_pure _
  | error _ => exact Prog.keeps_fail _

/-- what the second part of a sequence issues is issued by a sequence that returns -/
theorem Issued.bind_right {α β : Type} {m : Io α} {f : α → Io β} {c : Call} {w : World} {b : β}
    (hm : Prog.Keeps (Logs E fun _ => True) m) (h : ((m >>= f) w).1 = .ok b)
    (hf : ∀ a w', (f a w').1 = .ok b → Issued w' (f a w').2 c) : Issued w ((m >>= f) w).2 c := by
  obtain ⟨a, w', hm', hok, heq⟩ := Prog.bind_ok h
  have hlogs := hm w
  rw [hm'] at hlogs
  rw [heq]
  exact Issued.mono hlogs (hf a w' hok) (Std.Refl.refl _)

theorem dropProcess_issued {p : ProcessDb} (w : World) :
    Issued w (dropProcess E p w).2 (.removeContainer (.id p.key) false) :=
  Issued.bind_right (E := E) (b := ()) (framed_logs.await trivial _)
    rfl fun _ w' _ => Issued.bind (E := E) (issued_call _ _ w') fun _ => Prog.keeps_pure _

/-- a deletion that returns has tried to remove each of the containers -/
theorem deleteInstances_issued {l : List ProcessDb} {w : World}
    (h : (deleteInstances E (l.map fun p => .id p.key) w).1 = .ok ()) {p : ProcessDb} (hp : p ∈ l) :
    Issued w (deleteInstances E (l.map fun p => .id p.key) w).2 (.removeContainer (.id p.key) true) := by
  obtain ⟨bs, s, hjoin, -, heq⟩ := Prog.bind_ok h
  obtain ⟨s', b, h1, h2, -, h3⟩ := Prog.joinAll_ok (R := Logs E fun _ => True)
    (fun pk _ => framed_logs.deleteInstance trivial) (congrArg Prod.fst hjoin)
    (List.mem_map_of_mem (f := fun p : ProcessDb => Ref.id p.key) hp)
  change deleteInstances E (l.map fun p => .id p.key) w = _ at heq
  rw [heq]
  rw [hjoin] at h3
  refine Issued.mono h1 (Issued.bind (E := E) (issued_call _ _ _) fun r => ?_) h3
  cases r with
  | ok _ => exact framed_logs.modifyDb fun _ => logs_of_docker rfl
  | error e =>
    dsimp only
    split_ifs
    · exact Prog.keeps_bind (Prog.keeps_fail _) fun _ => framed_logs.modifyDb fun _ => logs_of_docker rfl
    · exact framed_logs.modifyDb fun _ => logs_of_docker rfl

/-- an old instance that is flagged was renamed -/
theorem flagOld_issued {p : ProcessDb} {w : World} (h : (flagOld E p w).1 = .ok ()) :
    Issued w (flagOld E p w).2 (.renameContainer (.id p.key) ("tmp-" ++ p.name)) := by
  unfold flagOld at h ⊢
  split_ifs at h ⊢
  · exact Issued.bind_right (E := E) (Steps.orThrow (framed_logs.await trivial _)) h
      fun _ w' _ => issued_orThrow w'
  · exact issued_orThrow w

theorem logs_deleteVmImage {S : Call → Prop} (pk : String) : Prog.Keeps (Logs E S) (deleteVmImage E pk) := by
  refine Prog.keeps_bind (framed_logs.readDb _) fun _ => Prog.keeps_bind (framed_logs.readDb _) fun _ => ?_
  split_ifs
  · exact Prog.keeps_fail _
  · exact framed_logs.modifyDb fun _ => logs_of_docker rfl

namespace GroupOp

variable {key : String} {processes : List ProcessDb}

/-- the call is about none of the processes but these -/
def Only (op : GroupOp) (processes : List ProcessDb) (c : Call) : Prop :=
  ∀ p : ProcessDb, c = op.call p → ∃ q ∈ processes, q.key = p.key

theorem only_loop (op : GroupOp) : Prog.Keeps (Logs E (op.Only processes)) (op.loop E processes) := by
  cases op with
  | stop kind =>
    refine Prog.keeps_forEach fun q hq => framed_logs.stopProcess fun p hp => ⟨q, hq, ?_⟩
    simpa [call, dataId_eq] using hp
  | start kind =>
    refine Prog.keeps_forEach fun q hq => framed_logs.startProcess fun p hp => ⟨q, hq, ?_⟩
    simpa [call, dataId_eq] using hp
  | kill =>
    refine Prog.keeps_forEach fun q hq => framed_logs.killProcess fun p hp => ⟨q, hq, ?_⟩
    simpa [call] using hp
  | restart kind =>
    refine Prog.keeps_forEach fun q hq => framed_logs.restartProcess fun p hp => ⟨q, hq, ?_⟩
    simpa [call] using hp
  | deleteCargo =>
    refine Prog.keeps_forEach fun q hq => framed_logs.dropProcess (fun p hp => ?_) fun p hp => ⟨q, hq, ?_⟩
    · simp [call] at hp
    · simpa [call] using hp
  | deleteVm | deleteJob =>
    refine framed_logs.deleteInstances fun pk hpk p hp => ?_
    obtain ⟨q, hq, rfl⟩ := List.mem_map.1 hpk
    exact ⟨q, hq, by simpa [call] using hp⟩
  | updateCargo =>
    refine Prog.keeps_bind (Prog.keeps_joinAll fun q hq => framed_logs.flagOld (fun p hp => ?_) fun p hp => ⟨q, hq, ?_⟩)
      fun _ => Prog.keeps_pure _
    · simp [call] at hp
    · exact (by simpa [call] using hp : _ ∧ _).1

/-- a loop that returns has acted on each process -/
theorem loop_issued (op : GroupOp) {w : World} (h : (op.loop E processes w).1 = .ok ()) {p : ProcessDb}
    (hp : p ∈ processes) : Issued w (op.loop E processes w).2 (op.call p) := by
  have hfor : ∀ (f : ProcessDb → Io Unit), (∀ q, Prog.Keeps (Logs E fun _ => True) (f q)) →
      (∀ w, Issued w (f p w).2 (op.call p)) → (Prog.forEach processes f w).1 = .ok () →
      Issued w (Prog.forEach processes f w).2 (op.call p) := by
    intro f hkeeps hf hok
    obtain ⟨s, h1, -, h3⟩ := Prog.forEach_ok (fun q _ => hkeeps q) hok hp
    exact Issued.mono h1 (hf s) h3
  cases op with
  | stop kind =>
    refine hfor _ (fun q => framed_logs.stopProcess trivial) (fun w => ?_) h
    rw [call, ← dataId_eq]
    exact issued_orThrow w
  | start kind =>
    refine hfor _ (fun q => framed_logs.startProcess trivial) (fun w => ?_) h
    rw [call, ← dataId_eq]
    exact issued_orThrow w
  | kill => exact hfor _ (fun q => framed_logs.killProcess trivial) issued_orThrow h
  | restart kind => exact hfor _ (fun q => framed_logs.restartProcess trivial) issued_orThrow h
  | deleteCargo => exact hfor _ (fun q => framed_logs.dropProcess trivial trivial) dropProcess_issued h
  | deleteVm | deleteJob => exact deleteInstances_issued h hp
  | updateCargo =>
    obtain ⟨bs, s, hjoin, -, heq⟩ := Prog.bind_ok h
    obtain ⟨s', b, h1, h2, -, h3⟩ := Prog.joinAll_ok (R := Logs E fun _ => True)
      (fun q _ => framed_logs.flagOld trivial trivial) (congrArg Prod.fst hjoin) hp
    change GroupOp.loop E processes .updateCargo w = _ at heq
    rw [heq]
    rw [hjoin] at h3
    exact Issued.mono h1 (flagOld_issued h2) h3

/-- a run is the read of the processes, the loop over them, and the rest -/
theorem run_eq (op : GroupOp) {w : World} {m : Io Unit} (h : op.rest E.alone key w.db = some m) :
    ∃ s, s.db = w.db ∧ s.docker = w.docker ∧
      op.run E.alone key w = (op.loop E.alone (op.reads key w.db.processes) >>= fun _ => m) s := by
  cases op with
  | stop kind =>
    obtain rfl := Option.some.inj h
    refine ⟨w.tick, rfl, rfl, ?_⟩
    rw [run, stopInstances, Prog.bind_of_ok (readByKindKey_alone E key w)]
    rfl
  | start kind =>
    obtain rfl := Option.some.inj h
    refine ⟨w.tick, rfl, rfl, ?_⟩
    rw [run, startInstances, Prog.bind_of_ok (readByKindKey_alone_label E key _ w)]
    rfl
  | kill =>
    obtain rfl := Option.some.inj h
    refine ⟨w.tick, rfl, rfl, ?_⟩
    rw [run, killByKindKey, Prog.bind_of_ok (readByKindKey_alone E key w)]
    exact (Prog.bind_pure _ _).symm
  | restart kind =>
    obtain rfl := Option.some.inj h
    refine ⟨w.tick, rfl, rfl, ?_⟩
    rw [run, restartInstances, Prog.bind_of_ok (readByKindKey_alone E key w)]
    rfl
  | deleteCargo =>
    obtain rfl := Option.some.inj h
    refine ⟨w.tick, rfl, rfl, ?_⟩
    rw [run, delete, Prog.bind_of_ok (readByKindKey_alone E key w)]
    rfl
  | deleteVm =>
    obtain ⟨vm, hvm, rfl⟩ := Option.map_eq_some_iff.1 h
    refine ⟨w.tick.tick, rfl, rfl, ?_⟩
    rw [run, Runtime.deleteVm, Prog.bind_of_ok (readVm_alone E hvm),
      Prog.bind_of_ok (readByKindKey_alone E key w.tick)]
    rfl
  | deleteJob =>
    obtain ⟨job, hjob, rfl⟩ := Option.map_eq_some_iff.1 h
    refine ⟨w.tick.tick, rfl, rfl, ?_⟩
    rw [run, Runtime.deleteJob, Prog.bind_of_ok (readJob_alone E hjob),
      Prog.bind_of_ok (readByKindKey_alone E key w.tick)]
    rfl
  | updateCargo =>
    obtain ⟨cargo, hcargo, rfl⟩ := Option.map_eq_some_iff.1 h
    refine ⟨w.tick.tick, rfl, rfl, ?_⟩
    rw [run, update, Prog.bind_of_ok (readCargo_alone E hcargo), Prog.bind_of_ok (readByKindKey_alone E key w.tick)]
    rw [loop, Prog.discard_bind, reads, ← Database.processesOf, World.tick_db]
    intro _ hkind
    cases hkind

/-- where the object does not exist, the operation fails and nothing happens -/
theorem run_error (op : GroupOp) {w : World} (h : op.rest E.alone key w.db = none) :
    ∃ e, op.run E.alone key w = (.error e, w.tick) := by
  cases op with
  | deleteVm =>
    refine ⟨notFound "VmDb", Prog.bind_of_error ?_⟩
    rw [readVm, readRow_alone, Option.map_eq_none_iff.1 h]
    rfl
  | deleteJob =>
    refine ⟨notFound "JobDb", Prog.bind_of_error ?_⟩
    rw [readJob, readRow_alone, Option.map_eq_none_iff.1 h]
    rfl
  | updateCargo =>
    refine ⟨notFound "CargoDb", Prog.bind_of_error ?_⟩
    rw [readCargo, readRow_alone, Option.map_eq_none_iff.1 h]
    rfl
  | _ => cases h

/-- the rest of an operation acts on no other process -/
theorem only_rest (op : GroupOp) {db : Database} {m : Io Unit} (h : op.rest E key db = some m) :
    Prog.Keeps (Logs E (op.Only (op.reads key db.processes))) m := by
  cases op with
  | stop kind | start kind =>
    obtain rfl := Option.some.inj h
    exact Prog.keeps_bind (framed_logs.updateActualStatus _ _) fun _ => framed_logs.emitAction _ _ _
  | kill =>
    obtain rfl := Option.some.inj h
    exact Prog.keeps_pure _
  | restart kind =>
    obtain rfl := Option.some.inj h
    exact framed_logs.emitAction _ _ _
  | deleteCargo =>
    obtain rfl := Option.some.inj h
    exact Prog.keeps_bind (framed_logs.readDb _) fun _ =>
      Prog.keeps_bind (framed_logs.modifyDb fun _ => logs_of_docker rfl) fun _ =>
        framed_logs.modifyDb fun _ => logs_of_docker rfl
  | deleteVm =>
    obtain ⟨vm, -, rfl⟩ := Option.map_eq_some_iff.1 h
    exact Prog.keeps_bind (logs_deleteVmImage _) fun _ =>
      Prog.keeps_bind (framed_logs.modifyDb fun _ => logs_of_docker rfl) fun _ =>
        framed_logs.modifyDb fun _ => logs_of_docker rfl
  | deleteJob =>
    obtain ⟨job, -, rfl⟩ := Option.map_eq_some_iff.1 h
    refine Prog.keeps_bind (framed_logs.modifyDb fun _ => logs_of_docker rfl) fun _ => ?_
    split_ifs
    · refine Prog.keeps_bind (Steps.orThrow (framed_logs.awaitInert fun p hp => ?_)) fun _ =>
        framed_logs.modifyDb fun _ => logs_of_docker rfl
      simp [call] at hp
    · exact framed_logs.modifyDb fun _ => logs_of_docker rfl
  | updateCargo =>
    obtain ⟨cargo, -, rfl⟩ := Option.map_eq_some_iff.1 h
    have hprep : ∀ c : Call, c.preparing → GroupOp.Only .updateCargo (db.processesOf key) c := by
      intro c hc p hp
      subst hp
      cases hc
    refine Prog.keeps_bind (framed_logs.runInit hprep cargo) fun _ =>
      Prog.keeps_bind (framed_logs.createInstances (fun c hc => hprep c hc.preparing) _ _) fun _ =>
      Prog.keeps_bind (framed_logs.finish (fun ref p hp => ?_) (fun ref p hp => ?_) fun q hq p hp => ⟨q, hq, ?_⟩) fun _ =>
        Prog.keeps_bind (framed_logs.updateActualStatus _ _) fun _ => framed_logs.modifyDb fun _ => logs_of_docker rfl
    · simp [call] at hp
    · simp [call] at hp
    · exact (by simpa [call] using hp : _ ∧ _).1

theorem not_cleared_self (op : GroupOp) {db : Database} : ¬ op.Cleared key db db := by
  cases op with
  | deleteCargo | deleteVm | deleteJob =>
    rintro ⟨hsome, hnone⟩
    rw [hnone] at hsome
    cases hsome
  | _ => exact id

/-- an operation whose loop fails keeps the row of the object -/
theorem not_cleared_of_loop (op : GroupOp) {w s : World} {db : Database} {e : IoError}
    (hs : s.db = db) (h : (op.loop E.alone processes s).1 = .error e) (hw : w = (op.loop E.alone processes s).2) :
    ¬ op.Cleared key db w.db := by
  cases op with
  | deleteCargo =>
    rw [loop, (Prog.forEach_eq_foldl (f := dropProcess E.alone) (fun _ => True) (fun w p => (dropProcess E.alone p w).2)
      (fun p _ w _ => ⟨rfl, trivial⟩) trivial).1] at h
    cases h
  | deleteVm =>
    rintro ⟨hsome, hnone⟩
    rw [hw, loop, (framed_sameObjects.deleteInstances (fun _ _ => trivial) s).vms, hs] at hnone
    rw [hnone] at hsome
    cases hsome
  | deleteJob =>
    rintro ⟨hsome, hnone⟩
    rw [hw, loop, (framed_sameObjects.deleteInstances (fun _ _ => trivial) s).jobs, hs] at hnone
    rw [hnone] at hsome
    cases hsome
  | _ => exact id

/-- an operation that succeeds or removes the row of the object has finished its loop -/
theorem run_issued (op : GroupOp) {w : World}
    (h : (op.run E.alone key w).1 = .ok () ∨ op.Cleared key w.db (op.run E.alone key w).2.db) {p : ProcessDb}
    (hp : p ∈ op.reads key w.db.processes) : Issued w (op.run E.alone key w).2 (op.call p) := by
  cases hrest : op.rest E.alone key w.db with
  | none =>
    obtain ⟨e, hrun⟩ := run_error op hrest
    rw [hrun] at h
    obtain h | h := h
    · cases h
    · exact absurd h (not_cleared_self op)
  | some m =>
    obtain ⟨s, hs, hd, hrun⟩ := run_eq op hrest
    rcases hl : op.loop E.alone (op.reads key w.db.processes) s with ⟨e | u, s'⟩
    · rw [hrun, Prog.bind_of_error hl] at h
      obtain h | h := h
      · cases h
      · exact absurd h (not_cleared_of_loop (s := s) op hs (congrArg Prod.fst hl) (congrArg Prod.snd hl).symm)
    · have hloop := loop_issued op (congrArg Prod.fst hl) hp
      rw [hl] at hloop
      rw [hrun, Prog.bind_of_ok hl]
      have hissued := Issued.mono (Std.Refl.refl _) hloop (only_rest op hrest s')
      rwa [Issued, hd] at hissued

/-- an operation acts on no process but those it read -/
theorem mem_reads_of_issued (op : GroupOp) {w : World} (hkeys : (w.db.processes.map ProcessDb.key).Nodup)
    {p : ProcessDb} (hp : p ∈ w.db.processes) (hok : (op.run E.alone key w).1 = .ok ())
    (h : Issued w (op.run E.alone key w).2 (op.call p)) : p ∈ op.reads key w.db.processes := by
  cases hrest : op.rest E.alone key w.db with
  | none =>
    obtain ⟨e, hrun⟩ := run_error op hrest
    rw [hrun] at hok
    cases hok
  | some m =>
    obtain ⟨s, -, hd, hrun⟩ := run_eq op hrest
    rw [hrun, Issued, ← hd] at h
    obtain ⟨q, hq, hqp⟩ := Issued.of_logs h (Prog.keeps_bind (only_loop op) (fun _ => only_rest op hrest) s) p rfl
    have hqrow : q ∈ w.db.processes := by
      cases op <;> exact List.mem_of_mem_filter (ProcessDb.mem_of_mem_newest100 hq)
    rwa [← List.inj_on_of_nodup_map hkeys hqrow hp hqp]

end GroupOp

end Issued

/-! ## A world where every operation returns -/

/-- a cargo that has no instances to create -/
def readyCargo (key : String) : Cargo :=
  ⟨key, "global", ⟨"web", none, none, none, some .never,
    { Config.default with image := some "nginx:latest" }, some (.static ⟨0⟩)⟩⟩

/-- a database with an object of each kind under every key -/
def readyDb (key : String) (processes : List ProcessDb) : Database where
  processes := processes
  cargoes _ := some (readyCargo key)
  jobs _ := some ⟨key, [], none, none, none, none, none⟩
  vms _ := some ⟨key, "global", "disk", none, none, none, none, .default⟩
  vmImages := [⟨"disk", none, "/disk.img"⟩]
  statuses _ := some ⟨.start, .create, .create, .create⟩
  events := []

/-- the containers of the processes exist, in a state the operation can act on -/
structure Ready (Q : ProcessDb → Container → Prop) (key : String) (processes : List ProcessDb) (w : World) : Prop where
  nodup : (processes.map ProcessDb.key).Nodup
  there : ∀ p ∈ processes, p.key < w.docker.nextId ∧ ∃ c, w.docker.containers p.key = some c ∧ Q p c
  db : ∃ l, w.db = readyDb key l

theorem Docker.find_name {d : Docker} {id : ContainerId} {x : Container} (hid : id < d.nextId)
    (hx : d.containers id = some x) : ∃ id' x', d.find (.name x.name) = some (id', x') ∧ d.containers id' = some x' ∧
      x'.name = x.name := by
  cases hf : d.find (.name x.name) with
  | none =>
    have := List.findSome?_eq_none_iff.1 hf id (by simpa using hid)
    simp [hx] at this
  | some r =>
    obtain ⟨i, -, hi⟩ := List.exists_of_findSome?_eq_some hf
    obtain ⟨y, hy, rfl⟩ := Option.map_eq_some_iff.1 hi
    obtain ⟨hy, hname⟩ := Option.filter_eq_some_iff.1 hy
    exact ⟨i, y, rfl, hy, by simpa using hname⟩

section Ready

variable {Q : ProcessDb → Container → Prop} {key : String} {p : ProcessDb} {l : List ProcessDb} {w : World}

/-- a step that changes the container of the first process only leaves the others ready -/
theorem Ready.next (h : Ready Q key (p :: l) w) {w' : World} {x : Option Container}
    (hc : w'.docker.containers = Function.update w.docker.containers p.key x) (hn : w'.docker.nextId = w.docker.nextId)
    (hdb : ∃ l, w'.db = readyDb key l) : Ready Q key l w' := by
  obtain ⟨hp, hl⟩ := List.nodup_cons.1 h.nodup
  refine ⟨hl, fun q hq => ?_, hdb⟩
  have hne : q.key ≠ p.key := fun he => hp (he ▸ List.mem_map_of_mem hq)
  rw [hc, hn, Function.update_of_ne hne]
  exact h.there q (List.mem_cons_of_mem _ hq)

/-- a call on the first process that docker accepts -/
theorem Ready.act (h : Ready Q key (p :: l) w) {c : Call} {context : String}
    (hon : ∀ x, Q p x → ∃ code x', onContainer Env.plain c p.key x = .ok (code, x')) :
    ∃ s, (do
      let _ ← orThrow context (await Env.plain.alone (Docker.call Env.plain.alone c (.id p.key)))
      return () : Io Unit) w = (.ok (), s) ∧ Ready Q key l s := by
  obtain ⟨-, x, hx, hq⟩ := h.there p (List.mem_cons_self ..)
  obtain ⟨code, x', hon⟩ := hon x hq
  have hcall : w.docker.call Env.plain.alone c (.id p.key) = _ := Docker.call_ok rfl (Docker.find_id hx) hon
  exact ⟨_, Prog.bind_of_ok (orThrow_ok Env.plain hcall), h.next rfl rfl h.db⟩

/-- removing a container that exists -/
theorem Ready.delete (h : Ready Q key (p :: l) w) :
    ∃ s, deleteInstance Env.plain.alone (.id p.key) true w = (.ok (), s) ∧ Ready Q key l s := by
  obtain ⟨-, x, hx, -⟩ := h.there p (List.mem_cons_self ..)
  obtain ⟨l', hl'⟩ := h.db
  have hon : onContainer Env.plain.alone (.removeContainer (.id p.key) true) p.key x = .ok (0, none) := by
    simp [onContainer]
  have hcall : w.docker.call Env.plain.alone (.removeContainer (.id p.key) true) (.id p.key) = _ :=
    Docker.call_ok rfl (Docker.find_id hx) hon
  have hawait : removeContainer Env.plain.alone (.id p.key) true w = (.ok (.ok 0), _) :=
    congrArg (fun r => (Except.ok r.1, { w.tick with docker := r.2 })) hcall
  refine ⟨_, Prog.bind_of_ok hawait, h.next rfl rfl ⟨l'.filter fun q => q.key ≠ p.key, ?_⟩⟩
  change w.db.deleteProcess p.key = _
  rw [hl']
  rfl

/-- stopping a container leaves the names as they are -/
theorem Ready.stop (h : Ready (fun p c => c.name = p.name) key (p :: l) w) :
    ∃ code s, orThrow "StopContainer" (stopContainer Env.plain.alone (.name p.name)) w = (.ok code, s) ∧
      Ready (fun p c => c.name = p.name) key (p :: l) s := by
  obtain ⟨hlt, x, hx, hname⟩ := h.there p (List.mem_cons_self ..)
  obtain ⟨id, y, hfind, hy⟩ := Docker.find_name hlt hx
  rw [hname] at hfind
  have hcall : w.docker.call Env.plain.alone (.stopContainer (.name p.name)) (.name p.name) = _ :=
    Docker.call_ok rfl hfind rfl
  refine ⟨_, _, orThrow_ok Env.plain hcall, h.nodup, fun q hq => ?_, h.db⟩
  obtain ⟨hqlt, z, hz, hqname⟩ := h.there q hq
  refine ⟨hqlt, ?_⟩
  by_cases hid : q.key = id
  · subst hid
    obtain rfl := Option.some.inj (hy.1.symm.trans hz)
    exact ⟨y.ended (Env.plain.finishedAt q.key), by simp [Docker.record, Docker.setContainer, Env.alone], by simpa⟩
  · exact ⟨z, by simp [Docker.record, Docker.setContainer, hid, hz], hqname⟩

/-- flagging an old instance that exists under its name -/
theorem Ready.flagOld (h : Ready (fun p c => c.name = p.name) key (p :: l) w) :
    ∃ s, flagOld Env.plain.alone p w = (.ok (), s) ∧ Ready (fun p c => c.name = p.name) key l s := by
  have hrename : ∀ {w}, Ready (fun p c => c.name = p.name) key (p :: l) w → ∃ s, (do
      let _ ← orThrow "RenameContainer" (renameContainer Env.plain.alone (.id p.key) ("tmp-" ++ p.name))
      return () : Io Unit) w = (.ok (), s) ∧ Ready (fun p c => c.name = p.name) key l s :=
    fun h => h.act fun _ _ => ⟨_, _, rfl⟩
  unfold Runtime.flagOld
  split_ifs
  · obtain ⟨code, s, hstop, hs⟩ := h.stop
    rw [Prog.bind_of_ok hstop]
    exact hrename hs
  · exact hrename h

end Ready

namespace GroupOp

/-- what the operation needs of the container of a process -/
def needs : GroupOp → ProcessDb → Container → Prop
  | .kill, _, c => c.running = true
  | .updateCargo, p, c => c.name = p.name
  | _, _, _ => True

theorem loop_returns (op : GroupOp) {key : String} {l : List ProcessDb} {w : World} (h : Ready op.needs key l w) :
    ∃ s, op.loop Env.plain.alone l w = (.ok (), s) ∧ ∃ l', s.db = readyDb key l' := by
  have hfor : ∀ {f : ProcessDb → Io Unit},
      (∀ p l w, Ready op.needs key (p :: l) w → ∃ s, f p w = (.ok (), s) ∧ Ready op.needs key l s) →
      ∃ s, Prog.forEach l f w = (.ok (), s) ∧ ∃ l', s.db = readyDb key l' := by
    intro f hf
    obtain ⟨s, hs, hready⟩ := Prog.forEach_returns (fun l w => Ready op.needs key l w) hf h
    exact ⟨s, hs, hready.db⟩
  cases op with
  | stop kind =>
    refine hfor fun p l w h => ?_
    rw [stopProcess, dataId_eq]
    exact h.act fun _ _ => ⟨_, _, rfl⟩
  | start kind =>
    refine hfor fun p l w h => ?_
    rw [startProcess, dataId_eq]
    exact h.act fun _ _ => ⟨_, _, rfl⟩
  | kill => exact hfor fun p l w h => h.act fun x hx => ⟨0, _, if_pos hx⟩
  | restart kind => exact hfor fun p l w h => h.act fun _ _ => ⟨_, _, rfl⟩
  | deleteCargo => exact hfor fun p l w h => ⟨_, rfl, h.next (dropProcess_containers Env.plain p w)
      ((Docker.call_nextId ..).trans (Docker.call_nextId ..)) h.db⟩
  | deleteVm | deleteJob =>
    have hdelete : ∀ (pk : Ref) (pks : List Ref) (w : World),
        (∃ l, pk :: pks = l.map (fun p : ProcessDb => Ref.id p.key) ∧ Ready (fun _ _ => True) key l w) →
        ∃ u s, deleteInstance Env.plain.alone pk true w = (.ok u, s) ∧
          ∃ l, pks = l.map (fun p : ProcessDb => Ref.id p.key) ∧ Ready (fun _ _ => True) key l s := by
      rintro pk pks w ⟨l, hl, h⟩
      obtain ⟨p, l, rfl, rfl, rfl⟩ := List.map_eq_cons_iff.1 hl.symm
      obtain ⟨s, hs, hready⟩ := h.delete
      exact ⟨(), s, hs, l, rfl, hready⟩
    obtain ⟨bs, s, hs, l', -, hready⟩ := Prog.joinAll_returns
      (fun pks w => ∃ l, pks = l.map (fun p : ProcessDb => Ref.id p.key) ∧ Ready (fun _ _ => True) key l w) hdelete
      ⟨l, rfl, h⟩
    exact ⟨s, Prog.bind_of_ok hs, hready.db⟩
  | updateCargo =>
    obtain ⟨bs, s, hs, hready⟩ := Prog.joinAll_returns (fun l w => Ready (fun p c => c.name = p.name) key l w)
      (fun p l w h => ⟨(), h.flagOld⟩) h
    exact ⟨s, Prog.bind_of_ok hs, hready.db⟩

/-- an update that has nothing to create ends well, whatever the start of the instances it has answers -/
theorem finish_returns (E : Env) (key : String) (l l' : List ProcessDb) (w : World) :
    (update.finish E key l l' w).1 = .ok () := by
  unfold update.finish
  rw [Prog.bind_of_ok (Prog.run_attempt _ w)]
  cases (startInstances E key .cargo w).1 <;> rfl

theorem rest_updateCargo {E : Env} {key : String} {db : Database} {cargo : Cargo} (h : db.readCargo key = some cargo) :
    GroupOp.updateCargo.rest E key db = some (do
      update.runInit E cargo
      let newInstances ← create E cargo cargo.spec.number
      update.finish E key (db.processesOf key) newInstances
      updateActualStatus E key .start
      emitNormal E .cargo cargo.key .start) := by
  rw [rest, h]
  rfl

theorem rest_returns (op : GroupOp) {key : String} (rows : List ProcessDb) {l : List ProcessDb} {w : World}
    (h : w.db = readyDb key l) :
    ∃ m, op.rest Env.plain.alone key (readyDb key rows) = some m ∧ (m w).1 = .ok () := by
  have hkey : ∀ key', w.db.statuses key' = some ⟨.start, .create, .create, .create⟩ := fun _ => by
    rw [h]
    rfl
  have hactor : ∀ kind, ∃ k, w.db.actor kind key = some k := by
    intro kind
    rw [h]
    cases kind <;> exact ⟨_, rfl⟩
  have hstatus : ∀ (kind : ProcessKind) (status : ObjPsStatusKind) (action : NativeEventAction),
      ((do
        updateActualStatus Env.plain.alone key status
        emit Env.plain.alone key kind action : Io Unit) w).1 = .ok () := by
    intro kind status action
    have hsame := framed_sameObjects.updateActualStatus (E := Env.plain.alone) key status w
    obtain ⟨n, hn⟩ := updateActualStatus_alone (E := Env.plain) status (w := w) (hkey key)
    obtain ⟨k, hk⟩ := hactor kind
    rw [hn] at hsame
    obtain ⟨n', hn'⟩ := emit_alone (E := Env.plain) action (hsame.actor hk)
    rw [Prog.bind_of_ok hn, hn']
  cases op with
  | stop kind => exact ⟨_, rfl, hstatus kind .stop .stop⟩
  | start kind => exact ⟨_, rfl, hstatus kind .start .start⟩
  | restart kind =>
    obtain ⟨k, hk⟩ := hactor kind
    obtain ⟨n, hn⟩ := emit_alone (E := Env.plain) .restart hk
    exact ⟨_, rfl, congrArg Prod.fst hn⟩
  | updateCargo =>
    have hread : (readyDb key rows).readCargo key = some (readyCargo key) := rfl
    refine ⟨_, rest_updateCargo hread, ?_⟩
    have hinit : update.runInit Env.plain.alone (readyCargo key) w = (.ok (), w) := rfl
    have hcreate : ∃ s, create Env.plain.alone (readyCargo key) (readyCargo key).spec.number w = (.ok [], s) ∧
        SameObjects w s := ⟨_, rfl, .of_docker rfl⟩
    obtain ⟨s, hs, hsame⟩ := hcreate
    have hfinish := Prog.eq_of_ok (finish_returns Env.plain.alone key ((readyDb key rows).processesOf key) [] s)
    have hsame' : SameObjects s (update.finish Env.plain.alone key ((readyDb key rows).processesOf key) [] s).2 :=
      framed_sameObjects.finish (fun _ => trivial) (fun _ => trivial) (fun _ _ => trivial) s
    obtain ⟨status, hstatus⟩ := Option.isSome_iff_exists.1 (hsame'.statuses key (hsame.statuses key (by rw [h]; rfl)))
    obtain ⟨n, hn⟩ := updateActualStatus_alone (E := Env.plain) .start hstatus
    rw [Prog.bind_of_ok hinit, Prog.bind_of_ok hs, Prog.bind_of_ok hfinish, Prog.bind_of_ok hn]
    rfl
  | _ =>
    obtain ⟨docker, db, removals, draws, ticks⟩ := w
    obtain rfl : db = readyDb key l := h
    exact ⟨_, rfl, rfl⟩

end GroupOp

/-! ## The theorem -/

/-- docker with a running container for each of the processes -/
def readyDocker (processes : List ProcessDb) : Docker where
  containers id := (processes.find? fun p => p.key = id).map fun p =>
    ⟨p.name, .default, true, false, 0, "0001-01-01T00:00:00Z", 0⟩
  nextId := (processes.map ProcessDb.key).foldr max 0 + 1
  log := []

def readyWorld (key : String) (processes : List ProcessDb) : World :=
  ⟨readyDocker processes, readyDb key processes, [], 0, 0⟩

theorem le_foldr_max {l : List ℕ} {n : ℕ} (h : n ∈ l) : n ≤ l.foldr max 0 := by
  induction l with
  | nil => cases h
  | cons m l ih =>
    rw [List.foldr_cons]
    rcases List.mem_cons.1 h with rfl | h
    · exact Nat.le_max_left ..
    · exact (ih h).trans (Nat.le_max_right ..)

/-- each process has its container, under its name -/
theorem readyDocker_there {processes : List ProcessDb} (hkeys : (processes.map ProcessDb.key).Nodup) {p : ProcessDb}
    (hp : p ∈ processes) : p.key < (readyDocker processes).nextId ∧
      ∃ c, (readyDocker processes).containers p.key = some c ∧ c.name = p.name ∧ c.running = true := by
  refine ⟨Nat.lt_succ_of_le (le_foldr_max (List.mem_map_of_mem hp)), ?_⟩
  have hfind : processes.find? (fun q => q.key = p.key) = some p := by
    cases hf : processes.find? fun q => q.key = p.key with
    | none => simpa using List.find?_eq_none.1 hf p hp
    | some q =>
      have hq : q.key = p.key := by simpa using List.find?_some hf
      rw [List.inj_on_of_nodup_map hkeys (List.mem_of_find?_eq_some hf) hp hq]
  exact ⟨_, congrArg (Option.map _) hfind, rfl, rfl⟩

namespace GroupOp

variable {key : String} {rows : List ProcessDb}

theorem ready_reads (op : GroupOp) (hkeys : (rows.map ProcessDb.key).Nodup) {w : World} (hd : w.docker = readyDocker rows)
    (hdb : w.db = readyDb key rows) : Ready op.needs key (op.reads key rows) w := by
  have hreads : ∀ p ∈ op.reads key rows, p ∈ rows := by
    cases op <;> exact fun p hp => List.mem_of_mem_filter (ProcessDb.mem_of_mem_newest100 hp)
  refine ⟨?_, fun p hp => ?_, rows, hdb⟩
  · cases op <;> exact ProcessDb.nodup_newest100 (((List.filter_sublist).map _).nodup hkeys)
  · obtain ⟨hlt, c, hc, hname, hrun⟩ := readyDocker_there hkeys (hreads p hp)
    refine ⟨hd ▸ hlt, c, hd ▸ hc, ?_⟩
    cases op <;> first | exact hname | exact hrun | trivial

theorem run_returns (op : GroupOp) (hkeys : (rows.map ProcessDb.key).Nodup) :
    (op.run Env.plain.alone key (readyWorld key rows)).1 = .ok () := by
  obtain ⟨m, hm, -⟩ := rest_returns op rows (w := readyWorld key rows) rfl
  obtain ⟨s, hs, hd, hrun⟩ := run_eq op (w := readyWorld key rows) hm
  obtain ⟨s', hloop, l, hl⟩ := loop_returns op (ready_reads op hkeys hd hs)
  obtain ⟨m', hm', hok⟩ := rest_returns op rows hl
  obtain rfl := Option.some.inj (hm.symm.trans hm')
  exact (congrArg Prod.fst (hrun.trans (Prog.bind_of_ok hloop))).trans hok

theorem mem_reads (op : GroupOp) (h : op.ReadsAll key rows) {p : ProcessDb} (hp : p ∈ rows) (hkey : p.kindKey = key)
    (hc : op.concerns p = true) : p ∈ op.reads key rows := by
  have hall : (rows.filter fun p => p.kindKey = key).length ≤ 100 →
      p ∈ ProcessDb.newest100 (rows.filter fun p => p.kindKey = key) := fun h =>
    (ProcessDb.newest100_perm h).mem_iff.2 (List.mem_filter.2 ⟨hp, by simpa using hkey⟩)
  cases op with
  | start kind => exact h p hp hkey (by simpa [concerns] using hc)
  | _ => exact hall h

/-- an operation that covers every process has read it -/
theorem readsAll_of_covers (op : GroupOp) (hkeys : (rows.map ProcessDb.key).Nodup) (h : op.Covers key rows) :
    op.ReadsAll key rows := by
  have hmem : ∀ p ∈ rows, p.kindKey = key → op.concerns p = true → p ∈ op.reads key rows := fun p hp hkey hc =>
    mem_reads_of_issued op (w := readyWorld key rows) hkeys hp (run_returns op hkeys)
      (h Env.plain (readyWorld key rows) rfl (Or.inl (run_returns op hkeys)) p hp hkey hc)
  have hle : (∀ p ∈ rows, p.kindKey = key → p ∈ ProcessDb.newest100 (rows.filter fun p => p.kindKey = key)) →
      (rows.filter fun p => p.kindKey = key).length ≤ 100 := by
    intro hmem
    by_contra hlen
    have hnodup : (rows.filter fun p => decide (p.kindKey = key)).Nodup := (List.Nodup.of_map _ hkeys).filter _
    obtain ⟨p, hp, hnot⟩ := ProcessDb.exists_notMem_newest100 hnodup (by omega)
    obtain ⟨hp, hkey⟩ := List.mem_filter.1 hp
    exact hnot (hmem p hp (by simpa using hkey))
  cases op with
  | start kind => exact fun p hp hkey hinit => hmem p hp hkey (by simp [concerns, hinit])
  | _ => exact hle fun p hp hkey => hmem p hp hkey rfl

end GroupOp

/-- **Group operations cover every process.** For the rows of the database, whatever docker answers and whatever the
other tables hold: an operation that reports success, or removes the row of the object, has acted on each process it is
about, exactly when the read of its processes returns all of them. For a start that is when each process that is no init
container has the label of the daemon and is among the 100 newest of those; for the others, when the object has at most
100 processes. -/
theorem group_covers_iff (op : GroupOp) (key : String) (rows : List ProcessDb)
    (hkeys : (rows.map ProcessDb.key).Nodup) : op.Covers key rows ↔ op.ReadsAll key rows := by
  refine ⟨op.readsAll_of_covers hkeys, fun h E w hw hdone p hp hkey hc => ?_⟩
  subst hw
  exact op.run_issued hdone (op.mem_reads h hp hkey hc)

/-- the rows of a cargo with the given number of instances -/
def webRows (number : ℕ) : List ProcessDb :=
  (List.range number).map fun n =>
    ⟨n, "web-" ++ toString n ++ ".global.c", .cargo, "web.global", "node", n, ⟨some n, none, []⟩, rfl⟩

theorem webRows_keys (number : ℕ) : ((webRows number).map ProcessDb.key).Nodup := by
  simp [webRows, Function.comp_def, List.nodup_range]

theorem webRows_filter (number : ℕ) : ((webRows number).filter fun p => p.kindKey = "web.global").length = number := by
  rw [List.filter_eq_self.2 (by simp [webRows])]
  simp [webRows]

theorem group_covers_webRows : (GroupOp.stop .cargo).Covers "web.global" (webRows 3) :=
  (group_covers_iff _ _ _ (webRows_keys 3)).2 (by rw [GroupOp.ReadsAll, webRows_filter]; decide; exact fun _ => nofun)

/-- a cargo with 101 instances: a stop leaves one of them running and reports success -/
theorem stop_skips : ¬ (GroupOp.stop .cargo).Covers "web.global" (webRows 101) := by
  intro h
  have hread := (GroupOp.stop .cargo).readsAll_of_covers (webRows_keys 101) h
  rw [GroupOp.ReadsAll, webRows_filter] at hread
  · omega
  · exact fun _ => nofun

end Nanocl.Runtime
