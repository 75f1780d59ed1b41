/-
Deleting a cargo (`utils/container/cargo.rs::delete`).

The task stops and removes the container of each process row it reads, discards the results of these calls, and then
clears the rows of the cargo and emits its Destroy event.

Results:
- `delete_noOrphan_iff`: the rows are cleared only after every container of the cargo is gone exactly when the cargo
  does not exist, or each of its containers is among the rows read and docker lets it be removed.
- `delete_leavesOrphan`: a container whose stop fails survives its cargo.
-/
import Nanocl.Runtime.Cargo

namespace Nanocl.Runtime

open Nanocl.Lib

/-- a container of the cargo, by the labels the daemon puts on it -/
def Container.isOf (c : Container) (key : String) : Bool :=
  c.labels.has "io.nanocl.kind" "cargo" && c.labels.has "io.nanocl.c" key

variable (E : Env)

/-! ## One container -/

/-- docker lets the container be removed: the removal has no force, so the container has to be stopped before -/
def Removable (id : ContainerId) (c : Container) : Prop :=
  E.fate (.removeContainer (.id id) false) = none ∧ (c.running = false ∨ E.fate (.stopContainer (.id id)) = none)

/-- what stopping and removing a container leaves of it -/
def dropped (id : ContainerId) : Option Container → Option Container
  | none => none
  | some c =>
    let c := if (E.fate (.stopContainer (.id id))).isNone then c.ended (E.finishedAt id) else c
    if (E.fate (.removeContainer (.id id) false)).isSome || c.running then some c else none

theorem Container.ended_of_not_running {c : Container} (h : c.running = false) (t : String) : c.ended t = c := by
  simp [Container.ended, h]

theorem dropped_eq_none_iff (id : ContainerId) (c : Container) : dropped E id (some c) = none ↔ Removable E id c := by
  cases hs : E.fate (.stopContainer (.id id)) <;> cases hr : E.fate (.removeContainer (.id id) false) <;>
    simp [dropped, Removable, hs, hr]

/-- a container that survives keeps its labels -/
theorem labels_of_dropped {id : ContainerId} {c c' : Container} (h : dropped E id (some c) = some c') :
    c'.labels = c.labels := by
  unfold dropped at h
  dsimp only at h
  split_ifs at h <;> cases h <;> simp

theorem dropped_dropped (id : ContainerId) (x : Option Container) : dropped E id (dropped E id x) = dropped E id x := by
  cases x with
  | none => rfl
  | some c =>
    cases hs : E.fate (.stopContainer (.id id)) <;> cases hr : E.fate (.removeContainer (.id id) false) <;>
      cases hc : c.running <;> simp [dropped, hs, hr, hc, Container.ended_of_not_running]

/-! ## The loop -/

theorem dropProcess_ok (p : ProcessDb) (w : World) :
    dropProcess E.alone p w = (.ok (), (dropProcess E.alone p w).2) := rfl

theorem dropProcess_db (p : ProcessDb) (w : World) : (dropProcess E.alone p w).2.db = w.db := rfl

theorem after_stop_remove (id : ContainerId) (x : Option Container) :
    Docker.after E (.removeContainer (.id id) false) id (Docker.after E (.stopContainer (.id id)) id x) =
      dropped E id x := by
  cases x with
  | none => rfl
  | some c =>
    cases hs : E.fate (.stopContainer (.id id)) <;> cases hr : E.fate (.removeContainer (.id id) false) <;>
      cases hc : c.running <;> simp [Docker.after, dropped, onContainer, hs, hr, hc]

theorem dropProcess_containers (p : ProcessDb) (w : World) :
    (dropProcess E.alone p w).2.docker.containers =
      Function.update w.docker.containers p.key (dropped E p.key (w.docker.containers p.key)) := by
  have h : (dropProcess E.alone p w).2.docker = ((w.docker.call E (.stopContainer (.id p.key)) (.id p.key)).2.call E
      (.removeContainer (.id p.key) false) (.id p.key)).2 := rfl
  rw [h, Docker.call_containers, Docker.call_containers, Function.update_idem, Function.update_self, after_stop_remove]

/-- the loop does to the containers it is about what one round does, and nothing to the others -/
theorem dropProcesses_containers (l : List ProcessDb) (w : World) (id : ContainerId) :
    (l.foldl (fun w p => (dropProcess E.alone p w).2) w).docker.containers id =
      if id ∈ l.map ProcessDb.key then dropped E id (w.docker.containers id) else w.docker.containers id := by
  induction l generalizing w with
  | nil => simp
  | cons p l ih =>
    rw [List.foldl_cons, ih, dropProcess_containers]
    by_cases hp : id = p.key
    · subst hp
      simp [dropped_dropped]
    · simp [hp]

theorem dropProcesses_db (l : List ProcessDb) (w : World) :
    (l.foldl (fun w p => (dropProcess E.alone p w).2) w).db = w.db := by
  induction l generalizing w with
  | nil => rfl
  | cons p l ih => rw [List.foldl_cons, ih, dropProcess_db]

/-! ## The task -/

/-- the world after the stops and the removals of the task -/
def afterDrops (key : String) (w : World) : World :=
  (w.db.processesOf key).foldl (fun w p => (dropProcess E.alone p w).2) w.tick

theorem afterDrops_db (key : String) (w : World) : (afterDrops E key w).db = w.db := dropProcesses_db E _ _

/-- the loop never fails; the rest of the task runs in the world it leaves -/
theorem delete_eq (key : String) (w : World) :
    delete E.alone key w = (do
      let cargo ← readCargo E.alone key
      clearCargo E.alone key
      emitNormal E.alone .cargo cargo.key .destroy) (afterDrops E key w) := by
  have hloop := (Prog.forEach_eq_foldl (l := w.db.processesOf key) (f := dropProcess E.alone) (fun _ => True)
    (fun w p => (dropProcess E.alone p w).2) (fun p _ w _ => ⟨dropProcess_ok E p w, trivial⟩) (s := w.tick) trivial).1
  unfold delete
  exact (Prog.bind_of_ok (readByKindKey_alone E key w)).trans (Prog.bind_of_ok hloop)

/-- a cargo that does not exist: the task fails and no row is touched -/
theorem delete_none {key : String} {w : World} (h : w.db.readCargo key = none) :
    (delete E.alone key w).1 = .error (notFound "CargoDb") ∧ (delete E.alone key w).2.db = w.db := by
  have hread : readCargo E.alone key (afterDrops E key w) = (.error (notFound "CargoDb"), (afterDrops E key w).tick) := by
    rw [readCargo, readRow_alone, afterDrops_db, h]
    rfl
  rw [(delete_eq E key w).trans (Prog.bind_of_error hread)]
  exact ⟨rfl, afterDrops_db E key w⟩

/-- a cargo that exists: the task returns, whatever docker answered -/
theorem delete_some {key : String} {w : World} {cargo : Cargo} (h : w.db.readCargo key = some cargo) :
    (delete E.alone key w).1 = .ok () ∧ (delete E.alone key w).2.docker = (afterDrops E key w).docker := by
  rw [← afterDrops_db E key w] at h
  rw [(delete_eq E key w).trans (Prog.bind_of_ok (readCargo_alone E h))]
  exact ⟨rfl, rfl⟩

/-- no container of the cargo is left in docker -/
def AllGone (key : String) (w : World) : Prop := ∀ id c, w.docker.containers id = some c → c.isOf key = false

/-- the rows are cleared and the event is emitted only if every container of the cargo is gone; otherwise the task
fails and keeps them -/
def NoOrphan (key : String) (w : World) : Prop :=
  ¬ AllGone key (delete E.alone key w).2 →
    (∃ e, (delete E.alone key w).1 = .error e) ∧ (delete E.alone key w).2.db = w.db

/-- each container of the cargo is among the rows the task reads, and docker lets it be removed -/
def AllRemovable (key : String) (w : World) : Prop :=
  ∀ id c, w.docker.containers id = some c → c.isOf key = true →
    id ∈ (w.db.processesOf key).map ProcessDb.key ∧ Removable E id c

theorem allGone_afterDrops_iff (key : String) (w : World) :
    AllGone key (afterDrops E key w) ↔ AllRemovable E key w := by
  have hfin : ∀ id, (afterDrops E key w).docker.containers id =
      if id ∈ (w.db.processesOf key).map ProcessDb.key then dropped E id (w.docker.containers id)
      else w.docker.containers id := dropProcesses_containers E _ _
  constructor
  · intro hgone id c hc hof
    have hid : id ∈ (w.db.processesOf key).map ProcessDb.key := by
      by_contra hid
      have := hgone id c (by rw [hfin, if_neg hid, hc])
      rw [hof] at this
      cases this
    refine ⟨hid, (dropped_eq_none_iff E id c).1 ?_⟩
    by_contra hleft
    obtain ⟨c', hc'⟩ := Option.ne_none_iff_exists'.1 hleft
    have := hgone id c' (by rw [hfin, if_pos hid, hc, hc'])
    rw [Container.isOf, labels_of_dropped E hc'] at this
    rw [Container.isOf, this] at hof
    cases hof
  · intro hrem id c' hc'
    rw [hfin] at hc'
    by_contra hof
    rw [Bool.not_eq_false] at hof
    split_ifs at hc' with hid
    · cases hc : w.docker.containers id with
      | none => rw [hc] at hc'; cases hc'
      | some c =>
        rw [hc] at hc'
        have hof' : c.isOf key = true := by rwa [Container.isOf, ← labels_of_dropped E hc']
        rw [(dropped_eq_none_iff E id c).2 (hrem id c hc hof').2] at hc'
        cases hc'
    · exact hid (hrem id c' hc' hof).1

/-- **No orphan after a delete.** The rows of a cargo are cleared only after each of its containers is gone exactly
when the cargo does not exist, or each of its containers is among the 100 newest process rows and docker lets it be
removed: the removal succeeds, and so does the stop of a container that runs. -/
theorem delete_noOrphan_iff (key : String) (w : World) :
    NoOrphan E key w ↔ w.db.readCargo key = none ∨ AllRemovable E key w := by
  cases hcargo : w.db.readCargo key with
  | none =>
    obtain ⟨he, hdb⟩ := delete_none E hcargo
    exact ⟨fun _ => Or.inl rfl, fun _ _ => ⟨⟨_, he⟩, hdb⟩⟩
  | some cargo =>
    obtain ⟨hok, hdocker⟩ := delete_some E hcargo
    have hgone : AllGone key (delete E.alone key w).2 ↔ AllRemovable E key w := by
      rw [← allGone_afterDrops_iff]
      simp only [AllGone, hdocker]
    simp only [NoOrphan, hgone, reduceCtorEq, false_or]
    constructor
    · intro h
      by_contra hno
      obtain ⟨⟨e, he⟩, -⟩ := h hno
      rw [hok] at he
      cases he
    · intro h hno
      exact absurd h hno

/-! ## A container that survives its cargo -/

/-- a running container of the cargo `web.global` -/
def webContainer : Container where
  name := "web-0.global.c"
  config := ⟨some "nginx:latest", none,
    some [("io.nanocl.kind", "cargo"), ("io.nanocl.c", "web.global"), (ProcessDb.notInitC, "true")], none, none, none,
    none, none, none, none, none, []⟩
  running := true
  restarting := false
  exitCode := 0
  finishedAt := "0001-01-01T00:00:00Z"
  created := 0

def webCargo : Cargo :=
  ⟨"web.global", "global", ⟨"web", none, none, none, none, { webContainer.config with labels := none }, none⟩⟩

/-- the cargo `web.global` with its single container -/
def webWorld : World where
  docker := ⟨fun id => if id = 0 then some webContainer else none, 1, []⟩
  db :=
    { processes := [⟨0, "web-0.global.c", .cargo, "web.global", "node", 0, webContainer.inspect 0, rfl⟩]
      cargoes := fun key => if key = "web.global" then some webCargo else none
      jobs := fun _ => none
      vms := fun _ => none
      vmImages := []
      statuses := fun key => if key = "web.global" then some ⟨.destroy, .start, .destroying, .start⟩ else none
      events := [] }
  removals := []
  draws := 0
  ticks := 0

/-- docker does not answer the stop of the container -/
def stopFails : Env :=
  { Env.plain with
    fate := fun c => if c = .stopContainer (.id 0) then some ⟨some 500, "Internal server error"⟩ else none }

/-- the stop fails, the removal is refused as the container runs, and the cargo is cleared all the same -/
theorem delete_leavesOrphan : ¬ NoOrphan stopFails "web.global" webWorld := by
  intro h
  have hleft : ¬ AllGone "web.global" (delete stopFails.alone "web.global" webWorld).2 := by
    intro hgone
    have := hgone 0 webContainer (by rfl)
    revert this
    decide
  obtain ⟨⟨e, he⟩, -⟩ := h hleft
  have hok : (delete stopFails.alone "web.global" webWorld).1 = .ok () := by rfl
  rw [hok] at he
  cases he

end Nanocl.Runtime
