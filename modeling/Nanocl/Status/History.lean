/-
The previous values in the status row of one object, over every interleaving of the operations that write it.

`step` takes one half of an operation: its read, or its update. The rows are those of one key; the operations on other
keys do not touch it.

Results:
- `history_kept_iff`: a run keeps the previous values at every write exactly when every write finds in the row what its
  operation has read, in each column that it changes, and every restart synchronisation that changes a column finds the
  value already recorded as the previous one (`Unraced`).
- `history_kept_locked`: a run in which no row is written between the read and the update of an operation keeps them.
- `history_lost`: a cargo that is running when the daemon stops, and has exited when it starts again.
- `history_lost_raced`: a stop request between the read and the update of a start request.
-/
import Nanocl.Lib.Transition
import Nanocl.Status.Row

namespace Nanocl.Status.History

open Nanocl.Lib

/-! ## Model -/

/-- where an operation stands -/
inductive Phase where
  /-- a docker event, before its first read -/
  | docker (e : DockerEvent)
  /-- before the read -/
  | read (w : Writer)
  /-- before the update; `cur` is the row that was read -/
  | write (w : Writer) (cur : ObjPsStatus)
  | done
deriving DecidableEq

structure St where
  row : Option ObjPsStatus
  /-- the operations, oldest first -/
  calls : List Phase
deriving DecidableEq

def init : St := ⟨none, []⟩

inductive Op where
  /-- `fn_create_obj`: the insertion of the row -/
  | create
  /-- `clear_by_pk`: its deletion -/
  | clear
  /-- the update of `sync_cargo_status` -/
  | sync (status : Option ContainerStateStatusEnum)
  /-- an operation begins -/
  | call (w : Writer)
  /-- a docker event is received -/
  | docker (e : DockerEvent)
  /-- operation i takes its next step -/
  | step (i : ℕ)
deriving DecidableEq

/-- an update of a row that is not there fails -/
def update (row : Option ObjPsStatus) (u : Option ObjPsStatusUpdate) : Option ObjPsStatus :=
  row.map fun r => (u.map (·.set r)).getD r

def stepCall (row : Option ObjPsStatus) : Phase → Option ObjPsStatus × Phase
  | .docker e =>
    match row.bind e.sets with
    | some status => (row, .read (.updateActualStatus status))
    | none => (row, .done)
  | .read w =>
    match row with
    | some cur => (row, if (w.update cur).isSome then .write w cur else .done)
    | none => (row, .done)
  | .write w cur => (update row (w.update cur), .done)
  | .done => (row, .done)

def step (s : St) : Op → St
  | .create => { s with row := some (s.row.getD created) }
  | .clear => { s with row := none }
  | .sync status => { s with row := update s.row (syncCargoStatus status) }
  | .call w => { s with calls := s.calls ++ [.read w] }
  | .docker e => { s with calls := s.calls ++ [.docker e] }
  | .step i =>
    match s.calls[i]? with
    | some p => ⟨(stepCall s.row p).1, s.calls.set i (stepCall s.row p).2⟩
    | none => s

/-! ## Property and condition -/

/-- the columns that differ are recorded as the previous ones -/
def Recorded (r r' : ObjPsStatus) : Prop :=
  (r'.actual ≠ r.actual → r'.prevActual = r.actual) ∧ (r'.wanted ≠ r.wanted → r'.prevWanted = r.wanted)

/-- the step changes actual and wanted only where it sets the previous value to the one that was there -/
def HistoryKept (s : St) (o : Op) : Prop := ∀ r ∈ s.row, ∀ r' ∈ (step s o).row, Recorded r r'

/-- the operation about to write finds, in the columns it changes, what it has read; a synchronisation that changes a
column finds its value recorded already -/
def Unraced (s : St) : Op → Prop
  | .sync status =>
    ∀ r ∈ s.row, ∀ new ∈ status.bind syncStatus,
      (r.actual = new ∨ r.prevActual = r.actual) ∧ (r.wanted = .start ∨ r.prevWanted = r.wanted)
  | .step i =>
    match s.calls[i]? with
    | some (.write w cur) =>
      ∀ r ∈ s.row, (r.actual = w.actual ∨ cur.actual = r.actual) ∧
        ∀ wanted ∈ w.wanted, r.wanted = wanted ∨ cur.wanted = r.wanted
    | _ => True
  | _ => True

instance (r r' : ObjPsStatus) : Decidable (Recorded r r') := by unfold Recorded; infer_instance

instance (s : St) (o : Op) : Decidable (HistoryKept s o) := by unfold HistoryKept; infer_instance

theorem Recorded.refl (r : ObjPsStatus) : Recorded r r := ⟨fun h => absurd rfl h, fun h => absurd rfl h⟩

/-! ## Steps -/

/-- an operation that is about to write has something to write -/
def HasUpdate (s : St) : Prop := ∀ w cur, .write w cur ∈ s.calls → (w.update cur).isSome

theorem stepCall_write {row : Option ObjPsStatus} {p : Phase} {w : Writer} {cur : ObjPsStatus}
    (h : (stepCall row p).2 = .write w cur) : p = .read w ∧ row = some cur ∧ (w.update cur).isSome := by
  cases p with
  | docker e =>
    simp only [stepCall] at h
    split at h <;> cases h
  | read v =>
    cases row with
    | none => cases h
    | some r =>
      simp only [stepCall] at h
      split_ifs at h with hu
      obtain ⟨rfl, rfl⟩ := Phase.write.inj h
      exact ⟨rfl, rfl, hu⟩
  | write v r => cases h
  | done => cases h

/-- only the second half of an operation writes -/
theorem stepCall_row {row : Option ObjPsStatus} {p : Phase} (h : ∀ w cur, p ≠ .write w cur) :
    (stepCall row p).1 = row := by
  cases p with
  | docker e =>
    simp only [stepCall]
    split <;> rfl
  | read w =>
    cases row <;> rfl
  | write w cur => exact absurd rfl (h w cur)
  | done => rfl

theorem hasUpdate_init : HasUpdate init := by
  intro w cur h
  cases h

theorem step_hasUpdate (s : St) (o : Op) (h : HasUpdate s) : HasUpdate (step s o) := by
  intro w cur hw
  cases o with
  | create => exact h w cur hw
  | clear => exact h w cur hw
  | sync status => exact h w cur hw
  | call v =>
    rcases List.mem_append.1 hw with hw | hw
    · exact h w cur hw
    · cases List.mem_singleton.1 hw
  | docker e =>
    rcases List.mem_append.1 hw with hw | hw
    · exact h w cur hw
    · cases List.mem_singleton.1 hw
  | step i =>
    cases hp : s.calls[i]? with
    | none =>
      rw [show step s (.step i) = s by simp [step, hp]] at hw
      exact h w cur hw
    | some p =>
      rw [show step s (.step i) = ⟨(stepCall s.row p).1, s.calls.set i (stepCall s.row p).2⟩ by simp [step, hp]] at hw
      rcases List.mem_or_eq_of_mem_set hw with hw | hw
      · exact h w cur hw
      · exact (stepCall_write hw.symm).2.2

/-- the update of an operation records what it read -/
theorem recorded_set {w : Writer} {cur : ObjPsStatus} (h : (w.update cur).isSome) (r : ObjPsStatus) :
    Recorded r (((w.update cur).map (·.set r)).getD r) ↔
      (r.actual = w.actual ∨ cur.actual = r.actual) ∧ ∀ wanted ∈ w.wanted, r.wanted = wanted ∨ cur.wanted = r.wanted := by
  obtain ⟨u, hu⟩ := Option.isSome_iff_exists.1 h
  obtain rfl := Writer.update_eq hu
  rw [hu]
  cases hw : w.wanted with
  | none => simp [Recorded, ObjPsStatusUpdate.set, eq_comm, or_iff_not_imp_left]
  | some wanted => simp [Recorded, ObjPsStatusUpdate.set, eq_comm, or_iff_not_imp_left]

/-- the synchronisation records nothing -/
theorem recorded_sync (status : Option ContainerStateStatusEnum) (r : ObjPsStatus) :
    Recorded r (((syncCargoStatus status).map (·.set r)).getD r) ↔
      ∀ new ∈ status.bind syncStatus,
        (r.actual = new ∨ r.prevActual = r.actual) ∧ (r.wanted = .start ∨ r.prevWanted = r.wanted) := by
  cases hs : status.bind syncStatus with
  | none => simp [syncCargoStatus, hs, Recorded.refl]
  | some new => simp [syncCargoStatus, hs, Recorded, ObjPsStatusUpdate.set, eq_comm, or_iff_not_imp_left]

theorem historyKept_iff {s : St} (hs : HasUpdate s) (o : Op) : HistoryKept s o ↔ Unraced s o := by
  cases o with
  | create =>
    refine ⟨fun _ => trivial, fun _ r hr r' hr' => ?_⟩
    rw [Option.mem_def] at hr hr'
    simp only [step, hr, Option.getD_some, Option.some.injEq] at hr'
    exact hr' ▸ Recorded.refl r
  | clear =>
    refine ⟨fun _ => trivial, fun _ r _ r' hr' => ?_⟩
    cases hr'
  | sync status =>
    simp only [HistoryKept, Unraced, step]
    refine forall_congr' fun r => forall_congr' fun hr => ?_
    rw [← recorded_sync]
    simp [update, Option.mem_def.1 hr]
  | call w =>
    refine ⟨fun _ => trivial, fun _ r hr r' hr' => ?_⟩
    exact Option.mem_unique hr hr' ▸ Recorded.refl r
  | docker e =>
    refine ⟨fun _ => trivial, fun _ r hr r' hr' => ?_⟩
    exact Option.mem_unique hr hr' ▸ Recorded.refl r
  | step i =>
    cases hp : s.calls[i]? with
    | none =>
      simp only [HistoryKept, Unraced, step, hp, iff_true]
      exact fun r hr r' hr' => Option.mem_unique hr hr' ▸ Recorded.refl r
    | some p =>
      simp only [HistoryKept, Unraced, step, hp]
      by_cases hw : ∃ w cur, p = .write w cur
      · obtain ⟨w, cur, rfl⟩ := hw
        refine forall_congr' fun r => forall_congr' fun hr => ?_
        rw [← recorded_set (hs w cur (List.mem_of_getElem? hp))]
        simp [stepCall, update, Option.mem_def.1 hr]
      · have hw : ∀ w cur, p ≠ .write w cur := fun w cur h => hw ⟨w, cur, h⟩
        rw [stepCall_row hw]
        refine iff_of_true (fun r hr r' hr' => Option.mem_unique hr hr' ▸ Recorded.refl r) ?_
        cases p with
        | write w cur => exact absurd rfl (hw w cur)
        | _ => trivial

/-! ## Runs -/

/-- **The previous values are kept exactly in the runs without a race.** -/
theorem history_kept_iff (ops : List Op) : Along step HistoryKept init ops ↔ Along step Unraced init ops :=
  along_congr_of_inv (I := HasUpdate) step_hasUpdate (fun _ o hs => historyKept_iff hs o) hasUpdate_init ops

/-- a cargo runs when the daemon is stopped, and its container has exited when the daemon starts again -/
theorem history_lost :
    ¬ ∀ ops : List Op, Along step HistoryKept init ops := by
  intro h
  have := h [.create, .call (.emitStarting .cargo), .step 0, .step 0, .call (.updateActualStatus .start), .step 1, .step 1,
    .sync (some .exited)]
  revert this
  decide

/-- a stop request updates the row between the read and the update of a start request -/
theorem history_lost_raced :
    ∃ ops : List Op, (∀ status, .sync status ∉ ops) ∧ ¬ Along step HistoryKept init ops := by
  refine ⟨[.create, .call (.emitStarting .cargo), .call .emitStopping, .step 0, .step 1, .step 1, .step 0], ?_, ?_⟩
  · intro status
    simp
  · decide

/-! ## Without interleaving -/

/-- nothing but the operation that has read the row takes a step before it has updated it -/
def Locked (s : St) (o : Op) : Prop :=
  (∀ status, o ≠ .sync status) ∧ ∀ (i : ℕ) w cur, s.calls[i]? = some (Phase.write w cur) → o = .step i

/-- what an operation has read is still there -/
def Fresh (s : St) : Prop := ∀ (i : ℕ) w cur, s.calls[i]? = some (Phase.write w cur) → s.row = some cur

theorem fresh_init : Fresh init := by
  intro i w cur hi
  cases hi

/-- while an operation is about to write, only its own step is taken -/
theorem step_fresh (s : St) (o : Op) (hs : Fresh s) (hl : Locked s o) : Fresh (step s o) := by
  intro i w cur hi
  cases o with
  | create => cases hl.2 i w cur hi
  | clear => cases hl.2 i w cur hi
  | sync status => exact absurd rfl (hl.1 status)
  | call v =>
    rcases List.mem_append.1 (List.mem_of_getElem? hi) with hw | hw
    · obtain ⟨j, hj⟩ := List.getElem?_of_mem hw
      exact hs j w cur hj
    · cases List.mem_singleton.1 hw
  | docker e =>
    rcases List.mem_append.1 (List.mem_of_getElem? hi) with hw | hw
    · obtain ⟨j, hj⟩ := List.getElem?_of_mem hw
      exact hs j w cur hj
    · cases List.mem_singleton.1 hw
  | step j =>
    cases hp : s.calls[j]? with
    | none =>
      rw [show step s (.step j) = s by simp [step, hp]] at hi ⊢
      exact hs i w cur hi
    | some p =>
      rw [show step s (.step j) = ⟨(stepCall s.row p).1, s.calls.set j (stepCall s.row p).2⟩ by simp [step, hp]] at hi ⊢
      by_cases hij : j = i
      · subst hij
        rw [List.getElem?_set_self (List.getElem?_eq_some_iff.1 hp).1] at hi
        obtain ⟨rfl, hrow, -⟩ := stepCall_write (Option.some.inj hi)
        rw [stepCall_row (by simp)]
        exact hrow
      · rw [List.getElem?_set_ne hij] at hi
        exact absurd (Op.step.inj (hl.2 i w cur hi)) hij

/-- where every operation updates the row it has read, and nothing is synchronised, no previous value is lost -/
theorem history_kept_locked {ops : List Op} (h : Along step Locked init ops) : Along step HistoryKept init ops := by
  rw [history_kept_iff]
  refine along_of_inv (I := Fresh) step_fresh ?_ fresh_init h
  intro s o hs hl
  cases o with
  | sync status => exact absurd rfl (hl.1 status)
  | step i =>
    cases hp : s.calls[i]? with
    | none => simp [Unraced, hp]
    | some p =>
      cases p with
      | write w cur =>
        simp only [Unraced, hp]
        intro r hr
        obtain rfl : cur = r := Option.some.inj ((hs i w cur hp).symm.trans hr)
        exact ⟨Or.inr rfl, fun wanted _ => Or.inr rfl⟩
      | _ => simp [Unraced, hp]
  | _ => trivial

end Nanocl.Status.History
