/-
The deletion of a namespace (`objects/namespace.rs`, `repositories/cargo.rs::delete_by_namespace`).

The request asks for the deletion of each of its cargoes: their status becomes Destroying, an event is sent, and a task
of the event loop will delete the cargo. The request does not wait for it. It deletes the row of the namespace next, which
the database refuses while a cargo or a VM still refers to it. The VMs are not asked.

- `delCargoes_visible`, `delCargoes_returns`: what the deletions of the cargoes leave, and when they all go through.
- `all_or_nothing_iff`: a deletion is all or nothing exactly if it notifies no cargo, or the tasks of all cargoes have
  ended by the time the row of the namespace is deleted and no VM is left.
- `namespace_left_behind`: the namespace of one idle cargo is not deleted, but the cargo is.
-/
import Nanocl.Objects.Cargo
import Nanocl.Store.Process

namespace Nanocl.Objects

open Nanocl.Lib Nanocl.Status

variable {δ : Type} (E : Env δ)

/-- how a request stops: with an error, or by a panic in one of its futures -/
inductive Stop where
  | http (e : HttpError)
  | panic (msg : String)

abbrev StopIo (δ α : Type) := Prog (World δ) Stop α

/-- `?` -/
def up {α : Type} (m : Io δ α) : StopIo δ α := fun w => ((m w).1.mapError .http, (m w).2)

/-! ## The tasks of the event loop -/

/-- the delete tasks that end -/
structure Ended where
  cargoes : List String
  vms : List String

/-- what goes on around a deletion -/
structure Surroundings where
  processes : List ProcessDb
  /-- the delete tasks that end before a call, by its number -/
  ended : ℕ → Ended
  /-- the order in which the futures of the deletions get done -/
  order : List String → List String
  order_perm : ∀ keys, (order keys).Perm keys

/-- the tables without an object, as `clear_by_pk` leaves them -/
def Tables.clear (db : Tables δ) (kind : ObjectKind) (key : String) : Tables δ :=
  { db.setObjects kind ((db.objects kind).delete key) with
    specs := db.specs.deleteWhere fun s => s.kindKey = key
    statuses := db.statuses.delete key }

def clearAll (kind : ObjectKind) (keys : List String) (db : Tables δ) : Tables δ :=
  keys.foldl (fun db key => db.clear kind key) db

/-- the actual status of the key is Destroying -/
def destroying (db : Tables δ) (key : String) : Bool := (db.statuses.find key).any fun row => row.status.actual = .destroying

def destroyingEvent (key : String) : Runtime.Emitted := ⟨.normal, .destroying, .cargo, key⟩

/-- a cargo has a delete task: it was being destroyed when the request began (in `w₀`), or its event was sent since -/
def started (w₀ w : World δ) (key : String) : Bool :=
  destroying w₀.db key || decide (destroyingEvent key ∈ w.events.drop w₀.events.length)

/-- the world once the tasks that end before the next call have ended -/
def settled (S : Surroundings) (w₀ w : World δ) : World δ :=
  { w with
    db := clearAll .vm ((S.ended w.calls).vms.filter (destroying w₀.db))
      (clearAll .cargo ((S.ended w.calls).cargoes.filter (started w₀ w)) w.db) }

/-! ## The request -/

/-- `read_by_namespace`: the cargoes of a namespace, the newest 100 -/
def readCargoesByNamespace (nsp : String) : Io δ (List (Cargo δ)) := do
  let rows ← query E fun db =>
    .ok (newest ((db.cargoes.rows.filter fun row => row.namespaceName = nsp).filterMap fun row => db.joined .cargo row.key))
  ofExcept (rows.mapM (transform (cargoFormat E)))

/-- how many instances of a cargo run, `none` where `count_status` panics; `ProcessDb.readByKindKey_none` says which rows
are read -/
def runningInstances (S : Surroundings) (key : String) : Option ℕ :=
  (countStatus (ProcessDb.newest100 (S.processes.filter fun p => p.kindKey = key))).map fun n => n.2.2.2

/-- `CargoDb::fn_del_obj_by_pk` without `force` -/
def delCargo (S : Surroundings) (pk : String) : StopIo δ (Cargo δ) := do
  let cargo ← up (readCargo E pk)
  up (query E fun _ => .ok ())
  match runningInstances S cargo.spec.cargoKey with
  | none => Prog.fail (.panic "called Option::unwrap() on a None value")
  | some running =>
    if running > 0 then
      Prog.fail (.http (badRequest "Unable to delete cargo with running instances without force option"))
    else do
      let status ← up (readStatus E pk)
      up (updateStatus E pk (destroyStatus status))
      return cargo

/-- `emit_normal_native_action_sync`: an event that cannot be stored is only logged -/
def emitNormal (e : Runtime.Emitted) : World δ → World δ := fun w =>
  match E.fault w.calls with
  | some _ => w.tick
  | none => { w.tick with events := w.events ++ [e] }

/-- `CargoDb::del_obj_by_pk` -/
def delCargoObj (S : Surroundings) (pk : String) : StopIo δ (Cargo δ) := do
  let cargo ← delCargo E S pk
  Prog.modify (emitNormal E (destroyingEvent cargo.spec.cargoKey))
  return cargo

/-- the deletions of `delete_by_namespace`: each is done, whatever the others return -/
def delCargoes (S : Surroundings) (w₀ : World δ) : List String → StopIo δ (List (Except HttpError (Cargo δ)))
  | [] => return []
  | key :: keys => do
    Prog.modify (settled S w₀)
    match ← Prog.attempt (delCargoObj E S key) with
    | .error (.panic msg) => Prog.fail (.panic msg)
    | .error (.http e) => do
      let results ← delCargoes S w₀ keys
      return .error e :: results
    | .ok cargo => do
      let results ← delCargoes S w₀ keys
      return .ok cargo :: results

/-- `NamespaceDb::del_obj_by_pk`; the result of the removal of the network is only logged -/
def delNamespaceObj (S : Surroundings) (pk : String) : StopIo δ Unit := do
  let w₀ ← Prog.get
  let _ ← up (readNamespace E pk)
  let namespace_ ← up (readNamespace E pk)
  let cargoes ← up (readCargoesByNamespace E namespace_.name)
  let results ← delCargoes E S w₀ (S.order (cargoes.map fun cargo => cargo.spec.cargoKey))
  let _ ← up (ofExcept (results.mapM id))
  Prog.modify (settled S w₀)
  up (delNamespace E pk)
  Prog.modify (emitNormal E ⟨.normal, .destroy, .namespace, pk⟩)

/-! ## What is promised -/

/-- the namespace and all that was in it are gone -/
structure Deleted (db : Tables δ) (nsp : String) : Prop where
  namespace_ : db.namespaces.find nsp = none
  cargoes : ∀ row ∈ db.cargoes.rows, row.namespaceName ≠ nsp
  vms : ∀ row ∈ db.vms.rows, row.namespaceName ≠ nsp

/-- no cargo was marked Destroying, and no event was sent -/
structure Untouched (w w' : World δ) : Prop where
  marked : ∀ key, destroying w'.db key → destroying w.db key
  sent : w'.events = w.events

/-- **All or nothing**: the deletion returns and everything is gone, or it fails and has touched no cargo -/
structure AllOrNothing (S : Surroundings) (w : World δ) (pk : String) : Prop where
  all : ∀ u w', delNamespaceObj E S pk w = (.ok u, w') → Deleted w'.db pk
  nothing : ∀ e w', delNamespaceObj E S pk w = (.error e, w') → Untouched w w'

/-! ## When a cargo is notified -/

/-- the deletion of a cargo gets as far as its status: its calls answer, it can be read and no instance runs -/
structure Marks (S : Surroundings) (w : World δ) (key : String) : Prop where
  answers : E.Answers w 4
  idle : ∃ cargo, objectOf (cargoFormat E) w.db key = .ok cargo ∧ runningInstances S cargo.spec.cargoKey = some 0
  status : (w.db.statuses.find key).isSome

/-- the count of the instances of a cargo panics -/
def Panics (S : Surroundings) (w : World δ) (key : String) : Prop :=
  E.Answers w 2 ∧ ∃ cargo, objectOf (cargoFormat E) w.db key = .ok cargo ∧ runningInstances S cargo.spec.cargoKey = none

/-- one of the deletions marks a cargo that was not being destroyed, or sends its event -/
def Noticed (S : Surroundings) (w₀ : World δ) : World δ → List String → Prop
  | _, [] => False
  | w, key :: keys =>
    let w₁ := settled S w₀ w
    (Marks E S w₁ key ∧ (¬ destroying w₀.db key ∨ E.fault (w₁.calls + 4) = none)) ∨
      (¬ Panics E S w₁ key ∧ Noticed S w₀ (delCargoObj E S key w₁).2 keys)

/-- all the deletions get as far as the status -/
def AllMarked (S : Surroundings) (w₀ : World δ) : World δ → List String → Prop
  | _, [] => True
  | w, key :: keys =>
    let w₁ := settled S w₀ w
    Marks E S w₁ key ∧ AllMarked S w₀ (delCargoObj E S key w₁).2 keys

/-- the row of the namespace can be deleted: the call answers, and nothing refers to the namespace -/
structure Emptied (w : World δ) (nsp : String) : Prop where
  answers : E.fault w.calls = none
  cargoes : ∀ row ∈ w.db.cargoes.rows, row.namespaceName ≠ nsp
  vms : ∀ row ∈ w.db.vms.rows, row.namespaceName ≠ nsp

/-- what the request finds: the namespace, and its cargoes -/
structure Found (w : World δ) (nsp : String) (cargoes : List (Cargo δ)) : Prop where
  answers : E.Answers w 3
  namespace_ : (w.db.namespaces.find nsp).isSome
  cargoes : (newest ((w.db.cargoes.rows.filter fun row => row.namespaceName = nsp).filterMap
    fun row => w.db.joined .cargo row.key)).mapM (transform (cargoFormat E)) = .ok cargoes

variable {E} {S : Surroundings}

/-! ## The tasks leave no more than they find -/

theorem clearAll_status (kind : ObjectKind) (keys : List String) (db : Tables δ) (key : String) :
    (clearAll kind keys db).statuses.find key = if key ∈ keys then none else db.statuses.find key := by
  induction keys generalizing db with
  | nil => rfl
  | cons k keys ih =>
    change (clearAll kind keys (db.clear kind k)).statuses.find key = _
    rw [ih, Tables.clear, Table.find_delete]
    by_cases hk : key = k <;> by_cases hks : key ∈ keys <;> simp [hk, hks]

@[simp] theorem settled_calls (w₀ w : World δ) : (settled S w₀ w).calls = w.calls := rfl

@[simp] theorem settled_events (w₀ w : World δ) : (settled S w₀ w).events = w.events := rfl

theorem settled_status (w₀ w : World δ) (key : String) :
    (settled S w₀ w).db.statuses.find key =
      if key ∈ (S.ended w.calls).vms.filter (destroying w₀.db) ∨ key ∈ (S.ended w.calls).cargoes.filter (started w₀ w) then
        none
      else w.db.statuses.find key := by
  rw [settled, clearAll_status, clearAll_status]
  by_cases hv : key ∈ (S.ended w.calls).vms.filter (destroying w₀.db)
  · rw [if_pos hv, if_pos (.inl hv)]
  · rw [if_neg hv]
    by_cases hc : key ∈ (S.ended w.calls).cargoes.filter (started w₀ w)
    · rw [if_pos hc, if_pos (.inr hc)]
    · rw [if_neg hc, if_neg (not_or.2 ⟨hv, hc⟩)]

theorem destroying_of_settled {w₀ w : World δ} {key : String} (h : destroying (settled S w₀ w).db key) :
    destroying w.db key := by
  unfold destroying at h ⊢
  rw [settled_status] at h
  split_ifs at h
  · cases h
  · exact h

/-! ## What can be seen of a deletion -/

/-- an event was sent, or a cargo was marked -/
def Visible (w₀ w : World δ) : Prop :=
  w₀.events.length < w.events.length ∨ ∃ key, destroying w.db key ∧ ¬ destroying w₀.db key

theorem untouched_iff {w₀ w : World δ} (h : ∃ l, w.events = w₀.events ++ l) : Untouched w₀ w ↔ ¬ Visible w₀ w := by
  obtain ⟨l, hl⟩ := h
  constructor
  · rintro ⟨hmarked, hsent⟩ (hlen | ⟨key, hkey, hnot⟩)
    · rw [hsent] at hlen
      exact lt_irrefl _ hlen
    · exact hnot (hmarked key hkey)
  · intro hno
    refine ⟨fun key hkey => ?_, ?_⟩
    · by_contra hnot
      exact hno (.inr ⟨key, hkey, hnot⟩)
    · cases l with
      | nil => rw [hl, List.append_nil]
      | cons e l => exact absurd (.inl (by rw [hl]; simp)) hno

/-- a task that ends hides nothing: it was there before, or its event was sent -/
theorem visible_settled {w₀ w : World δ} : Visible w₀ (settled S w₀ w) ↔ Visible w₀ w := by
  constructor
  · rintro (h | ⟨key, hkey, hnot⟩)
    · exact .inl h
    · exact .inr ⟨key, destroying_of_settled hkey, hnot⟩
  · rintro (h | ⟨key, hkey, hnot⟩)
    · exact .inl h
    · by_cases hsent : destroyingEvent key ∈ w.events.drop w₀.events.length
      · refine .inl ?_
        have hpos : 0 < (w.events.drop w₀.events.length).length := List.length_pos_of_mem hsent
        rw [List.length_drop] at hpos
        rw [settled_events]
        omega
      · refine .inr ⟨key, ?_, hnot⟩
        have hno : ¬ (key ∈ (S.ended w.calls).vms.filter (destroying w₀.db) ∨
            key ∈ (S.ended w.calls).cargoes.filter (started w₀ w)) := by
          simp [started, hnot, hsent]
        unfold destroying at hkey ⊢
        rw [settled_status, if_neg hno]
        exact hkey

/-! ## The deletion of a cargo -/

theorem up_ok {α : Type} {m : Io δ α} {w w' : World δ} {a : α} (h : m w = (.ok a, w')) : up m w = (.ok a, w') := by
  rw [up, h]
  rfl

theorem up_error {α : Type} {m : Io δ α} {w w' : World δ} {e : HttpError} (h : m w = (.error e, w')) :
    up m w = (.error (.http e), w') := by
  rw [up, h]
  rfl

theorem up_bind {α β : Type} (m : Io δ α) (f : α → Io δ β) : up (m >>= f) = up m >>= fun a => up (f a) := by
  funext w
  rcases hm : m w with ⟨e | a, w'⟩
  · rw [Prog.bind_of_error (up_error hm), up, Prog.bind_of_error hm]
    rfl
  · rw [Prog.bind_of_ok (up_ok hm), up, Prog.bind_of_ok hm]
    rfl

/-- the deletion of a cargo marks it, or has changed nothing; it panics where the count of its instances does -/
theorem delCargo_cases (S : Surroundings) (w : World δ) (key : String) :
    (¬ Marks E S w key ∧ ∃ n, (∃ msg, Panics E S w key ∧ delCargo E S key w = (.error (.panic msg), w.after n w.db)) ∨
        ∃ e, ¬ Panics E S w key ∧ delCargo E S key w = (.error (.http e), w.after n w.db)) ∨
      (Marks E S w key ∧ ¬ Panics E S w key ∧ ∃ cargo row, objectOf (cargoFormat E) w.db key = .ok cargo ∧
        w.db.statuses.find key = some row ∧
        delCargo E S key w = (.ok cargo, w.after 4 (withStatus w.db key (destroyStatus row.status)))) := by
  have hreads : Reads E (do
      let cargo ← readCargo E key
      query E fun _ => .ok ()
      return cargo : Io δ (Cargo δ)) 2 fun db => do
        let cargo ← objectOf (cargoFormat E) db key
        let _ ← (Except.ok () : Except HttpError Unit)
        return cargo :=
    reads_bind (reads_readObj _) fun _ => reads_bind (reads_query _) fun _ => reads_pure _
  have hsame : (do
      let cargo ← objectOf (cargoFormat E) w.db key
      let _ ← (Except.ok () : Except HttpError Unit)
      return cargo) = objectOf (cargoFormat E) w.db key := by
    cases objectOf (cargoFormat E) w.db key <;> rfl
  have hrun : delCargo E S key = up (do
      let cargo ← readCargo E key
      query E fun _ => .ok ()
      return cargo) >>= fun cargo => match runningInstances S cargo.spec.cargoKey with
        | none => Prog.fail (.panic "called Option::unwrap() on a None value")
        | some running =>
          if running > 0 then
            Prog.fail (.http (badRequest "Unable to delete cargo with running instances without force option"))
          else up (do
            let status ← readStatus E key
            updateStatus E key (destroyStatus status)
            return cargo) := by
    simp only [up_bind, bind_assoc]
    rfl
  rw [hrun]
  by_cases hfirst : E.Answers w 2 ∧ ∃ cargo, objectOf (cargoFormat E) w.db key = .ok cargo
  · obtain ⟨h2, cargo, hobj⟩ := hfirst
    have hread := up_ok (hreads.ok w cargo h2 (hsame.trans hobj))
    have hcargo : ∀ cargo', objectOf (cargoFormat E) w.db key = .ok cargo' → cargo' = cargo := fun cargo' h =>
      Except.ok.inj (h.symm.trans hobj)
    rw [Prog.bind_of_ok hread]
    cases hrunning : runningInstances S cargo.spec.cargoKey with
    | none =>
      refine .inl ⟨fun hm => ?_, 2, .inl ⟨_, ⟨h2, cargo, hobj, hrunning⟩, rfl⟩⟩
      obtain ⟨cargo', hobj', hidle⟩ := hm.idle
      rw [hcargo cargo' hobj', hrunning] at hidle
      cases hidle
    | some running =>
      have hquiet : ¬ Panics E S w key := by
        rintro ⟨-, cargo', hobj', hnone⟩
        rw [hcargo cargo' hobj', hrunning] at hnone
        cases hnone
      by_cases hpos : running > 0
      · simp only [if_pos hpos]
        refine .inl ⟨fun hm => ?_, 2, .inr ⟨_, hquiet, rfl⟩⟩
        obtain ⟨cargo', hobj', hidle⟩ := hm.idle
        rw [hcargo cargo' hobj', hrunning] at hidle
        obtain rfl := Option.some.inj hidle
        exact lt_irrefl _ hpos
      · simp only [if_neg hpos]
        obtain rfl : running = 0 := Nat.le_zero.1 (Nat.not_lt.1 hpos)
        cases hf2 : E.fault (w.calls + 2) with
        | some e =>
          refine .inl ⟨fun hm => ?_, 3, .inr ⟨e, hquiet, up_error (Prog.bind_of_error ?_)⟩⟩
          · have := hm.answers 2 (by omega)
            rw [hf2] at this
            cases this
          · rw [readStatus, query, call_of_fault (w := w.after 2 w.db) hf2]
            rfl
        | none =>
          cases hst : w.db.statuses.find key with
          | none =>
            refine .inl ⟨fun hm => ?_, 3, .inr ⟨notFound "ObjPsStatusDb", hquiet, up_error (Prog.bind_of_error ?_)⟩⟩
            · have := hm.status
              rw [hst] at this
              cases this
            · rw [readStatus, query_of_answer (w := w.after 2 w.db) hf2, World.after_db, hst]
              rfl
          | some row =>
            have hstatus : readStatus E key (w.after 2 w.db) = (.ok row.status, w.after 3 w.db) := by
              rw [readStatus, query_of_answer (w := w.after 2 w.db) hf2, World.after_db, hst]
              rfl
            cases hf3 : E.fault (w.calls + 3) with
            | some e =>
              refine .inl ⟨fun hm => ?_, 4, .inr ⟨e, hquiet, up_error ((Prog.bind_of_ok hstatus).trans ?_)⟩⟩
              · have := hm.answers 3 (by omega)
                rw [hf3] at this
                cases this
              · refine Prog.bind_of_error ?_
                rw [updateStatus, exec, call_of_fault (w := w.after 3 w.db) hf3]
                rfl
            | none =>
              have hset : setStatus key (destroyStatus row.status) w.db =
                  .ok (withStatus w.db key (destroyStatus row.status)) := by
                simp [setStatus, hst, withStatus]
              have hupdate : updateStatus E key (destroyStatus row.status) (w.after 3 w.db) =
                  (.ok (), w.after 4 (withStatus w.db key (destroyStatus row.status))) := by
                rw [updateStatus, exec_of_ok (w := w.after 3 w.db) hf3 hset, World.after_after]
              refine .inr ⟨⟨?_, ⟨cargo, hobj, hrunning⟩, by simp [hst]⟩, hquiet, cargo, row, hobj, rfl, ?_⟩
              · exact Env.answers_succ.2 ⟨Env.answers_succ.2 ⟨h2, hf2⟩, hf3⟩
              · exact up_ok ((Prog.bind_of_ok hstatus).trans (Prog.bind_of_ok hupdate))
  · have hno : ¬ (E.Answers w 2 ∧ ∃ a, (do
        let cargo ← objectOf (cargoFormat E) w.db key
        let _ ← (Except.ok () : Except HttpError Unit)
        return cargo) = Except.ok a) := by
      rw [hsame]
      exact hfirst
    obtain ⟨e, n, hfail⟩ := hreads.error w hno
    refine .inl ⟨fun hm => hfirst ⟨?_, ?_⟩, n, .inr ⟨e, ?_, Prog.bind_of_error (up_error hfail)⟩⟩
    · exact ((Env.answers_add (m := 2) (n := 2) w.db).1 hm.answers).1
    · obtain ⟨cargo, hobj, -⟩ := hm.idle
      exact ⟨cargo, hobj⟩
    · rintro ⟨h2, cargo, hobj, -⟩
      exact hfirst ⟨h2, cargo, hobj⟩

/-- the world once a cargo is marked and its event is sent or lost -/
def notified (E : Env δ) (w : World δ) (key : String) (cargo : Cargo δ) (row : ObjPsStatusDb) : World δ :=
  emitNormal E (destroyingEvent cargo.spec.cargoKey) (w.after 4 (withStatus w.db key (destroyStatus row.status)))

theorem delCargoObj_cases (S : Surroundings) (w : World δ) (key : String) :
    (¬ Marks E S w key ∧ ∃ n, (∃ msg, Panics E S w key ∧ delCargoObj E S key w = (.error (.panic msg), w.after n w.db)) ∨
        ∃ e, ¬ Panics E S w key ∧ delCargoObj E S key w = (.error (.http e), w.after n w.db)) ∨
      (Marks E S w key ∧ ¬ Panics E S w key ∧ ∃ cargo row, w.db.statuses.find key = some row ∧
        delCargoObj E S key w = (.ok cargo, notified E w key cargo row)) := by
  rcases delCargo_cases (E := E) S w key with ⟨hno, n, ⟨msg, hp, hrun⟩ | ⟨e, hp, hrun⟩⟩ | ⟨hm, hp, cargo, row, -, hrow, hrun⟩
  · exact .inl ⟨hno, n, .inl ⟨msg, hp, Prog.bind_of_error hrun⟩⟩
  · exact .inl ⟨hno, n, .inr ⟨e, hp, Prog.bind_of_error hrun⟩⟩
  · exact .inr ⟨hm, hp, cargo, row, hrow, Prog.bind_of_ok hrun⟩

theorem destroying_withStatus {db : Tables δ} {key : String} {status : ObjPsStatus} (k : String) :
    destroying (withStatus db key (destroyStatus status)) k =
      if k = key then (db.statuses.find k).isSome else destroying db k := by
  unfold destroying
  rw [withStatus_find]
  by_cases hk : k = key
  · rw [if_pos hk]
    cases db.statuses.find k with
    | none => rfl
    | some row =>
      simp only [Option.map_some, if_pos hk, Option.any_some, Option.isSome_some]
      rfl
  · rw [if_neg hk]
    cases db.statuses.find k with
    | none => rfl
    | some row => simp only [Option.map_some, if_neg hk]

theorem emitNormal_events (e : Runtime.Emitted) (w : World δ) :
    (emitNormal E e w).events = if E.fault w.calls = none then w.events ++ [e] else w.events := by
  unfold emitNormal
  cases h : E.fault w.calls with
  | none => rw [if_pos rfl]
  | some e' =>
    rw [if_neg nofun]
    rfl

theorem emitNormal_db (e : Runtime.Emitted) (w : World δ) : (emitNormal E e w).db = w.db := by
  unfold emitNormal
  cases E.fault w.calls <;> rfl

/-- what is seen of one cargo that is marked -/
theorem visible_notified {w₀ w : World δ} {key : String} {cargo : Cargo δ} {row : ObjPsStatusDb}
    (hrow : w.db.statuses.find key = some row) (hlen : w₀.events.length ≤ w.events.length) :
    Visible w₀ (notified E w key cargo row) ↔
      Visible w₀ w ∨ (¬ destroying w₀.db key ∨ E.fault (w.calls + 4) = none) := by
  unfold Visible notified
  rw [emitNormal_events, emitNormal_db, World.after_calls, World.after_db]
  have hmarked : destroying (withStatus w.db key (destroyStatus row.status)) key = true := by
    rw [destroying_withStatus, if_pos rfl, hrow]
    rfl
  by_cases hf : E.fault (w.calls + 4) = none
  · rw [if_pos hf]
    refine iff_of_true (.inl ?_) (.inr (.inr hf))
    rw [List.length_append]
    exact Nat.lt_of_le_of_lt hlen (Nat.lt_succ_self _)
  · rw [if_neg hf]
    simp only [hf, or_false]
    constructor
    · rintro (h | ⟨k, hk, hnot⟩)
      · exact .inl (.inl h)
      · rw [destroying_withStatus] at hk
        by_cases hkey : k = key
        · exact .inr (hkey ▸ hnot)
        · rw [if_neg hkey] at hk
          exact .inl (.inr ⟨k, hk, hnot⟩)
    · rintro ((h | ⟨k, hk, hnot⟩) | hnot)
      · exact .inl h
      · refine .inr ⟨k, ?_, hnot⟩
        rw [destroying_withStatus]
        by_cases hkey : k = key
        · rw [if_pos hkey, hkey, hrow]
          rfl
        · rw [if_neg hkey]
          exact hk
      · exact .inr ⟨key, hmarked, hnot⟩

/-! ## The deletions of all cargoes -/

/-- one step of the loop, by what its first deletion does -/
theorem delCargoes_cons (w₀ w : World δ) (key : String) (keys : List String) :
    delCargoes E S w₀ (key :: keys) w = match delCargoObj E S key (settled S w₀ w) with
      | (.error (.panic msg), w₁) => (.error (.panic msg), w₁)
      | (.error (.http e), w₁) => ((delCargoes E S w₀ keys w₁).1.map (.error e :: ·), (delCargoes E S w₀ keys w₁).2)
      | (.ok cargo, w₁) => ((delCargoes E S w₀ keys w₁).1.map (.ok cargo :: ·), (delCargoes E S w₀ keys w₁).2) := by
  rw [delCargoes, Prog.modify_bind, Prog.bind_of_ok (Prog.run_attempt _ _)]
  rcases delCargoObj E S key (settled S w₀ w) with ⟨(e | msg) | cargo, w₁⟩
  · simp only
    rcases hrest : delCargoes E S w₀ keys w₁ with ⟨r | rs, w₂⟩
    · exact Prog.bind_of_error hrest
    · exact Prog.bind_of_ok hrest
  · rfl
  · simp only
    rcases hrest : delCargoes E S w₀ keys w₁ with ⟨r | rs, w₂⟩
    · exact Prog.bind_of_error hrest
    · exact Prog.bind_of_ok hrest

/-- the events only grow -/
theorem delCargoes_events (w₀ : World δ) (keys : List String) (w : World δ) :
    ∃ l, (delCargoes E S w₀ keys w).2.events = w.events ++ l := by
  induction keys generalizing w with
  | nil => exact ⟨[], (List.append_nil _).symm⟩
  | cons key keys ih =>
    rw [delCargoes_cons]
    rcases delCargoObj_cases (E := E) S (settled S w₀ w) key with ⟨-, n, ⟨msg, -, hrun⟩ | ⟨e, -, hrun⟩⟩ |
      ⟨-, -, cargo, row, -, hrun⟩
    · rw [hrun]
      exact ⟨[], (List.append_nil _).symm⟩
    · rw [hrun]
      exact ih _
    · rw [hrun]
      obtain ⟨l, hl⟩ := ih (notified E (settled S w₀ w) key cargo row)
      rw [hl, notified, emitNormal_events]
      split_ifs
      · exact ⟨destroyingEvent cargo.spec.cargoKey :: l, List.append_assoc ..⟩
      · exact ⟨l, rfl⟩

/-- **What is seen of the deletions**: what was seen before, and that of each cargo that is noticed -/
theorem delCargoes_visible {w₀ : World δ} (keys : List String) (w : World δ) (hlen : w₀.events.length ≤ w.events.length) :
    Visible w₀ (delCargoes E S w₀ keys w).2 ↔ Visible w₀ w ∨ Noticed E S w₀ w keys := by
  induction keys generalizing w with
  | nil => simp [delCargoes, Noticed]
  | cons key keys ih =>
    rw [delCargoes_cons, Noticed]
    set w₁ := settled S w₀ w with hw₁
    rcases delCargoObj_cases (E := E) S w₁ key with ⟨hno, n, ⟨msg, hp, hrun⟩ | ⟨e, hp, hrun⟩⟩ |
      ⟨hm, hp, cargo, row, hrow, hrun⟩
    · rw [hrun]
      simp only [hno, hp, false_and, not_true_eq_false, or_false]
      change Visible w₀ w₁ ↔ Visible w₀ w
      exact visible_settled
    · rw [hrun]
      simp only [hno, hp, false_and, not_false_eq_true, true_and, false_or]
      rw [ih (w₁.after n w₁.db) hlen]
      change Visible w₀ w₁ ∨ _ ↔ Visible w₀ w ∨ _
      exact or_congr_left visible_settled
    · rw [hrun]
      simp only [hm, hp, true_and, not_false_eq_true]
      have hlen' : w₀.events.length ≤ (notified E w₁ key cargo row).events.length := by
        rw [notified, emitNormal_events]
        split_ifs
        · rw [List.length_append]
          exact Nat.le_add_right_of_le hlen
        · exact hlen
      rw [ih _ hlen', visible_notified hrow hlen, or_assoc, hw₁, visible_settled]

/-- **When the deletions all return**: each gets as far as the status -/
theorem delCargoes_returns {w₀ : World δ} (keys : List String) (w : World δ) :
    (∃ results cargoes, (delCargoes E S w₀ keys w).1 = .ok results ∧ results.mapM id = .ok cargoes) ↔
      AllMarked E S w₀ w keys := by
  induction keys generalizing w with
  | nil => exact iff_of_true ⟨[], [], rfl, rfl⟩ trivial
  | cons key keys ih =>
    rw [delCargoes_cons, AllMarked]
    rcases delCargoObj_cases (E := E) S (settled S w₀ w) key with ⟨hno, n, ⟨msg, -, hrun⟩ | ⟨e, -, hrun⟩⟩ |
      ⟨hm, -, cargo, row, -, hrun⟩
    · rw [hrun]
      exact iff_of_false (fun ⟨_, _, h, _⟩ => by cases h) fun h => hno h.1
    · rw [hrun]
      refine iff_of_false ?_ fun h => hno h.1
      rintro ⟨results, cargoes, h, hall⟩
      cases hrest : (delCargoes E S w₀ keys ((settled S w₀ w).after n (settled S w₀ w).db)).1 with
      | error e' =>
        simp only [hrest] at h
        cases h
      | ok rs =>
        simp only [hrest] at h
        obtain rfl := Except.ok.inj h
        cases hall
    · rw [hrun]
      simp only [hm, true_and]
      rw [← ih (notified E (settled S w₀ w) key cargo row)]
      constructor
      · rintro ⟨results, cargoes, h, hall⟩
        cases hrest : (delCargoes E S w₀ keys (notified E (settled S w₀ w) key cargo row)).1 with
        | error e' =>
          rw [hrest] at h
          cases h
        | ok rs =>
          rw [hrest] at h
          obtain rfl := Except.ok.inj h
          obtain ⟨_, bs, -, hbs, -⟩ := List.forall₂_cons_left_iff.1 (mapM_eq_ok_iff.1 hall)
          exact ⟨rs, bs, rfl, mapM_eq_ok_iff.2 hbs⟩
      · rintro ⟨rs, bs, h, hall⟩
        refine ⟨.ok cargo :: rs, cargo :: bs, by rw [h]; rfl, mapM_eq_ok_iff.2 ?_⟩
        exact .cons rfl (mapM_eq_ok_iff.1 hall)

/-! ## The deletion of the namespace -/

/-- the reads of a deletion: the namespace twice, and its cargoes -/
def namespaceReads (E : Env δ) (pk : String) : Io δ (List (Cargo δ)) := do
  let _ ← readNamespace E pk
  let namespace_ ← readNamespace E pk
  readCargoesByNamespace E namespace_.name

/-- what they find -/
def foundCargoes (E : Env δ) (pk : String) (db : Tables δ) : Except HttpError (List (Cargo δ)) := do
  let _ ← orNotFound "NamespaceDb" (db.namespaces.find pk)
  let namespace_ ← orNotFound "NamespaceDb" (db.namespaces.find pk)
  let rows ← (Except.ok (newest ((db.cargoes.rows.filter fun row => row.namespaceName = namespace_.name).filterMap
    fun row => db.joined .cargo row.key)) : Except HttpError _)
  rows.mapM (transform (cargoFormat E))

theorem reads_namespaceReads (pk : String) : Reads E (namespaceReads E pk) 3 (foundCargoes E pk) :=
  reads_bind (reads_query _) fun _ => reads_bind (reads_query _) fun _ => reads_bind (reads_query _) fun _ => reads_ofExcept _

theorem found_iff {w : World δ} {pk : String} {cargoes : List (Cargo δ)} :
    Found E w pk cargoes ↔ E.Answers w 3 ∧ foundCargoes E pk w.db = .ok cargoes := by
  unfold foundCargoes
  cases hnsp : w.db.namespaces.find pk with
  | none =>
    refine iff_of_false (fun h => ?_) (fun h => ?_)
    · have := h.namespace_
      rw [hnsp] at this
      cases this
    · cases h.2
  | some row =>
    have hname : row.name = pk := Table.key_of_find hnsp
    constructor
    · intro h
      refine ⟨h.answers, ?_⟩
      rw [← h.cargoes, ← hname]
      rfl
    · rintro ⟨hans, h⟩
      refine ⟨hans, by simp [hnsp], ?_⟩
      rw [← h, ← hname]
      rfl

/-- the row of a namespace is deleted if the call answers and nothing refers to it -/
theorem delNamespace_cases (w : World δ) (nsp : String) :
    (¬ Emptied E w nsp ∧ ∃ e, delNamespace E nsp w = (.error e, w.tick)) ∨
      (Emptied E w nsp ∧ delNamespace E nsp w = (.ok (), w.after 1 { w.db with namespaces := w.db.namespaces.delete nsp })) := by
  cases hf : E.fault w.calls with
  | some e =>
    refine .inl ⟨fun h => ?_, e, by rw [delNamespace, exec, call_of_fault hf]⟩
    have := h.answers
    rw [hf] at this
    cases this
  | none =>
    by_cases href : (w.db.cargoes.rows.any (·.namespaceName = nsp) || w.db.vms.rows.any (·.namespaceName = nsp)) = true
    · refine .inl ⟨fun h => ?_, _, exec_of_error hf (if_pos href)⟩
      rcases Bool.or_eq_true_iff.1 href with hc | hv
      · obtain ⟨row, hrow, hnsp⟩ := List.any_eq_true.1 hc
        exact h.cargoes row hrow (of_decide_eq_true hnsp)
      · obtain ⟨row, hrow, hnsp⟩ := List.any_eq_true.1 hv
        exact h.vms row hrow (of_decide_eq_true hnsp)
    · refine .inr ⟨⟨hf, fun row hrow hnsp => href ?_, fun row hrow hnsp => href ?_⟩, exec_of_ok hf (if_neg href)⟩
      · exact Bool.or_eq_true_iff.2 (.inl (List.any_eq_true.2 ⟨row, hrow, decide_eq_true hnsp⟩))
      · exact Bool.or_eq_true_iff.2 (.inr (List.any_eq_true.2 ⟨row, hrow, decide_eq_true hnsp⟩))

/-- the request after its reads -/
def delNamespaceRest (E : Env δ) (S : Surroundings) (w₀ : World δ) (pk : String) (keys : List String) : StopIo δ Unit := do
  let results ← delCargoes E S w₀ keys
  let _ ← up (ofExcept (results.mapM id))
  Prog.modify (settled S w₀)
  up (delNamespace E pk)
  Prog.modify (emitNormal E ⟨.normal, .destroy, .namespace, pk⟩)

theorem delNamespaceObj_eq (w : World δ) (pk : String) :
    delNamespaceObj E S pk w = (up (namespaceReads E pk) >>= fun cargoes =>
      delNamespaceRest E S w pk (S.order (cargoes.map fun cargo => cargo.spec.cargoKey))) w := by
  simp only [namespaceReads, up_bind, bind_assoc]
  rfl

/-- the ends of the request after its reads: the deletion of a cargo or of the row fails, or all goes well -/
theorem delNamespaceRest_cases (w₀ w : World δ) (pk : String) (keys : List String) :
    let w₁ := (delCargoes E S w₀ keys w).2
    (¬ (AllMarked E S w₀ w keys ∧ Emptied E (settled S w₀ w₁) pk) ∧
        ∃ e w₂, delNamespaceRest E S w₀ pk keys w = (.error e, w₂) ∧ w₂.events = w₁.events ∧
          (Visible w₀ w₂ ↔ Visible w₀ w₁)) ∨
      (AllMarked E S w₀ w keys ∧ Emptied E (settled S w₀ w₁) pk ∧
        ∃ w₂, delNamespaceRest E S w₀ pk keys w = (.ok (), w₂) ∧ Deleted w₂.db pk) := by
  have hreturns : _ ↔ AllMarked E S w₀ w keys := delCargoes_returns keys w
  rcases hrun : delCargoes E S w₀ keys w with ⟨stop | results, w₁⟩
  · rw [hrun] at hreturns
    refine .inl ⟨fun h => ?_, stop, w₁, Prog.bind_of_error hrun, rfl, Iff.rfl⟩
    obtain ⟨_, _, h', -⟩ := hreturns.2 h.1
    cases h'
  · rw [hrun] at hreturns
    have hrest : delNamespaceRest E S w₀ pk keys w = _ := Prog.bind_of_ok hrun
    rw [hrest]
    cases hall : results.mapM id with
    | error e =>
      refine .inl ⟨fun h => ?_, .http e, w₁, Prog.bind_of_error (up_error rfl), rfl, Iff.rfl⟩
      obtain ⟨_, _, h', hall'⟩ := hreturns.2 h.1
      obtain rfl := Except.ok.inj h'
      rw [hall] at hall'
      cases hall'
    | ok cargoes =>
      have hmarked : AllMarked E S w₀ w keys := hreturns.1 ⟨results, cargoes, rfl, hall⟩
      have hresults : up (ofExcept (δ := δ) (.ok cargoes)) w₁ = (.ok cargoes, w₁) := rfl
      rw [Prog.bind_of_ok hresults, Prog.modify_bind]
      rcases delNamespace_cases (E := E) (settled S w₀ w₁) pk with ⟨hno, e, hfail⟩ | ⟨hempty, hdone⟩
      · refine .inl ⟨fun h => hno h.2, .http e, _, Prog.bind_of_error (up_error hfail), rfl, ?_⟩
        exact (visible_settled : Visible w₀ (settled S w₀ w₁) ↔ Visible w₀ w₁)
      · refine .inr ⟨hmarked, hempty, _, Prog.bind_of_ok (up_ok hdone), ?_⟩
        rw [emitNormal_db]
        refine ⟨?_, hempty.cargoes, hempty.vms⟩
        change ((settled S w₀ w₁).db.namespaces.delete pk).find pk = none
        rw [Table.find_delete, if_pos rfl]

/-- **A deletion is all or nothing exactly if no cargo is noticed, or everything goes through**: each of the deletions
gets as far as the status, and by the time the row of the namespace is deleted the tasks have removed its cargoes, there
is no VM in it and the call answers. -/
theorem all_or_nothing_iff (E : Env δ) (S : Surroundings) (w : World δ) (pk : String) :
    AllOrNothing E S w pk ↔ ∀ cargoes, Found E w pk cargoes →
      let keys := S.order (cargoes.map fun cargo => cargo.spec.cargoKey)
      let w₃ := w.after 3 w.db
      Noticed E S w w₃ keys →
        AllMarked E S w w₃ keys ∧ Emptied E (settled S w (delCargoes E S w keys w₃).2) pk := by
  by_cases hfound : E.Answers w 3 ∧ ∃ cargoes, foundCargoes E pk w.db = .ok cargoes
  · obtain ⟨hans, cargoes, hcargoes⟩ := hfound
    set keys := S.order (cargoes.map fun cargo => cargo.spec.cargoKey) with hkeys
    have hrun : delNamespaceObj E S pk w = delNamespaceRest E S w pk keys (w.after 3 w.db) := by
      rw [delNamespaceObj_eq]
      exact Prog.bind_of_ok (up_ok ((reads_namespaceReads pk).ok w cargoes hans hcargoes))
    have honly : ∀ cargoes', Found E w pk cargoes' → cargoes' = cargoes := fun cargoes' h =>
      Except.ok.inj ((found_iff.1 h).2.symm.trans hcargoes)
    have hvisible : Visible w (delCargoes E S w keys (w.after 3 w.db)).2 ↔ Noticed E S w (w.after 3 w.db) keys := by
      rw [delCargoes_visible keys (w.after 3 w.db) (le_refl w.events.length)]
      refine or_iff_right ?_
      rintro (h | ⟨key, hkey, hnot⟩)
      · exact lt_irrefl _ h
      · exact hnot hkey
    obtain ⟨l, hl⟩ := delCargoes_events (E := E) (S := S) w keys (w.after 3 w.db)
    rcases delNamespaceRest_cases (E := E) (S := S) w (w.after 3 w.db) pk keys with
      ⟨hno, e, w₂, hrest, hevents, hsame⟩ | ⟨hmarked, hempty, w₂, hrest, hdeleted⟩
    · have huntouched : Untouched w w₂ ↔ ¬ Noticed E S w (w.after 3 w.db) keys := by
        have hgrown : ∃ l, w₂.events = w.events ++ l := ⟨l, hevents.trans hl⟩
        rw [untouched_iff hgrown, hsame, hvisible]
      constructor
      · intro h cargoes' hf keys' w₃ hnoticed
        obtain rfl := honly cargoes' hf
        exact absurd hnoticed (huntouched.1 (h.nothing e w₂ (hrun.trans hrest)))
      · intro h
        refine ⟨fun u w' h' => ?_, fun e' w' h' => ?_⟩
        · cases (Prod.mk.inj ((hrun.trans hrest).symm.trans h')).1
        · obtain ⟨-, rfl⟩ := Prod.mk.inj ((hrun.trans hrest).symm.trans h')
          exact huntouched.2 fun hnoticed => hno (h cargoes (found_iff.2 ⟨hans, hcargoes⟩) hnoticed)
    · constructor
      · intro _ cargoes' hf keys' w₃ _
        obtain rfl := honly cargoes' hf
        exact ⟨hmarked, hempty⟩
      · intro _
        refine ⟨fun u w' h' => ?_, fun e' w' h' => ?_⟩
        · obtain ⟨-, rfl⟩ := Prod.mk.inj ((hrun.trans hrest).symm.trans h')
          exact hdeleted
        · cases (Prod.mk.inj ((hrun.trans hrest).symm.trans h')).1
  · obtain ⟨e, n, hfail⟩ := (reads_namespaceReads pk).error w hfound
    have hrun : delNamespaceObj E S pk w = (.error (.http e), w.after n w.db) := by
      rw [delNamespaceObj_eq]
      exact Prog.bind_of_error (up_error hfail)
    refine iff_of_true ⟨fun u w' h' => ?_, fun e' w' h' => ?_⟩ fun cargoes hf => ?_
    · cases (Prod.mk.inj (hrun.symm.trans h')).1
    · obtain ⟨-, rfl⟩ := Prod.mk.inj (hrun.symm.trans h')
      exact ⟨fun _ h => h, rfl⟩
    · obtain ⟨hans, hcargoes⟩ := found_iff.1 hf
      exact absurd ⟨hans, cargoes, hcargoes⟩ hfound

/-- nothing runs, and no task ends -/
def Surroundings.quiet : Surroundings := ⟨[], fun _ => ⟨[], []⟩, id, fun _ => .refl _⟩

/-- the namespace `global` of the idle cargo `web` stays, and the cargo is being destroyed -/
theorem namespace_left_behind : ¬ AllOrNothing Env.plain Surroundings.quiet webWorld "global" := by
  intro h
  have hfails : ∃ e w', delNamespaceObj Env.plain Surroundings.quiet "global" webWorld = (.error e, w') := by
    rcases hrun : delNamespaceObj Env.plain Surroundings.quiet "global" webWorld with ⟨e | u, w'⟩
    · exact ⟨e, w', rfl⟩
    · have hleft := (h.all u w' hrun).cargoes
      have hrow : ∃ row ∈ (delNamespaceObj Env.plain Surroundings.quiet "global" webWorld).2.db.cargoes.rows,
          row.namespaceName = "global" := by decide
      rw [hrun] at hrow
      obtain ⟨row, hrow, hnsp⟩ := hrow
      exact absurd hnsp (hleft row hrow)
  obtain ⟨e, w', hrun⟩ := hfails
  have hsent := (h.nothing e w' hrun).sent
  have hevents : (delNamespaceObj Env.plain Surroundings.quiet "global" webWorld).2.events = [destroyingEvent "web.global"] := by
    decide
  rw [hrun] at hevents
  rw [hevents] at hsent
  revert hsent
  decide

end Nanocl.Objects
