/-
What the update of a secret does to the cargoes: which of them receive an Updating event.

The handler reads the cargoes whose spec lists the secret, and emits the event for each that it read. The read has no
limit of its own, so it returns the 100 newest, and the handler looks at the status of none of them.

Results:
- `secret_propagated_iff`: every started cargo that lists the secret receives exactly one event, and no stopped, created
  or destroyed cargo receives one, exactly if each started user is among the 100 newest users of a read that succeeds,
  its event can be persisted, and every other user among them that is stopped, created or destroyed has an event that
  cannot be persisted (`Reached`).
- `secret_not_propagated`: a stopped cargo that lists the secret receives the event, and its update starts it.
- `update_starts`: an update task that succeeds leaves its cargo started, whatever was wanted.
-/
import Nanocl.System.EventLoop
import Nanocl.Runtime.Cargo

namespace Nanocl.System

open Nanocl.Lib Nanocl.Listing

/-! ## Property and condition -/

/-- the update of a secret, as the event loop receives it -/
def secretEvent (secret : String) (attributes : List (String × String)) : Event :=
  ⟨.normal, "update", some ⟨some secret, .secret, attributes⟩⟩

/-- the wanted status of a joined row -/
def wantedOf (r : Joined) : ObjPsStatusKind := .fromStr r.2.2.wanted

/-- the user wants the cargo not to run -/
def Unwanted (r : Joined) : Prop := wantedOf r = .stop ∨ wantedOf r = .create ∨ wantedOf r = .destroy

/-- what the tables hold by their primary keys, and by the creation of an object: its spec carries its key -/
structure WellFormed (d : Daemon) : Prop where
  cargoes : (d.cargoes.map (·.key)).Nodup
  specs : (d.specs.map (·.key)).Nodup
  statuses : (d.statuses.map (·.key)).Nodup
  owned : ∀ o ∈ d.cargoes, ∀ s ∈ d.specs, s.key = o.specKey → s.kindKey = o.key

section

variable (E : Env)

/-- how many Updating events of the cargo the event adds -/
def updatingEvents (e : Event) (d : Daemon) (key : String) : ℕ :=
  ((execEvent E e d).2.events.drop d.events.length).count ⟨.normal, .updating, .cargo, key⟩

/-- the update reaches each started user once, and no cargo that is not to run -/
structure Propagated (secret : String) (attributes : List (String × String)) (d : Daemon) : Prop where
  started : ∀ r ∈ d.users secret, wantedOf r = .start → updatingEvents E (secretEvent secret attributes) d r.1.key = 1
  unwanted : ∀ r ∈ cargoTable.rows d.store, Unwanted r →
    updatingEvents E (secretEvent secret attributes) d r.1.key = 0

/-- the event about the cargo can be persisted -/
def Persisted (key : String) : Prop := E.fate (.createEvent .cargo key .updating) = none

instance (key : String) : Decidable (Persisted E key) := by unfold Persisted; infer_instance

/-- every started user is read and announced, and no user that is not to run is -/
structure Reached (secret : String) (d : Daemon) : Prop where
  started : ∀ r ∈ d.users secret, wantedOf r = .start →
    ¬ UsersUnread E d secret ∧ r ∈ d.newestUsers secret ∧ Persisted E r.1.key
  unwanted : ∀ r ∈ d.newestUsers secret, Unwanted r → UsersUnread E d secret ∨ ¬ Persisted E r.1.key

/-! ## The events of an update -/

/-- the tables may change, the events do not -/
def SameEvents (d d' : Daemon) : Prop := d'.events = d.events
instance : IsPreorder Daemon SameEvents where
  refl _ := rfl
  trans _ _ _ h h' := h'.trans h

theorem call_sameEvents (c : DbCall) : Prog.Keeps SameEvents (call E c) := by
  unfold call
  split
  · exact Prog.keeps_pure ()
  · exact Prog.keeps_fail _

theorem updateActualStatus_sameEvents (key : String) (status : ObjPsStatusKind) :
    Prog.Keeps SameEvents (updateActualStatus E key status) := by
  refine Prog.keeps_bind (call_sameEvents E _) fun _ => Prog.keeps_bind Prog.keeps_get fun d => ?_
  refine Prog.keeps_bind ?_ fun st => ?_
  · cases d.status key with
    | none => exact Prog.keeps_fail _
    | some st => exact Prog.keeps_pure st
  · split_ifs
    · exact Prog.keeps_pure ()
    · exact Prog.keeps_bind (call_sameEvents E _) fun _ => fun d => rfl

theorem ignore_returns {m : Io Unit} (h : Ends m) (d : Daemon) : ignore m d = (.ok (), (m d).2) := by
  unfold ignore
  rcases hm : m d with ⟨e | a, d'⟩
  · have hp := h d e (by rw [hm])
    cases e with
    | err message => rfl
    | panic message => cases hp
    | waiting key => cases hp
  · rfl

/-- the event of a cargo, if it can be persisted -/
def announced (key : String) : List Runtime.Emitted :=
  if Persisted E key then [⟨.normal, .updating, .cargo, key⟩] else []

theorem emitNormal_eq (kind : EventActorKind) (key : String) (action : NativeEventAction) (d : Daemon) :
    emitNormal E kind key action d = (.ok (), if E.fate (.createEvent kind key action) = none then
      { d with events := d.events ++ [⟨.normal, action, kind, key⟩] } else d) := by
  unfold emitNormal ignore
  cases hf : E.fate (.createEvent kind key action) with
  | none =>
    rw [Prog.bind_of_ok (call_ok E hf d)]
    rfl
  | some message =>
    rw [Prog.bind_of_error (call_error E hf d)]
    rfl

/-- one round of the loop returns, and announces its cargo -/
theorem updateUser_spec (cargo : Object Unit) (d : Daemon) :
    (updateUser E cargo d).1 = .ok () ∧
      (updateUser E cargo d).2.events = d.events ++ announced E cargo.spec.kindKey := by
  have hstatus := ignore_returns (ends_updateActualStatus E cargo.spec.kindKey .updating) d
  have hev : (updateActualStatus E cargo.spec.kindKey .updating d).2.events = d.events :=
    updateActualStatus_sameEvents E cargo.spec.kindKey .updating d
  unfold updateUser
  rw [Prog.bind_of_ok hstatus, emitNormal_eq]
  refine ⟨rfl, ?_⟩
  by_cases hp : Persisted E cargo.spec.kindKey
  · simp [announced, if_pos hp, if_pos (show E.fate _ = none from hp), hev]
  · simp [announced, if_neg hp, if_neg (show E.fate _ ≠ none from hp), hev]

/-- the whole loop returns, and announces its cargoes in their order -/
theorem updateUsers_spec (cargoes : List (Object Unit)) (d : Daemon) :
    (Prog.forEach cargoes (updateUser E) d).1 = .ok () ∧ (Prog.forEach cargoes (updateUser E) d).2.events =
      d.events ++ (cargoes.map (·.spec.kindKey)).flatMap (announced E) := by
  induction cargoes generalizing d with
  | nil => simp [Prog.forEach]
  | cons cargo cargoes ih =>
    obtain ⟨hok, hev⟩ := updateUser_spec E cargo d
    obtain ⟨hok', hev'⟩ := ih (updateUser E cargo d).2
    rw [Prog.forEach, Prog.bind_of_ok (Prog.eq_of_ok hok)]
    refine ⟨hok', ?_⟩
    rw [hev', hev]
    simp

theorem kindKey_of_transform {r : Joined} {o : Object Unit} (h : transform E.decodeCargo r = .ok o) :
    o.spec.kindKey = r.2.1.kindKey := by
  simp only [transform, SpecDb.tryToSpec] at h
  cases hdec : E.decodeCargo r.2.1.data with
  | none => simp [hdec] at h
  | some u =>
    simp only [hdec, Except.pure_eq_ok, Except.ok_bind, Except.ok.injEq] at h
    rw [← h]

/-- decoding keeps the keys -/
theorem map_kindKey_of_mapM {rows : List Joined} {cargoes : List (Object Unit)}
    (h : rows.mapM (transform E.decodeCargo) = .ok cargoes) :
    cargoes.map (·.spec.kindKey) = rows.map (·.2.1.kindKey) := by
  have h2 := mapM_eq_ok_iff.1 h
  clear h
  induction h2 with
  | nil => rfl
  | cons hr _ ih => rw [List.map_cons, List.map_cons, ih, kindKey_of_transform E hr]

/-- what the update of a secret adds to the events -/
theorem secretEvent_events (secret : String) (attributes : List (String × String)) (d : Daemon) :
    (UsersUnread E d secret → (execEvent E (secretEvent secret attributes) d).2.events = d.events) ∧
    (¬ UsersUnread E d secret → (execEvent E (secretEvent secret attributes) d).2.events =
      d.events ++ ((d.newestUsers secret).map (·.2.1.kindKey)).flatMap (announced E)) := by
  have hexec : execEvent E (secretEvent secret attributes) =
      ((unwrap (readCargoes E secret) >>= fun cargoes =>
        Prog.forEach cargoes (updateUser E) >>= fun _ => pure none) >>= storeTask (taskKey .secret secret)) :=
    rfl
  rw [hexec]
  rcases readCargoes_cases E secret d with ⟨hu, message, hm⟩ | ⟨hu, cargoes, hrows, hok⟩
  · refine ⟨fun _ => ?_, fun h => absurd hu h⟩
    have hpanic : unwrap (readCargoes E secret) d = (.error (.panic message), d) := by simp [unwrap, hm]
    rw [Prog.bind_of_error (Prog.bind_of_error hpanic)]
  · refine ⟨fun h => absurd h hu, fun _ => ?_⟩
    have hread : unwrap (readCargoes E secret) d = (.ok cargoes, d) := by simp [unwrap, hok]
    obtain ⟨hret, hev⟩ := updateUsers_spec E cargoes d
    have hall := (Prog.bind_of_ok (f := fun cargoes => Prog.forEach cargoes (updateUser E) >>= fun _ =>
      (pure none : Io (Option TaskManager.ObjTaskFuture))) hread).trans (Prog.bind_of_ok (Prog.eq_of_ok hret))
    rw [Prog.bind_of_ok hall, ← map_kindKey_of_mapM E hrows]
    exact hev

/-- a key that occurs once selects one row at most -/
theorem filter_key {α β : Type} [DecidableEq β] {f : α → β} {l : List α} (h : (l.map f).Nodup) (k : β) :
    (l.filter fun a => f a = k) = [] ∨ ∃ a, (l.filter fun a => f a = k) = [a] := by
  have hlen : (l.filter fun a => f a = k).length ≤ 1 := by
    have := List.nodup_iff_count_le_one.1 h k
    rwa [List.count, List.countP_map, List.countP_eq_length_filter] at this
  rcases hl : l.filter fun a => f a = k with _ | ⟨a, _ | ⟨b, l'⟩⟩
  · exact Or.inl rfl
  · exact Or.inr ⟨a, rfl⟩
  · rw [hl] at hlen
    simp at hlen

/-- an object is joined once at most -/
theorem innerJoin_keys {specs : List SpecDb} {statuses : List ObjPsStatusDb} (hspecs : (specs.map (·.key)).Nodup)
    (hstatuses : (statuses.map (·.key)).Nodup) (objects : List ObjectDb) :
    ((innerJoin objects specs statuses).map (·.1.key)).Sublist (objects.map (·.key)) := by
  induction objects with
  | nil => exact List.Sublist.refl _
  | cons o objects ih =>
    have hcons : innerJoin (o :: objects) specs statuses = ((specs.filter fun s => s.key = o.specKey).flatMap fun s =>
        (statuses.filter fun st => st.key = o.statusKey).map fun st => (o, s, st)) ++ innerJoin objects specs statuses := rfl
    rw [hcons, List.map_append, List.map_cons, ← List.singleton_append]
    refine List.Sublist.append ?_ ih
    rcases filter_key hspecs o.specKey with hs | ⟨s, hs⟩
    · simp [hs]
    · rcases filter_key hstatuses o.statusKey with ht | ⟨st, ht⟩
      · simp [hs, ht]
      · simp [hs, ht]

theorem rows_keys_nodup {d : Daemon} (h : WellFormed d) : ((cargoTable.rows d.store).map (·.1.key)).Nodup :=
  (innerJoin_keys h.specs h.statuses d.cargoes).nodup h.cargoes

/-- the spec of a joined row carries the key of its cargo -/
theorem kindKey_of_mem_rows {d : Daemon} (h : WellFormed d) {r : Joined} (hr : r ∈ cargoTable.rows d.store) :
    r.2.1.kindKey = r.1.key := by
  obtain ⟨o, ho, hr⟩ := List.mem_flatMap.1 hr
  obtain ⟨s, hs, hr⟩ := List.mem_flatMap.1 hr
  obtain ⟨st, -, rfl⟩ := List.mem_map.1 hr
  obtain ⟨hs, hkey⟩ := List.mem_filter.1 hs
  exact h.owned o ho s hs (of_decide_eq_true hkey)

theorem mem_users {d : Daemon} {secret : String} {r : Joined} :
    r ∈ d.users secret ↔ r ∈ cargoTable.rows d.store ∧ listsSecret secret r.2.1.data = true := by
  simp [Daemon.users]

theorem mem_of_mem_newestUsers {d : Daemon} {secret : String} {r : Joined} (h : r ∈ d.newestUsers secret) :
    r ∈ d.users secret :=
  (List.perm_insertionSort _ _).mem_iff.1 (List.mem_of_mem_take h)

/-- a read returns no cargo twice -/
theorem newestUsers_keys_nodup {d : Daemon} (h : WellFormed d) (secret : String) :
    ((d.newestUsers secret).map (·.1.key)).Nodup := by
  have husers : ((d.users secret).map (·.1.key)).Nodup := (List.filter_sublist.map _).nodup (rows_keys_nodup h)
  refine ((List.take_sublist _ _).map _).nodup ?_
  exact ((List.perm_insertionSort _ _).map _).nodup_iff.2 husers

theorem count_announced {keys : List String} (h : keys.Nodup) (key : String) :
    (keys.flatMap (announced E)).count ⟨.normal, .updating, .cargo, key⟩ =
      if key ∈ keys ∧ Persisted E key then 1 else 0 := by
  induction keys with
  | nil => simp
  | cons k keys ih =>
    obtain ⟨hk, hkeys⟩ := List.nodup_cons.1 h
    rw [List.flatMap_cons, List.count_append, ih hkeys]
    by_cases heq : key = k
    · subst heq
      by_cases hp : Persisted E key
      · simp [announced, hp, hk]
      · simp [announced, hp]
    · have h0 : (announced E k).count ⟨.normal, .updating, .cargo, key⟩ = 0 := by
        refine List.count_eq_zero.2 fun hmem => ?_
        unfold announced at hmem
        split_ifs at hmem
        · simp [heq] at hmem
        · simp at hmem
      simp [h0, heq]

/-- a cargo receives one event if it is read and its event can be persisted, and none otherwise -/
theorem updatingEvents_eq {d : Daemon} (h : WellFormed d) (secret : String) (attributes : List (String × String))
    {r : Joined} (hr : r ∈ cargoTable.rows d.store) :
    updatingEvents E (secretEvent secret attributes) d r.1.key = 1 ∧
        ¬ UsersUnread E d secret ∧ r ∈ d.newestUsers secret ∧ Persisted E r.1.key ∨
      updatingEvents E (secretEvent secret attributes) d r.1.key = 0 ∧
        ¬ (¬ UsersUnread E d secret ∧ r ∈ d.newestUsers secret ∧ Persisted E r.1.key) := by
  obtain ⟨hun, hread⟩ := secretEvent_events E secret attributes d
  by_cases hu : UsersUnread E d secret
  · refine Or.inr ⟨?_, fun hc => hc.1 hu⟩
    simp [updatingEvents, hun hu]
  · have hkeys : (d.newestUsers secret).map (·.2.1.kindKey) = (d.newestUsers secret).map (·.1.key) :=
      List.map_congr_left fun q hq => kindKey_of_mem_rows h (mem_users.1 (mem_of_mem_newestUsers hq)).1
    have hmem : r.1.key ∈ (d.newestUsers secret).map (·.1.key) ↔ r ∈ d.newestUsers secret := by
      refine ⟨fun hk => ?_, List.mem_map_of_mem⟩
      obtain ⟨q, hq, hqr⟩ := List.mem_map.1 hk
      have hqrows := (mem_users.1 (mem_of_mem_newestUsers hq)).1
      exact List.inj_on_of_nodup_map (rows_keys_nodup h) hqrows hr hqr ▸ hq
    have hcount : updatingEvents E (secretEvent secret attributes) d r.1.key =
        if r.1.key ∈ (d.newestUsers secret).map (·.1.key) ∧ Persisted E r.1.key then 1 else 0 := by
      rw [updatingEvents, hread hu, List.drop_left, hkeys, count_announced E (newestUsers_keys_nodup h secret)]
    by_cases hc : r.1.key ∈ (d.newestUsers secret).map (·.1.key) ∧ Persisted E r.1.key
    · exact Or.inl ⟨hcount.trans (if_pos hc), hu, hmem.1 hc.1, hc.2⟩
    · exact Or.inr ⟨hcount.trans (if_neg hc), fun hn => hc ⟨hmem.2 hn.2.1, hn.2.2⟩⟩

/-- **The update of a secret reaches its users exactly if `Reached` holds.** -/
theorem secret_propagated_iff {d : Daemon} (h : WellFormed d) (secret : String) (attributes : List (String × String)) :
    Propagated E secret attributes d ↔ Reached E secret d := by
  constructor
  · intro hp
    refine ⟨fun r hr hw => ?_, fun r hr hw => ?_⟩
    · rcases updatingEvents_eq E h secret attributes (mem_users.1 hr).1 with ⟨-, hc⟩ | ⟨h0, -⟩
      · exact hc
      · rw [hp.started r hr hw] at h0
        cases h0
    · have hrows := (mem_users.1 (mem_of_mem_newestUsers hr)).1
      rcases updatingEvents_eq E h secret attributes hrows with ⟨h1, -⟩ | ⟨-, hc⟩
      · rw [hp.unwanted r hrows hw] at h1
        cases h1
      · by_contra hn
        rw [not_or, not_not] at hn
        exact hc ⟨hn.1, hr, hn.2⟩
  · intro hc
    refine ⟨fun r hr hw => ?_, fun r hr hw => ?_⟩
    · rcases updatingEvents_eq E h secret attributes (mem_users.1 hr).1 with ⟨h1, -⟩ | ⟨-, hn⟩
      · exact h1
      · exact absurd (hc.started r hr hw) hn
    · rcases updatingEvents_eq E h secret attributes hr with ⟨-, hu, hnew, hp⟩ | ⟨h0, -⟩
      · exact absurd hp ((hc.unwanted r hnew hw).resolve_left hu)
      · exact h0

end

/-! ## A stopped cargo that uses the secret -/

def answering : Env := { refusing with fate := fun _ => none }

/-- the cargo `web` lists the secret `tls`; its wanted status is given -/
def oneUser (wanted : String) : Daemon where
  cargoes := [⟨"web.global", 1, "web", 1, "web.global", "global"⟩]
  specs := [⟨1, 1, "Cargo", "web.global", "v0.16", .obj [("Name", .str "web"), ("Secrets", .arr [.str "tls"])], none⟩]
  statuses := [⟨"web.global", 1, wanted, "start", wanted, "start"⟩]
  jobs := []
  processes := []
  events := []
  tasks := []
  deletions := []

theorem wellFormed_oneUser (wanted : String) : WellFormed (oneUser wanted) := by
  constructor <;> simp [oneUser]

theorem secret_propagated_iff_started :
    Propagated answering "tls" [] (oneUser "start") ↔ Reached answering "tls" (oneUser "start") :=
  secret_propagated_iff answering (wellFormed_oneUser "start") "tls" []

/-- the cargo is stopped, and receives the event that updates and starts it -/
theorem secret_not_propagated :
    ¬ ∀ E secret attributes d, WellFormed d → Propagated E secret attributes d := by
  intro h
  have hp := h answering "tls" [] (oneUser "stop") (wellFormed_oneUser "stop")
  have := hp.unwanted (⟨"web.global", 1, "web", 1, "web.global", "global"⟩,
    ⟨1, 1, "Cargo", "web.global", "v0.16", .obj [("Name", .str "web"), ("Secrets", .arr [.str "tls"])], none⟩,
    ⟨"web.global", 1, "stop", "start", "stop", "start"⟩) (by simp [cargoTable, Listing.Table.rows, innerJoin, oneUser, Daemon.store])
    (Or.inl rfl)
  revert this
  decide +kernel

end Nanocl.System

/-! ## The update task -/

namespace Nanocl.Runtime

open Nanocl.Lib

variable (E : Env)

/-- the spawned removals write no status -/
theorem suspend_statuses (w : World) : (suspend E w).2.db.statuses = w.db.statuses := by
  have hfold : ∀ (steps : List RemovalStep) (w : World), (steps.foldl World.removalStep w).db.statuses = w.db.statuses := by
    intro steps
    induction steps with
    | nil => exact fun _ => rfl
    | cons s steps ih =>
      intro w
      rw [List.foldl_cons, ih]
      cases s with
      | remove id =>
        simp only [World.removalStep]
        split_ifs <;> rfl
      | refused id => rfl
      | deleteRow id =>
        simp only [World.removalStep]
        split_ifs <;> rfl
  exact hfold _ w

/-- the actual status of the object is this one -/
def HasActual (key : String) (status : ObjPsStatusKind) (w : World) : Prop :=
  ∃ s, w.db.statuses key = some s ∧ s.actual = status

/-- a write of the actual status that returns has written it -/
theorem updateActualStatus_ensures (key : String) (status : ObjPsStatusKind) :
    Prog.Ensures (HasActual key status) (updateActualStatus E key status) := by
  intro w u h
  obtain ⟨s, w', hread, hok, heq⟩ := Prog.bind_ok h
  have hrow : w'.db.statuses key = some s := by
    have hsusp : suspend E w = (.ok (), (suspend E w).2) := rfl
    unfold readRow readDb at hread
    rw [Prog.bind_of_ok hsusp, Prog.get_bind] at hread
    cases hs : (suspend E w).2.db.statuses key with
    | none => simp [hs] at hread
    | some s' =>
      simp only [hs, Option.elim_some, Prog.run_pure, Prod.mk.injEq, Except.ok.injEq] at hread
      rw [← hread.2, hs, hread.1]
  have heq' : (updateActualStatus E key status w).2 = _ := congrArg Prod.snd heq
  rw [heq']
  by_cases hs : s.actual = status
  · rw [if_pos hs]
    exact ⟨s, hrow, hs⟩
  · rw [if_neg hs]
    exact ⟨{ s with actual := status, prevActual := s.actual }, Function.update_self .., rfl⟩

/-- an update that succeeds leaves its cargo started, whatever was wanted -/
theorem update_starts (key : String) : Prog.Ensures (HasActual key .start) (update E key) := by
  refine Prog.ensures_bind fun cargo => Prog.ensures_bind fun _ => Prog.ensures_bind fun _ => ?_
  refine Prog.ensures_bind fun _ => Prog.ensures_bind fun _ => Prog.ensures_bind fun _ => ?_
  refine Prog.ensures_bind_of_keeps (updateActualStatus_ensures E key .start) fun _ w hw => ?_
  have hemit : (emitNormal E .cargo cargo.key .start w).2.db.statuses = (suspend E w).2.db.statuses := rfl
  unfold HasActual
  rw [hemit, suspend_statuses]
  exact hw

end Nanocl.Runtime
