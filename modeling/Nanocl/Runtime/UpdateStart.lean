/-
What an update starts once it is prepared (`utils/container/process.rs::start_instances`).

The new instances are the newest rows of the cargo, so `start_instances` comes to them first. Behind them are the init
container, if its spec gives it the label of the instances, and the old rows, as far as a read returns them.

- `startLoop_ok_iff`: when the loop of the starts gets through its rows, while spawned removals go on.
- `labelled_split`: the rows that are read are those of the new instances and then those of `otherIds`.
- `startInstances_ok_iff`: when the start succeeds.
- `instances_up`: the instances run after it, whether it succeeds or not, if docker lets each of them start.
-/
import Nanocl.Runtime.Configs
import Nanocl.Runtime.StaysUp
import Nanocl.Runtime.Update

namespace Nanocl.Runtime

open Nanocl.Lib

variable {E : Env} {key : String} {w w' : World}

/-! ## The loop -/

theorem takes_startProcess (p : ProcessDb) : Takes 1 (startProcess E p) := takes_throwing _ _ _

/-- the loop gets through its rows if docker lets each container start, and none of them is gone when its turn comes -/
theorem startLoop_ok_iff {l : List ProcessDb} (hl : ∀ p ∈ l, p.key < w.docker.nextId) :
    (Prog.forEach l (startProcess E) w).1 = .ok () ↔
      ∀ i p, l[i]? = some p → E.fate (.startContainer (.id p.key)) = none ∧
        ((drift E w (i + 1)).docker.containers p.key).isSome := by
  induction l generalizing w with
  | nil => simp [Prog.forEach]
  | cons q l ih =>
    have hfirst : (startProcess E q w).1 = .ok () ↔ E.fate (.startContainer (.id q.key)) = none ∧
        ((drift E w 1).docker.containers q.key).isSome := startProcess_ok_iff
    by_cases hok : (startProcess E q w).1 = .ok ()
    · -- the rest of the loop begins where the removals have drifted by one suspension
      have hrun := Prog.eq_of_ok hok
      have hcons : (Prog.forEach (q :: l) (startProcess E) w) = Prog.forEach l (startProcess E) (startProcess E q w).2 :=
        Prog.bind_of_ok hrun
      have hticks := takes_startProcess q w () _ hrun
      have hdrifted : Drifted E w.docker.nextId w (startProcess E q w).2 := steps_drifted.startProcess (by simp [Call.keeping]) w
      have hnext : (startProcess E q w).2.docker.nextId = w.docker.nextId :=
        (steps_quiet.startProcess (E := E) (p := q) (by simp [Call.quiet, Call.keeping]) w).nextId
      rw [hcons]
      generalize (startProcess E q w).2 = w₁ at hticks hdrifted hnext
      have halike (i : ℕ) := (hdrifted.at le_rfl hticks).drift (E := E) i
      rw [ih fun p hp => hnext ▸ hl p (List.mem_cons_of_mem q hp)]
      constructor
      · intro h i p hp
        cases i with
        | zero =>
          obtain rfl : q = p := by simpa using hp
          exact hfirst.1 hok
        | succ i =>
          obtain ⟨hfate, hthere⟩ := h i p hp
          refine ⟨hfate, ?_⟩
          rwa [(halike (i + 1)).containers p.key (hl p (List.mem_of_getElem? hp)), ← drift_add, Nat.add_comm 1] at hthere
      · intro h i p hp
        obtain ⟨hfate, hthere⟩ := h (i + 1) p hp
        refine ⟨hfate, ?_⟩
        rwa [(halike (i + 1)).containers p.key (hl p (List.mem_cons_of_mem q (List.mem_of_getElem? hp))), ← drift_add,
          Nat.add_comm 1]
    · refine iff_of_false (fun h => ?_) fun h => hok (hfirst.2 (h 0 q rfl))
      obtain ⟨_, w₁, hq, -⟩ := Prog.bind_ok h
      exact hok (by rw [hq])

/-- the world in which the loop of the starts runs, and the rows it goes through -/
theorem startInstances_run (kind : ProcessKind) (w : World) :
    startInstances E key kind w = (do
      Prog.forEach ((suspend E w).2.db.labelled key ProcessDb.notInitC) (startProcess E)
      updateActualStatus E key .start
      emit E key kind .start : Io Unit) (suspend E w).2 := by
  unfold startInstances
  rw [Prog.bind_of_ok (readByKindKey_run_label E key ProcessDb.notInitC w)]

/-! ## The rows that are read -/

/-- the suspensions of an update up to the read of the rows to start -/
def startTick (E : Env) (key : String) (cargo : Cargo) (w : World) : ℕ := prepareTicks E key cargo w + 1

/-- the ids that a start comes to behind those of the instances: the init container, if its spec gives it their label, and
the old rows, as far as a read returns them -/
def otherIds (E : Env) (key : String) (cargo : Cargo) (w : World) : List ContainerId :=
  ((if cargo.initLabelled then [w.docker.nextId] else []) ++
    ((drift E w (startTick E key cargo w)).db.labelled key ProcessDb.notInitC).map ProcessDb.key).take
      (100 - cargo.spec.number)

/-- docker lets each of them start, and no old one of them is gone when its turn comes -/
def OthersStart (E : Env) (key : String) (cargo : Cargo) (w : World) : Prop :=
  ∀ i id, (otherIds E key cargo w)[i]? = some id → E.fate (.startContainer (.id id)) = none ∧
    (id < w.docker.nextId →
      ((drift E w (startTick E key cargo w + (cargo.spec.number + i) + 1)).docker.containers id).isSome)

variable {cargo : Cargo} {processes instances : List ProcessDb} {w₀ w₁ : World}

/-- the rows with the label of the instances, from the first id on and below the second -/
structure RowsBetween (key : String) (a b : ContainerId) (w : World) (rows : List ProcessDb) : Prop where
  createdAt : ∀ p ∈ rows, p.createdAt = a
  containers : ∀ p ∈ rows, (w.docker.containers p.key).isSome
  mem_iff : ∀ p, p ∈ rows ↔ p ∈ w.db.processes ∧ (p.hasLabel ProcessDb.notInitC && decide (p.kindKey = key)) = true ∧
    a ≤ p.key ∧ p.key < b

theorem RowsBetween.nil {a b : ContainerId}
    (h : ∀ p ∈ w.db.processes, a ≤ p.key → p.key < b → p.hasLabel ProcessDb.notInitC = false) :
    RowsBetween key a b w [] where
  createdAt _ hp := absurd hp List.not_mem_nil
  containers _ hp := absurd hp List.not_mem_nil
  mem_iff p := by
    refine iff_of_false List.not_mem_nil ?_
    rintro ⟨hp, hlabel, hle, hlt⟩
    simp [h p hp hle hlt] at hlabel

section Prepared

variable (h : Prepared E key w cargo processes instances w₀ w₁)
include h

/-- the old containers and rows at the read are those of the drift -/
theorem Prepared.alike (hp : prepare E key w = (.ok (cargo, processes, instances), w₁)) :
    Alike w.docker.nextId (drift E w (startTick E key cargo w)) (suspend E w₁).2 := by
  have hdrifted : Drifted E w.docker.nextId w w₁ := by
    have hkeeps : Prog.Keeps (Drifted E w.docker.nextId) (prepare E key) :=
      keeps_prepare steps_drifted (fun _ => Call.preparing.keeping) (fun _ => trivial) fun _ _ => trivial
    have := hkeeps w
    rwa [hp] at this
  exact (hdrifted.at le_rfl h.ticks).suspend

/-- the rows that the start finds are those of the instances, and rows of before -/
theorem Prepared.row_cases {p : ProcessDb} (hp : p ∈ (suspend E w₁).2.db.processes) :
    (w₀.docker.nextId ≤ p.key → p ∈ instances) ∧ (p.key < w₀.docker.nextId → p ∈ w₀.db.processes) := by
  rcases h.new.only p ((quiet_suspend w₁).rows.subset hp) with hold | hnew
  · exact ⟨fun hle => absurd (h.before.bound p hold) (Nat.not_lt.2 hle), fun _ => hold⟩
  · exact ⟨fun _ => hnew, fun hlt => absurd (h.le_key hnew) (Nat.not_le.2 hlt)⟩

/-- the row of the init container, where it has the label of the instances -/
theorem Prepared.initRows (hw : Consistent w) :
    ∃ rows : List ProcessDb, rows.map ProcessDb.key = (if cargo.initLabelled then [w.docker.nextId] else []) ∧
      RowsBetween key w.docker.nextId w₀.docker.nextId (suspend E w₁).2 rows := by
  obtain ⟨a, hquiet, hinit⟩ := h.init
  rcases runInit_cases (hw.quiet hquiet).removals hinit with ⟨hc, rfl⟩ | ⟨q, hone, hkey, hlabel, hnumber⟩
  · refine ⟨[], by simp [Cargo.initLabelled, hc], .nil fun p _ hle hlt => ?_⟩
    rw [hquiet.nextId] at hlt
    exact absurd hlt (Nat.not_lt.2 hle)
  · have hqkey : q.key = w.docker.nextId := hone.key.trans hquiet.nextId
    have honly : ∀ p ∈ (suspend E w₁).2.db.processes, w.docker.nextId ≤ p.key → p.key < w₀.docker.nextId → p = q := by
      intro p hp hle hlt
      refine (hone.only p ((h.row_cases hp).2 hlt)).resolve_left fun hmem => ?_
      exact absurd (hw.bound p (hquiet.rows.subset hmem)) (Nat.not_lt.2 hle)
    cases hlabelled : cargo.initLabelled with
    | false =>
      refine ⟨[], rfl, .nil fun p hp hle hlt => ?_⟩
      rw [honly p hp hle hlt, hlabel, hlabelled]
    | true =>
      -- its container and its row are still there
      have hgrows : Grows w.docker.nextId w₀ (suspend E w₁).2 := by
        have := steps_grows.createInstances (E := E) (fun _ hc => hc.preparing.keeping) cargo cargo.spec.number
          (R := Grows w.docker.nextId) w₀
        rw [h.created] at this
        exact IsTrans.trans _ _ _ this (quiet_suspend w₁).grows
      have hremovals : OlderRemovals w.docker.nextId w₀ := hquiet.nextId ▸ hone.removals
      refine ⟨[q], by simp [hqkey], fun p hp => ?_, fun p hp => ?_, fun p => ?_⟩
      · obtain rfl := List.mem_singleton.1 hp
        exact hone.createdAt.trans (congrArg Nat.cast hquiet.nextId)
      · obtain rfl := List.mem_singleton.1 hp
        exact hgrows.containers hremovals p.key hqkey.ge hone.container
      · rw [List.mem_singleton]
        constructor
        · rintro rfl
          refine ⟨hgrows.rows hremovals p hone.row hqkey.ge, ?_, hqkey.ge, ?_⟩
          · simp [hlabel, hlabelled, hkey, hw.cargoes key cargo h.read]
          · rw [hqkey, h.nextId, hnumber]
            exact Nat.lt_succ_self _
        · rintro ⟨hp, -, hle, hlt⟩
          exact honly p hp hle hlt

/-- the rows that the start reads: the new instances, and then the others -/
theorem Prepared.labelled_split (hw : Consistent w) (hp : prepare E key w = (.ok (cargo, processes, instances), w₁))
    (hnumber : cargo.spec.number ≤ 100) :
    ∃ news others, (suspend E w₁).2.db.labelled key ProcessDb.notInitC = news ++ others ∧ news.Perm instances ∧
      others.map ProcessDb.key = otherIds E key cargo w ∧
      ∀ p ∈ others, w.docker.nextId ≤ p.key → ((suspend E w₁).2.docker.containers p.key).isSome := by
  obtain ⟨rows, hkeys, hrows⟩ := h.initRows hw
  have halike := h.alike hp
  have hcases := fun {p} => h.row_cases (p := p)
  have hafter : Consistent (suspend E w₁).2 := h.after.quiet (quiet_suspend w₁)
  have hdrift : Consistent (drift E w (startTick E key cargo w)) := hw.quiet (quiet_drift _)
  have hinstances : ∀ p ∈ instances, p ∈ (suspend E w₁).2.db.processes := fun p hp =>
    (quiet_suspend w₁).grows.rows h.older p (h.new.rows p hp) (h.le_key hp)
  generalize (suspend E w₁).2 = w₂ at hrows halike hcases hafter hinstances ⊢
  -- the rows with the label: those of the instances, of the init container and of before
  let labelled : ProcessDb → Bool := fun p => p.hasLabel ProcessDb.notInitC && decide (p.kindKey = key)
  let isNew : ProcessDb → Bool := fun p => w₀.docker.nextId ≤ p.key
  let isInit : ProcessDb → Bool := fun p => w.docker.nextId ≤ p.key
  have hnodup : w₂.db.processes.Nodup := List.Nodup.of_map _ hafter.nodup
  have hnews : ((w₂.db.processes.filter labelled).filter isNew).Perm instances := by
    have hinst : instances.Nodup := List.Nodup.of_map ProcessDb.key (h.new.keys ▸ List.nodup_range')
    refine (List.perm_ext_iff_of_nodup ((hnodup.filter _).filter _) hinst).2 fun p => ?_
    rw [List.mem_filter, List.mem_filter, decide_eq_true_eq]
    constructor
    · rintro ⟨⟨hp, -⟩, hle⟩
      exact (hcases hp).1 hle
    · intro hp
      obtain ⟨hlabel, hkind⟩ := h.new.labelled p hp
      exact ⟨⟨hinstances p hp, by simp [labelled, hlabel, hkind]⟩, h.le_key hp⟩
  have hinit : (((w₂.db.processes.filter labelled).filter fun p => !isNew p).filter isInit).Perm rows := by
    have hrowsNodup : rows.Nodup := by
      refine List.Nodup.of_map ProcessDb.key ?_
      rw [hkeys]
      split_ifs <;> simp
    refine (List.perm_ext_iff_of_nodup (((hnodup.filter _).filter _).filter _) hrowsNodup).2 fun p => ?_
    rw [hrows.mem_iff p, List.mem_filter, List.mem_filter, List.mem_filter]
    simp only [labelled, isNew, isInit, Bool.not_eq_true', decide_eq_false_iff_not, Nat.not_le, decide_eq_true_eq]
    tauto
  have hle : w.docker.nextId ≤ w₀.docker.nextId := h.nextId ▸ Nat.le_add_right _ _
  have hold : ((w₂.db.processes.filter labelled).filter fun p => !isNew p).filter (fun p => !isInit p) =
      (drift E w (startTick E key cargo w)).db.processes.filter labelled := by
    have hbound : ∀ p ∈ (drift E w (startTick E key cargo w)).db.processes, p.key < w.docker.nextId := fun p hp =>
      (quiet_drift (E := E) (w := w) _).nextId ▸ hdrift.bound p hp
    rw [← List.filter_eq_self.2 fun p hp => decide_eq_true (hbound p hp), ← halike.rows, List.filter_filter,
      List.filter_filter, List.filter_filter]
    refine List.filter_congr fun p _ => ?_
    by_cases hlt : p.key < w.docker.nextId
    · simp [isNew, isInit, hlt, lt_of_lt_of_le hlt hle]
    · simp [isInit, hlt, Nat.not_lt.1 hlt]
  have holdMem : ∀ p ∈ w₂.db.processes, isInit p = false → p ∈ (drift E w (startTick E key cargo w)).db.processes := by
    intro p hp hlt
    have hmem : p ∈ w₂.db.processes.filter fun p => p.key < w.docker.nextId :=
      List.mem_filter.2 ⟨hp, by simpa [isInit] using hlt⟩
    rw [halike.rows] at hmem
    exact (List.mem_filter.1 hmem).1
  have hsplit : w₂.db.labelled key ProcessDb.notInitC =
      ((((w₂.db.processes.filter labelled).filter isNew).insertionSort fun a b => ProcessDb.newer a b = true) ++
        (((((w₂.db.processes.filter labelled).filter fun p => !isNew p).filter isInit).insertionSort
            fun a b => ProcessDb.newer a b = true) ++
          ((drift E w (startTick E key cargo w)).db.processes.filter labelled).insertionSort
            fun a b => ProcessDb.newer a b = true)).take 100 := by
    have hnewest : ∀ p ∈ w₂.db.processes.filter labelled, ∀ q ∈ w₂.db.processes.filter labelled, isNew p = true →
        isNew q = false → q.createdAt < p.createdAt := by
      intro p hp q hq hnew hnot
      have hmem := (hcases (List.mem_of_mem_filter hp)).1 (by simpa [isNew] using hnew)
      have hlast := h.before.earlier q ((hcases (List.mem_of_mem_filter hq)).2 (by simpa [isNew] using hnot))
      rw [h.new.createdAt p hmem]
      exact hlast.trans_le (Int.ofNat_le.2 (h.le_key hmem))
    have hnewer : ∀ p ∈ (w₂.db.processes.filter labelled).filter fun p => !isNew p,
        ∀ q ∈ (w₂.db.processes.filter labelled).filter fun p => !isNew p, isInit p = true → isInit q = false →
          ProcessDb.newer p q = true ∧ ¬ ProcessDb.newer q p = true := by
      intro p hp q hq hinit hnot
      have hlast := hdrift.earlier q (holdMem q (List.mem_of_mem_filter (List.mem_of_mem_filter hq)) hnot)
      rw [(quiet_drift (E := E) (w := w) _).nextId] at hlast
      have hcreated : p.createdAt = w.docker.nextId := by
        refine hrows.createdAt p ((hrows.mem_iff p).2 ?_)
        simp only [List.mem_filter] at hp
        exact ⟨hp.1.1, hp.1.2, by simpa [isInit] using hinit, by simpa [isNew] using hp.2⟩
      simp only [ProcessDb.newer, decide_eq_true_eq]
      omega
    rw [← hold, ← insertionSort_split hnewer]
    exact ProcessDb.newest100_split hnewest
  have hsorted (l : List ProcessDb) : (l.insertionSort fun a b => ProcessDb.newer a b = true).Perm l :=
    List.perm_insertionSort _ l
  have hnewsPerm := (hsorted ((w₂.db.processes.filter labelled).filter isNew)).trans hnews
  have hinitPerm := (hsorted (((w₂.db.processes.filter labelled).filter fun p => !isNew p).filter isInit)).trans hinit
  have holdRows : (drift E w (startTick E key cargo w)).db.labelled key ProcessDb.notInitC =
    (((drift E w (startTick E key cargo w)).db.processes.filter labelled).insertionSort
      fun a b => ProcessDb.newer a b = true).take 100 := rfl
  have holdLt : ∀ p ∈ ((drift E w (startTick E key cargo w)).db.processes.filter labelled).insertionSort
      (fun a b => ProcessDb.newer a b = true), p.key < w.docker.nextId := fun p hp =>
    (quiet_drift (E := E) (w := w) _).nextId ▸ hdrift.bound p (List.mem_of_mem_filter ((hsorted _).mem_iff.1 hp))
  generalize ((w₂.db.processes.filter labelled).filter isNew).insertionSort
    (fun a b => ProcessDb.newer a b = true) = news at hsplit hnewsPerm
  generalize (((w₂.db.processes.filter labelled).filter fun p => !isNew p).filter isInit).insertionSort
    (fun a b => ProcessDb.newer a b = true) = inits at hsplit hinitPerm
  generalize ((drift E w (startTick E key cargo w)).db.processes.filter labelled).insertionSort
    (fun a b => ProcessDb.newer a b = true) = olds at hsplit holdRows holdLt
  have hlength : news.length = cargo.spec.number := hnewsPerm.length_eq.trans h.length
  refine ⟨news, (inits ++ olds).take (100 - cargo.spec.number), ?_, hnewsPerm, ?_, fun p hp hle => ?_⟩
  · rw [hsplit, List.take_append, hlength, List.take_of_length_le (hlength ▸ hnumber)]
  · have hinits : inits.map ProcessDb.key = if cargo.initLabelled then [w.docker.nextId] else [] := by
      have hperm := hinitPerm.map ProcessDb.key
      rw [hkeys] at hperm
      split_ifs at hperm ⊢
      · exact List.perm_singleton.1 hperm
      · exact List.perm_nil.1 hperm
    rw [otherIds, holdRows, List.map_take, List.map_append, hinits, List.take_append, List.take_append, List.map_take,
      List.take_take, Nat.min_eq_left (by omega)]
  · rcases List.mem_append.1 (List.mem_of_mem_take hp) with hp | hp
    · exact hrows.containers p (hinitPerm.mem_iff.1 hp)
    · exact absurd (holdLt p hp) (Nat.not_lt.2 hle)

/-- the loop of the starts gets through the instances if docker lets each of them start -/
theorem Prepared.news_ok {news : List ProcessDb} (hperm : news.Perm instances)
    (hfate : ∀ id ∈ cargo.instanceIds w, E.fate (.startContainer (.id id)) = none) :
    (Prog.forEach news (startProcess E) (suspend E w₁).2).1 = .ok () := by
  have hquiet : Quiet w₁ (suspend E w₁).2 := quiet_suspend w₁
  refine (startLoop_ok_iff fun p hp => ?_).2 fun i p hp => ?_
  · rw [hquiet.nextId]
    exact h.key_lt (hperm.mem_iff.1 hp)
  · have hmem : p ∈ instances := hperm.mem_iff.1 (List.mem_of_getElem? hp)
    have hgrows : Grows w₀.docker.nextId w₁ (drift E (suspend E w₁).2 (i + 1)) :=
      IsTrans.trans _ _ _ hquiet.grows (quiet_drift _).grows
    exact ⟨hfate _ (h.ids ▸ List.mem_map_of_mem hmem),
      hgrows.containers h.older p.key (h.le_key hmem) (h.new.containers p hmem)⟩

/-- the start gets through all the rows it reads if docker lets each instance start, and the others can be started too -/
theorem Prepared.loop_ok_iff (hw : Consistent w) (hp : prepare E key w = (.ok (cargo, processes, instances), w₁))
    (hnumber : cargo.spec.number ≤ 100) :
    (Prog.forEach ((suspend E w₁).2.db.labelled key ProcessDb.notInitC) (startProcess E) (suspend E w₁).2).1 = .ok () ↔
      (∀ id ∈ cargo.instanceIds w, E.fate (.startContainer (.id id)) = none) ∧ OthersStart E key cargo w := by
  obtain ⟨news, others, hrows, hperm, hkeys, hthere⟩ := h.labelled_split hw hp hnumber
  have hlength : news.length = cargo.spec.number := hperm.length_eq.trans h.length
  have hbound : ∀ p ∈ (suspend E w₁).2.db.labelled key ProcessDb.notInitC, p.key < (suspend E w₁).2.docker.nextId :=
    fun p hp => (h.after.quiet (quiet_suspend w₁)).bound p (List.mem_of_mem_filter (ProcessDb.mem_of_mem_newest100 hp))
  have halike (n : ℕ) : ∀ id < w.docker.nextId, ((drift E (suspend E w₁).2 n).docker.containers id).isSome =
      ((drift E w (startTick E key cargo w + n)).docker.containers id).isSome := by
    rw [drift_add]
    exact ((h.alike hp).drift n).containers
  rw [startLoop_ok_iff hbound, hrows]
  constructor
  · intro hall
    refine ⟨fun id hid => ?_, fun i id hi => ?_⟩
    · rw [h.ids] at hid
      obtain ⟨p, hp, rfl⟩ := List.mem_map.1 hid
      obtain ⟨i, hi⟩ := List.mem_iff_getElem?.1 (hperm.mem_iff.2 hp)
      exact (hall i p (by rw [List.getElem?_append_left (List.getElem?_eq_some_iff.1 hi).1, hi])).1
    · rw [← hkeys, List.getElem?_map] at hi
      obtain ⟨p, hp, rfl⟩ := Option.map_eq_some_iff.1 hi
      obtain ⟨hfate, hsome⟩ := hall (cargo.spec.number + i) p (by
        rw [List.getElem?_append_right (by omega), hlength, Nat.add_sub_cancel_left, hp])
      exact ⟨hfate, fun hlt => by rwa [halike _ _ hlt] at hsome⟩
  · rintro ⟨hfates, hothers⟩ i p hi
    by_cases hlt : i < news.length
    · rw [List.getElem?_append_left hlt] at hi
      have hloop := startLoop_ok_iff (E := E) (w := (suspend E w₁).2) (l := news) fun p hp =>
        hbound p (hrows ▸ List.mem_append_left _ hp)
      exact hloop.1 (h.news_ok hperm hfates) i p hi
    · rw [List.getElem?_append_right (Nat.not_lt.1 hlt), hlength] at hi
      obtain ⟨hfate, hsome⟩ := hothers (i - cargo.spec.number) p.key (by rw [← hkeys, List.getElem?_map, hi]; rfl)
      refine ⟨hfate, ?_⟩
      by_cases hold : p.key < w.docker.nextId
      · have hi' : cargo.spec.number + (i - cargo.spec.number) = i := by omega
        rw [halike _ _ hold]
        simpa [hi', Nat.add_assoc] using hsome hold
      · -- the init container is not removed
        have hgrows : Grows w.docker.nextId w (suspend E w₁).2 := by
          have hkeeps : Prog.Keeps (Grows w.docker.nextId) (prepare E key) :=
            keeps_prepare steps_grows (fun _ => Call.preparing.keeping) (fun _ => trivial) fun _ _ => trivial
          have := hkeeps w
          rw [hp] at this
          exact IsTrans.trans _ _ _ this (quiet_suspend w₁).grows
        have hle := Nat.not_lt.1 hold
        exact (quiet_drift _).grows.containers (hgrows.removals hw.removals) p.key hle
          (hthere p (List.mem_of_getElem? hi) hle)

/-- the start succeeds if its loop gets through: the cargo and its status are there -/
theorem Prepared.startInstances_ok_iff (hw : Consistent w)
    (hp : prepare E key w = (.ok (cargo, processes, instances), w₁)) (hnumber : cargo.spec.number ≤ 100) :
    (startInstances E key .cargo w₁).1 = .ok () ↔
      (∀ id ∈ cargo.instanceIds w, E.fate (.startContainer (.id id)) = none) ∧ OthersStart E key cargo w := by
  rw [← h.loop_ok_iff hw hp hnumber, startInstances_run]
  constructor
  · intro hok
    obtain ⟨_, w₂, hloop, -⟩ := Prog.bind_ok hok
    rw [hloop]
  · intro hok
    rw [Prog.bind_of_ok (Prog.eq_of_ok hok)]
    have hprepare : SameObjects w w₁ := by
      have hkeeps : Prog.Keeps SameObjects (prepare E key) :=
        keeps_prepare framed_sameObjects.toSteps (fun _ _ => trivial) (fun _ => trivial) fun _ _ => trivial
      have := hkeeps w
      rwa [hp] at this
    have hloop : SameObjects (suspend E w₁).2 _ := Prog.keeps_forEach (l := (suspend E w₁).2.db.labelled key
      ProcessDb.notInitC) (fun p _ => framed_sameObjects.startProcess (E := E) (p := p) trivial) (suspend E w₁).2
    generalize (Prog.forEach ((suspend E w₁).2.db.labelled key ProcessDb.notInitC) (startProcess E) (suspend E w₁).2).2 =
      w₂ at hloop
    have hsame : SameObjects w w₂ := IsTrans.trans _ _ _ hprepare (IsTrans.trans _ _ _ (sameObjects_suspend w₁) hloop)
    obtain ⟨hstatus, -⟩ := updateActualStatus_ok (E := E) .start (hsame.statuses key h.status)
    rw [Prog.bind_of_ok (Prog.eq_of_ok hstatus)]
    have hupdated : SameObjects w₂ (updateActualStatus E key .start w₂).2 :=
      framed_sameObjects.updateActualStatus _ _ _
    generalize (updateActualStatus E key .start w₂).2 = w₃ at hupdated
    have hread : (suspend E w₃).2.db.readCargo key = some cargo :=
      (IsTrans.trans _ _ _ hsame (IsTrans.trans _ _ _ hupdated (sameObjects_suspend w₃))).readCargo
        (Option.filter_eq_some_iff.2 ⟨h.read, h.status⟩)
    have hrun : readCargo E key w₃ = (.ok cargo, (suspend E w₃).2) := by
      rw [readCargo, readRow_run, hread]
      rfl
    exact congrArg Prod.fst (Prog.bind_of_ok hrun)

/-- **The instances run after the start**, whether it succeeds or not, if docker lets each of them start. -/
theorem Prepared.instances_up (hw : Consistent w) (hp : prepare E key w = (.ok (cargo, processes, instances), w₁))
    (hnumber : cargo.spec.number ≤ 100)
    (hfate : ∀ id ∈ cargo.instanceIds w, E.fate (.startContainer (.id id)) = none) {p : ProcessDb} (hmem : p ∈ instances)
    {c : Container} (hc : w₁.docker.containers p.key = some c) :
    Up (startInstances E key .cargo w₁).2 p.key c.config := by
  have F := steps_staysUp (E := E) (S := Call.unstopping) (b := w₁.docker.nextId)
  have hstart : ∀ q : ProcessDb, Prog.Keeps (StaysUp E Call.unstopping w₁.docker.nextId) (startProcess E q) := fun q =>
    F.startProcess ⟨fun ref heq => (by cases heq), trivial⟩
  -- it has its configuration
  have hconfigured : Configured w₀.docker.nextId w₁ (startInstances E key .cargo w₁).2 :=
    steps_configured.startInstances (fun _ => trivial) w₁
  obtain ⟨c', hc', hconfig⟩ := hconfigured.configs h.older p.key (h.le_key hmem) (h.key_lt hmem) c hc
  -- it was started, and stays up
  obtain ⟨news, others, hrows, hperm, -, -⟩ := h.labelled_split hw hp hnumber
  have hloop := h.news_ok hperm hfate
  have hsuspend : StaysUp E Call.unstopping w₁.docker.nextId w₁ (suspend E w₁).2 := staysUp_suspend w₁
  have hrun : startInstances E key .cargo w₁ = (do
      Prog.forEach others (startProcess E)
      updateActualStatus E key .start
      emit E key .cargo .start : Io Unit) (Prog.forEach news (startProcess E) (suspend E w₁).2).2 := by
    rw [startInstances_run, hrows, Prog.forEach_append, bind_assoc, Prog.bind_of_ok (Prog.eq_of_ok hloop)]
  have hend : StaysUp E Call.unstopping w₁.docker.nextId (Prog.forEach news (startProcess E) (suspend E w₁).2).2
      (startInstances E key .cargo w₁).2 := by
    rw [hrun]
    exact Prog.keeps_bind (Prog.keeps_forEach fun q _ => hstart q) (fun _ =>
      Prog.keeps_bind (F.updateActualStatus _ _) fun _ => F.emitAction _ _ _) _
  obtain ⟨s, hbefore, hok, hafter⟩ := Prog.forEach_ok (fun q _ => hstart q) hloop (hperm.mem_iff.2 hmem)
  obtain ⟨x, hx⟩ := Option.isSome_iff_exists.1 (startProcess_ok_iff.1 hok).2
  have hs : StaysUp E Call.unstopping w₁.docker.nextId w₁ (startProcess E p s).2 :=
    IsTrans.trans _ _ _ hsuspend (IsTrans.trans _ _ _ hbefore (hstart p s))
  have hup := (IsTrans.trans _ _ _ hafter hend : StaysUp _ _ _ _ _).still hs.nextId (h.key_lt hmem)
    (fun name hS => hS _ rfl) (fun r hr => ?_) (startProcess_up hok hx)
  · obtain ⟨y, hy, hrunning, -⟩ := hup
    obtain rfl := Option.some.inj (hy.symm.trans hc')
    exact ⟨y, hy, hrunning, hconfig⟩
  · obtain ⟨r', hr', he⟩ := hs.removals r hr
    exact he ▸ Nat.ne_of_lt ((h.older r' hr').trans_le (h.le_key hmem))

end Prepared

end Nanocl.Runtime
