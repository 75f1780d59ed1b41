/-
Whether what a restart leaves depends on the order in which docker lists the containers, and whether it keeps what the
user wanted.

The first container that the pass meets of a cargo decides its spec and its status. A status is only written for the
states running, restarting, dead and exited, and then always with `wanted = start`.

Results:
- `order_independent_iff`: every order of a set of containers leaves the same specs and statuses, and no stored cargo gets
  another wanted status, exactly if the containers of one cargo have the same configuration and the same effect on its
  status, those that write a status find `wanted = start`, and, where some container ends the pass, none has an effect.
- `intent_lost`: a cargo that the user stopped, with its container exited: a restart makes it wanted again.
-/
import Nanocl.System.SyncSpecs

namespace Nanocl.Sync

open Nanocl.Lib Nanocl.Status

section

variable {κ η ν : Type} [DecidableEq κ] [DecidableEq η] [DecidableEq ν] [Inhabited κ]

/-! ## Property and condition -/

/-- the specs and the statuses -/
abbrev View (κ η ν : Type) := Option (CargoDb κ η ν) × Option ObjPsStatus

def Store.view (s : Store κ η ν) (key : String) : View κ η ν := (s.cargoes key, s.statuses key)

/-- every order leaves the same specs and statuses, and every stored cargo its wanted status -/
structure OrderIndependent (E : Env κ η) (s : Store κ η ν) (l : List ContainerSummary) : Prop where
  same : ∀ l₁ l₂ : List ContainerSummary, l₁.Perm l → l₂.Perm l → (step s (E, l₁)).view = (step s (E, l₂)).view
  wanted : ∀ l₁ : List ContainerSummary, l₁.Perm l → ∀ key status, (s.cargoes key).isSome → s.statuses key = some status →
    ∃ status', (step s (E, l₁)).statuses key = some status' ∧ status'.wanted = status.wanted

/-- the container decides the cargo of the key wherever the pass meets it before the others of that cargo -/
structure Decides (E : Env κ η) (s : Store κ η ν) (l : List ContainerSummary) (key : String)
    (container : ContainerInspectResponse κ η) (c : ContainerSummary) : Prop where
  mem : c ∈ l
  syncable : syncable E s c = true
  subject : subject c = some key
  inspect : E.inspect (c.id.getD "") = .ok container

/-- the status row a container of the key meets: the stored one, or the one of a new cargo -/
def Store.row (s : Store κ η ν) (key : String) : ObjPsStatus := (s.statuses key).getD created

/-- the state of the container leaves the row as it is -/
def LeavesStatus (row : ObjPsStatus) (container : ContainerInspectResponse κ η) : Prop :=
  ∀ new ∈ container.status.bind syncStatus, row.wanted = .start ∧ row.actual = new

/-- the states of two containers do the same to the row -/
def SameStatus (row : ObjPsStatus) (a b : ContainerInspectResponse κ η) : Prop :=
  a.status.bind syncStatus = b.status.bind syncStatus ∨ (LeavesStatus row a ∧ LeavesStatus row b)

structure Uniform (E : Env κ η) (s : Store κ η ν) (l : List ContainerSummary) : Prop where
  /-- the containers of one cargo agree -/
  alike : ∀ key a b c d, Decides E s l key a c → Decides E s l key b d →
    configOf (ν := ν) a = configOf b ∧ SameStatus (s.row key) a b
  /-- a container in one of the four states belongs to a cargo that is wanted -/
  wanted : ∀ key a c, Decides E s l key a c → (s.cargoes key).isSome → (a.status.bind syncStatus).isSome →
    (s.row key).wanted = .start
  /-- where a container ends the pass, the others change nothing -/
  failing : (∃ c ∈ l, syncable E s c = false) → ∀ key a c, Decides E s l key a c →
    (∃ cargo, s.cargoes key = some cargo ∧ cargo.spec.data.container = configOf a) ∧ LeavesStatus (s.row key) a

/-! ## Statuses -/

omit [DecidableEq κ] [DecidableEq η] [Inhabited κ] in
theorem applyStatus_eq (a : ContainerInspectResponse κ η) (row : ObjPsStatus) :
    applyStatus a row = match a.status.bind syncStatus with
      | none => row
      | some new => { row with wanted := .start, actual := new } := by
  unfold applyStatus syncCargoStatus
  cases a.status.bind syncStatus <;> rfl

omit [DecidableEq κ] [DecidableEq η] [Inhabited κ] in
theorem applyStatus_eq_self_iff (a : ContainerInspectResponse κ η) (row : ObjPsStatus) :
    applyStatus a row = row ↔ LeavesStatus row a := by
  rw [applyStatus_eq]
  unfold LeavesStatus
  cases a.status.bind syncStatus with
  | none => simp
  | some new =>
    obtain ⟨wanted, prevWanted, actual, prevActual⟩ := row
    simp [eq_comm]

omit [DecidableEq κ] [DecidableEq η] [Inhabited κ] in
theorem applyStatus_eq_iff (a b : ContainerInspectResponse κ η) (row : ObjPsStatus) :
    applyStatus a row = applyStatus b row ↔ SameStatus row a b := by
  have hself : ∀ c : ContainerInspectResponse κ η, LeavesStatus row c ↔ applyStatus c row = row := fun c =>
    (applyStatus_eq_self_iff c row).symm
  unfold SameStatus
  rw [hself a, hself b, applyStatus_eq, applyStatus_eq]
  cases a.status.bind syncStatus with
  | none =>
    cases b.status.bind syncStatus with
    | none => simp
    | some new => simp [eq_comm]
  | some new =>
    cases b.status.bind syncStatus with
    | none => simp
    | some new' =>
      obtain ⟨wanted, prevWanted, actual, prevActual⟩ := row
      simp only [Nanocl.Runtime.ObjPsStatus.mk.injEq, Option.some.injEq, true_and, and_true]
      constructor
      · exact fun h => Or.inl h
      · rintro (h | ⟨⟨-, h⟩, -, h'⟩)
        · exact h
        · exact h.trans h'.symm

/-! ## Views -/

/-- a container on the view of its cargo -/
def actView (E : Env κ η) (c : ContainerSummary) (x : View κ η ν) : View κ η ν :=
  ((act E c ⟨x.1, x.2, []⟩).cargo, (act E c ⟨x.1, x.2, []⟩).status)

theorem decide_view (E : Env κ η) (name nsp : String) (a : ContainerInspectResponse κ η) (e : Entry κ η ν) :
    ((decide_ E name nsp a e).cargo, (decide_ E name nsp a e).status) =
      ((decide_ E name nsp a ⟨e.cargo, e.status, []⟩).cargo, (decide_ E name nsp a ⟨e.cargo, e.status, []⟩).status) := by
  unfold decide_
  cases e.cargo with
  | none => rfl
  | some cargo =>
    simp only []
    split_ifs <;> rfl

theorem act_view (E : Env κ η) (c : ContainerSummary) (e : Entry κ η ν) :
    ((act E c e).cargo, (act E c e).status) = actView E c (e.cargo, e.status) := by
  unfold actView act
  split
  · split
    · exact decide_view E _ _ _ e
    · rfl
  · rfl

/-- what a pass leaves of the specs and the statuses -/
theorem step_view (E : Env κ η) (s : Store κ η ν) (l : List ContainerSummary) :
    (step s (E, l)).view = applyFirsts subject (actView E) (l.takeWhile (syncable E s)) s.view := by
  funext k
  obtain ⟨hc, hst, -⟩ := syncProcesses_eq E l s k
  have hmap := applyFirsts_map subject (act E) (fun e : Entry κ η ν => (e.cargo, e.status)) (actView E) (act_view E)
    (l.takeWhile (syncable E s)) s.entry k
  exact (Prod.ext hc hst).trans hmap

/-- a container that decides finds the row of the stored cargo, or of one that can be created -/
theorem Decides.view {E : Env κ η} {s : Store κ η ν} {l : List ContainerSummary} {key : String}
    {a : ContainerInspectResponse κ η} {c : ContainerSummary} (h : Decides E s l key a c) :
    ∃ name nsp, splitKey key = some (name, nsp) ∧
      ((∃ cargo, s.cargoes key = some cargo ∧ actView E c (s.view key) =
          (if cargo.spec.data.container = configOf a then some cargo
            else some { cargo with name := name, spec := ⟨E.version, specOf name a⟩ }, some (applyStatus a (s.row key)))) ∨
        (s.cargoes key = none ∧ actView E c (s.view key) =
          (some ⟨name, nsp, ⟨E.version, specOf name a⟩⟩, some (applyStatus a (s.row key))))) := by
  obtain ⟨hkey, hsplit⟩ := subject_eq_some.1 h.subject
  obtain ⟨⟨name, nsp⟩, hsplit⟩ := Option.isSome_iff_exists.1 hsplit
  refine ⟨name, nsp, hsplit, ?_⟩
  have hact : ∀ e : Entry κ η ν, act E c e = decide_ E name nsp a e := fun e => by
    simp [act, h.subject, h.inspect, hsplit]
  cases hc : s.cargoes key with
  | some cargo =>
    obtain ⟨status, hst⟩ := Option.isSome_iff_exists.1 (s.status_of_cargo key (by rw [hc]; rfl))
    refine Or.inl ⟨cargo, rfl, ?_⟩
    unfold actView
    rw [hact]
    by_cases hcfg : cargo.spec.data.container = configOf a
    · simp [decide_, Store.view, Store.row, hc, hst, hcfg]
    · simp [decide_, Store.view, Store.row, hc, hst, hcfg]
  | none =>
    -- the pass got past it, so the cargo can be created: there is no status row yet
    have hst : s.statuses key = none := by
      have hok := h.syncable
      simp only [Sync.syncable, hkey, h.inspect, h.subject, settled, Store.creatable, hc, Option.isSome_none, Bool.false_or,
        Bool.and_eq_true] at hok
      exact Option.isNone_iff_eq_none.1 hok.2.2
    refine Or.inr ⟨rfl, ?_⟩
    unfold actView
    rw [hact]
    simp [decide_, Store.view, Store.row, hc, hst]

/-! ## The condition is exact -/

omit [DecidableEq κ] [DecidableEq η] [DecidableEq ν] [Inhabited κ] in
/-- the containers that decide are the ones the pass gets past -/
theorem decides_of_filter {E : Env κ η} {s : Store κ η ν} {l : List ContainerSummary} {key : String}
    {c : ContainerSummary} (hc : c ∈ l.filter (Sync.syncable E s)) (hkey : subject c = some key) :
    ∃ a, Decides E s l key a c := by
  obtain ⟨hmem, hok⟩ := List.mem_filter.1 hc
  have hproc := (subject_eq_some.1 hkey).1
  cases hin : E.inspect (c.id.getD "") with
  | error message => simp [syncable, hproc, hin] at hok
  | ok a => exact ⟨a, hmem, hok, hkey, hin⟩

omit [DecidableEq κ] [DecidableEq η] [DecidableEq ν] [Inhabited κ] in
theorem Decides.mem_filter {E : Env κ η} {s : Store κ η ν} {l : List ContainerSummary} {key : String}
    {a : ContainerInspectResponse κ η} {c : ContainerSummary} (h : Decides E s l key a c) :
    c ∈ l.filter (Sync.syncable E s) := List.mem_filter.2 ⟨h.mem, h.syncable⟩

/-- two containers that decide a cargo act alike on it exactly if they agree -/
theorem Decides.act_eq_iff {E : Env κ η} {s : Store κ η ν} {l : List ContainerSummary} {key : String}
    {a b : ContainerInspectResponse κ η} {c d : ContainerSummary} (ha : Decides E s l key a c)
    (hb : Decides E s l key b d) :
    actView E c (s.view key) = actView E d (s.view key) ↔
      configOf (ν := ν) a = configOf b ∧ SameStatus (s.row key) a b := by
  rw [← applyStatus_eq_iff]
  obtain ⟨name, nsp, hsplit, hviewa⟩ := ha.view
  obtain ⟨name', nsp', hsplit', hviewb⟩ := hb.view
  obtain ⟨rfl, rfl⟩ := Prod.mk.inj (Option.some.inj (hsplit.symm.trans hsplit'))
  rcases hviewa with ⟨cargo, hcargo, hviewa⟩ | ⟨hnone, hviewa⟩
  · rcases hviewb with ⟨cargo', hcargo', hviewb⟩ | ⟨hnone, -⟩
    · obtain rfl := Option.some.inj (hcargo.symm.trans hcargo')
      rw [hviewa, hviewb]
      by_cases hca : cargo.spec.data.container = configOf a
      · rw [if_pos hca, hca]
        by_cases hcb : configOf (ν := ν) a = configOf b
        · simp [hcb]
        · -- one container leaves the spec, the other replaces it
          simp only [hcb, if_false, false_and, iff_false, Prod.mk.injEq, not_and]
          intro h
          have hspec := congrArg (fun c : Option (CargoDb κ η ν) => c.map fun c => c.spec.data.container) h
          simp [hca, hcb, specOf] at hspec
      · rw [if_neg hca]
        by_cases hcb : cargo.spec.data.container = configOf b
        · have hne : configOf (ν := ν) a ≠ configOf b := fun h => hca (hcb.trans h.symm)
          simp only [hcb, if_true, hne, false_and, iff_false, Prod.mk.injEq, not_and]
          intro h
          have hspec := congrArg (fun c : Option (CargoDb κ η ν) => c.map fun c => c.spec.data.container) h
          simp [hcb, hne, specOf] at hspec
        · rw [if_neg hcb]
          simp [specOf]
    · rw [hnone] at hcargo
      cases hcargo
  · rcases hviewb with ⟨cargo', hcargo', -⟩ | ⟨-, hviewb⟩
    · rw [hnone] at hcargo'
      cases hcargo'
    · rw [hviewa, hviewb]
      simp [specOf]

/-- a container that decides a cargo leaves its view exactly if it has the configuration of the stored spec and leaves the
status -/
theorem Decides.act_eq_self_iff {E : Env κ η} {s : Store κ η ν} {l : List ContainerSummary} {key : String}
    {a : ContainerInspectResponse κ η} {c : ContainerSummary} (h : Decides E s l key a c) :
    actView E c (s.view key) = s.view key ↔
      (∃ cargo, s.cargoes key = some cargo ∧ cargo.spec.data.container = configOf a) ∧ LeavesStatus (s.row key) a := by
  rw [← applyStatus_eq_self_iff]
  obtain ⟨name, nsp, -, hview⟩ := h.view
  rcases hview with ⟨cargo, hcargo, hview⟩ | ⟨hnone, hview⟩
  · obtain ⟨status, hst⟩ := Option.isSome_iff_exists.1 (s.status_of_cargo key (by rw [hcargo]; rfl))
    have hrow : s.view key = (some cargo, some (s.row key)) := by simp [Store.view, Store.row, hcargo, hst]
    rw [hview, hrow, hcargo]
    by_cases hca : cargo.spec.data.container = configOf a
    · simp [hca]
    · simp only [hca, if_false, Option.some.injEq, exists_eq_left', false_and, iff_false, Prod.mk.injEq, not_and]
      intro heq
      have hspec := congrArg (fun c : CargoDb κ η ν => c.spec.data.container) heq
      exact absurd hspec.symm hca
  · rw [hview]
    refine iff_of_false ?_ ?_
    · intro heq
      have hcargo := congrArg Prod.fst heq
      rw [show (s.view key).1 = none from hnone] at hcargo
      cases hcargo
    · rintro ⟨⟨cargo, hcargo, -⟩, -⟩
      rw [hnone] at hcargo
      cases hcargo

/-- the wanted status survives what an item makes of its cargo -/
def KeepsWanted (s : Store κ η ν) (key : String) (x : View κ η ν) : Prop :=
  ∀ status, (s.cargoes key).isSome → s.statuses key = some status → ∃ status', x.2 = some status' ∧
    status'.wanted = status.wanted

theorem Decides.keepsWanted_iff {E : Env κ η} {s : Store κ η ν} {l : List ContainerSummary} {key : String}
    {a : ContainerInspectResponse κ η} {c : ContainerSummary} (h : Decides E s l key a c) :
    KeepsWanted s key (actView E c (s.view key)) ↔
      ((s.cargoes key).isSome → (a.status.bind syncStatus).isSome → (s.row key).wanted = .start) := by
  have hsnd : (actView E c (s.view key)).2 = some (applyStatus a (s.row key)) := by
    obtain ⟨name, nsp, -, ⟨cargo, -, hview⟩ | ⟨-, hview⟩⟩ := h.view
    · rw [hview]
    · rw [hview]
  unfold KeepsWanted
  rw [hsnd, applyStatus_eq]
  constructor
  · intro hk hstored hsome
    obtain ⟨status, hst⟩ := Option.isSome_iff_exists.1 (s.status_of_cargo key hstored)
    obtain ⟨new, hnew⟩ := Option.isSome_iff_exists.1 hsome
    obtain ⟨status', heq, hwanted⟩ := hk status hstored hst
    rw [hnew] at heq
    obtain rfl := Option.some.inj heq
    simpa [Store.row, hst] using hwanted.symm
  · intro hw status hstored hst
    cases hnew : a.status.bind syncStatus with
    | none => exact ⟨_, rfl, by simp [Store.row, hst]⟩
    | some new =>
      have hstart := hw hstored (by rw [hnew]; rfl)
      refine ⟨_, rfl, ?_⟩
      simpa [Store.row, hst] using hstart.symm

/-- **The order does not matter and the wanted status is kept, exactly if the containers of each cargo agree.** -/
theorem order_independent_iff (E : Env κ η) (s : Store κ η ν) (l : List ContainerSummary) :
    OrderIndependent E s l ↔ Uniform E s l := by
  have hsame := guarded_perm_iff subject (actView E) (syncable E s) l s.view
  have hwanted := guarded_forall_iff subject (actView E) (syncable E s) l s.view (KeepsWanted s)
    fun k status _ hst => ⟨status, hst, rfl⟩
  constructor
  · intro h
    obtain ⟨halike, hnone⟩ := hsame.1 fun l₁ l₂ h₁ h₂ => by
      rw [← step_view, ← step_view]
      exact h.same l₁ l₂ h₁ h₂
    have hkeep := hwanted.1 fun l₁ h₁ k status hstored hst => by
      rw [← step_view]
      exact h.wanted l₁ h₁ k status hstored hst
    constructor
    · intro key a b c d ha hb
      exact (ha.act_eq_iff hb).1 (halike c ha.mem_filter d hb.mem_filter key ha.subject hb.subject)
    · intro key a c ha
      exact ha.keepsWanted_iff.1 (hkeep c ha.mem_filter key ha.subject)
    · intro hfail key a c ha
      exact ha.act_eq_self_iff.1 (hnone hfail c ha.mem_filter key ha.subject)
  · intro h
    constructor
    · intro l₁ l₂ h₁ h₂
      rw [step_view, step_view]
      refine hsame.2 ⟨?_, ?_⟩ l₁ l₂ h₁ h₂
      · intro c hc d hd key hkc hkd
        obtain ⟨a, ha⟩ := decides_of_filter hc hkc
        obtain ⟨b, hb⟩ := decides_of_filter hd hkd
        exact (ha.act_eq_iff hb).2 (h.alike key a b c d ha hb)
      · intro hfail c hc key hkc
        obtain ⟨a, ha⟩ := decides_of_filter hc hkc
        exact ha.act_eq_self_iff.2 (h.failing hfail key a c ha)
    · intro l₁ h₁ key status hstored hst
      have hkeep := hwanted.2 (fun c hc k hkc => ?_) l₁ h₁ key status hstored hst
      · rw [← step_view] at hkeep
        exact hkeep
      · obtain ⟨a, ha⟩ := decides_of_filter hc hkc
        exact ha.keepsWanted_iff.2 (h.wanted k a c ha)

end

/-! ## A stopped cargo -/

/-- the store after a stop request and its task -/
def stoppedStore : Store Runtime.Config Runtime.HostConfig Unit where
  cargoes := webStore.cargoes
  history := webStore.history
  statuses key := if key = "web.global" then some ⟨.stop, .start, .stop, .stopping⟩ else none
  namespaces := webStore.namespaces
  processes := []
  status_of_cargo key h := by
    by_cases hk : key = "web.global"
    · simp [hk]
    · simp [webStore, hk] at h

/-- docker keeps its instance, which has exited -/
def exitedEnv : Env Runtime.Config Runtime.HostConfig :=
  { restart.1 with inspect := fun _ => .ok { webInstance with status := some .exited } }

/-- a restart makes a cargo that was stopped wanted again -/
theorem intent_lost :
    ¬ ∀ (E : Env Runtime.Config Runtime.HostConfig) (s : Store Runtime.Config Runtime.HostConfig Unit)
      (l : List ContainerSummary), OrderIndependent E s l := by
  intro h
  obtain ⟨status, hstatus, hwanted⟩ :=
    (h exitedEnv stoppedStore restart.2).wanted restart.2 (List.Perm.refl _) "web.global" _ rfl rfl
  -- the pass writes that the cargo is wanted
  have hstart : (step stoppedStore (exitedEnv, restart.2)).statuses "web.global" = some ⟨.start, .start, .stop, .stopping⟩ :=
    rfl
  obtain rfl := Option.some.inj (hstart.symm.trans hstatus)
  cases hwanted

end Nanocl.Sync
