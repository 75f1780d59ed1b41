/-
What `state apply` makes of the objects that a state declares (`commands/state.rs::state_apply`), and what a second run of
it asks for.

- `applyState_ok`: the tables after a command that returns, one pass over each section.
- `converges_iff`: everything is stored as declared, and runs, exactly if each object that was there fits its declaration.
- `apply_again_iff`: a second run asks for nothing exactly if, beside this, no VM is created and no controller rewrites
  the data of a resource.
- `vm_created_again`: a VM that the first run creates is patched by the second one.
-/
import Nanocl.Cli.Rounds

namespace Nanocl.Cli

open Nanocl.Lib Nanocl.Objects

variable {δ : Type} {E : ApplyEnv δ}

/-! ## The command -/

section Command

variable [DecidableEq δ] {reload : Bool} {state : StateRef δ} {s s' : Session δ}

/-- what a state declares, with the label of its group -/
structure Declared (δ : Type) where
  ns : String
  secrets : List (SecretPartial δ)
  cargoes : List (CargoSpecPartial δ)
  vms : List (VmSpecPartial δ)
  resources : List (ResourcePartial δ)

/-- the declarations of a state, where `insert_nanocl_group` does not panic on one -/
def declare (E : ApplyEnv δ) (state : StateRef δ) : Option (Declared δ) := do
  let group := getNanoclGroup state
  let secrets ← (state.data.secrets.getD []).mapM (labelSecret E group)
  let cargoes ← (state.data.cargoes.getD []).mapM (labelCargo E group)
  let vms ← (state.data.virtualMachines.getD []).mapM (labelVm E group)
  let resources ← (state.data.resources.getD []).mapM (labelResource E group)
  return ⟨state.data.namespace_.getD "global", secrets, cargoes, vms, resources⟩

omit [DecidableEq δ] in
theorem onlyJobs_applyAll (jobs : Option (List (JobPartial δ))) (group : String) :
    Prog.Keeps OnlyJobs (applyAll jobs (applyJob E group)) :=
  Prog.keeps_forEach fun p _ => onlyJobs_applyJob p.1

omit [DecidableEq δ] in
theorem forall_mem_label_iff {α : Type} {label : α → Option α} {P : α → Prop} {l ds : List α}
    (h : l.mapM label = some ds) :
    (∀ a ∈ l, ∀ d ∈ label a, P d) ↔ ∀ d ∈ ds, P d := by
  induction l generalizing ds with
  | nil =>
    obtain rfl := Option.some.inj h
    simp
  | cons a l ih =>
    rw [List.mapM_cons] at h
    obtain ⟨d, hd, h⟩ := Option.bind_eq_some_iff.1 h
    obtain ⟨ds', hds', h⟩ := Option.bind_eq_some_iff.1 h
    obtain rfl := Option.some.inj h
    rw [List.forall_mem_cons, List.forall_mem_cons, ih hds', hd]
    simp

/-- **What a command that returns does**: one pass over the declarations of each section; it labels each of them. -/
theorem applyState_ok (h : applyState E reload state s = (.ok (), s')) :
    ∃ d, declare E state = some d ∧ s'.inventory =
      { secrets := secretRounds.reconcile s.inventory.secrets d.secrets
        jobs := s'.inventory.jobs
        cargoes := (cargoRounds E reload d.ns).reconcile s.inventory.cargoes d.cargoes
        vms := (vmRounds E reload d.ns).reconcile s.inventory.vms d.vms
        resources := (resourceRounds E reload).reconcile s.inventory.resources d.resources } := by
  obtain ⟨_, s₁, hsecrets, h⟩ := Prog.bind_eq_ok h
  obtain ⟨_, s₂, hjobs, h⟩ := Prog.bind_eq_ok h
  obtain ⟨_, s₃, hcargoes, h⟩ := Prog.bind_eq_ok h
  obtain ⟨_, s₄, hvms, hresources⟩ := Prog.bind_eq_ok h
  obtain ⟨ds, hds, hi₁⟩ := applyAll_ok (fun _ _ _ _ hround => applySecret_ok hround) hsecrets
  have hi₂ := (onlyJobs_applyAll (E := E) state.data.jobs (getNanoclGroup state) s₁).others
  rw [hjobs] at hi₂
  obtain ⟨cs, hcs, hi₃⟩ := applyAll_ok (fun _ _ _ _ hround => applyCargo_ok hround) hcargoes
  obtain ⟨vs, hvs, hi₄⟩ := applyAll_ok (fun _ _ _ _ hround => applyVm_ok hround) hvms
  obtain ⟨rs, hrs, hi₅⟩ := applyAll_ok (fun _ _ _ _ hround => applyResource_ok hround) hresources
  refine ⟨⟨state.data.namespace_.getD "global", ds, cs, vs, rs⟩, ?_, ?_⟩
  · simp only [declare, hds, hcs, hvs, hrs]
    rfl
  · rw [hi₅, hi₄, hi₃, hi₂, hi₁]
    rfl

/-- **What a second command asks for**: nothing, but for jobs, exactly if every inspection shows the declaration. -/
theorem applyState_quiet (hE : E.Inspects) {d : Declared δ} (hd : declare E state = some d)
    (h : applyState E false state s = (.ok (), s')) :
    Silent s s' ↔ (∀ a ∈ d.secrets, SecretShown s.inventory a) ∧ (∀ a ∈ d.cargoes, CargoShown d.ns s.inventory a) ∧
      (∀ a ∈ d.vms, VmShown d.ns s.inventory a) ∧ ∀ a ∈ d.resources, ResourceShown s.inventory a := by
  simp only [declare, Option.bind_eq_bind, Option.bind_eq_some_iff] at hd
  obtain ⟨ds, hds, cs, hcs, vs, hvs, rs, hrs, hd⟩ := hd
  obtain rfl := Option.some.inj hd
  set ns := state.data.namespace_.getD "global" with hns
  obtain ⟨_, s₁, hsecrets, h⟩ := Prog.bind_eq_ok h
  obtain ⟨_, s₂, hjobs, h⟩ := Prog.bind_eq_ok h
  obtain ⟨_, s₃, hcargoes, h⟩ := Prog.bind_eq_ok h
  obtain ⟨_, s₄, hvms, hresources⟩ := Prog.bind_eq_ok h
  have hq₁ := (applyAll_quiet (P := fun i a => ∀ d ∈ labelSecret E (getNanoclGroup state) a, SecretShown i d)
    (fun _ _ _ _ hround => applySecret_quiet hE hround) hsecrets).congr (forall_mem_label_iff hds)
  have hq₃ := (applyAll_quiet (P := fun i a => ∀ d ∈ labelCargo E (getNanoclGroup state) a, CargoShown ns i d)
    (fun _ _ _ _ hround => applyCargo_quiet hE hround) hcargoes).congr (forall_mem_label_iff hcs)
  have hq₄ := (applyAll_quiet (P := fun i a => ∀ d ∈ labelVm E (getNanoclGroup state) a, VmShown ns i d)
    (fun _ _ _ _ hround => applyVm_quiet hE hround) hvms).congr (forall_mem_label_iff hvs)
  have hq₅ := (applyAll_quiet (P := fun i a => ∀ d ∈ labelResource E (getNanoclGroup state) a, ResourceShown i d)
    (fun _ _ _ _ hround => applyResource_quiet hE hround) hresources).congr (forall_mem_label_iff hrs)
  have hjobs' := onlyJobs_applyAll (E := E) state.data.jobs (getNanoclGroup state) s₁
  rw [hjobs] at hjobs'
  have hext := hjobs'.silent.extends
  rw [silent_trans_iff hq₁.more (hext.trans (hq₃.more.trans (hq₄.more.trans hq₅.more))),
    silent_trans_iff hext (hq₃.more.trans (hq₄.more.trans hq₅.more)), and_iff_right hjobs'.silent,
    silent_trans_iff hq₃.more (hq₄.more.trans hq₅.more), silent_trans_iff hq₄.more hq₅.more, hq₁.silent, hq₃.silent,
    hq₄.silent, hq₅.silent]
  refine and_congr_right fun hs => ?_
  -- as long as nothing was asked for, the inspections of each section show what was there at first
  have hi₂ : s₂.inventory = { s.inventory with jobs := s₂.inventory.jobs } := by
    rw [hjobs'.others, hq₁.kept hs]
  have hcargo : (∀ a ∈ cs, CargoShown ns s₂.inventory a) ↔ ∀ a ∈ cs, CargoShown ns s.inventory a := by
    rw [hi₂]
    rfl
  rw [hcargo]
  refine and_congr_right fun hc => ?_
  have hi₃ := (hq₃.kept (hcargo.2 hc)).trans hi₂
  have hvm : (∀ a ∈ vs, VmShown ns s₃.inventory a) ↔ ∀ a ∈ vs, VmShown ns s.inventory a := by
    rw [hi₃]
    rfl
  rw [hvm]
  refine and_congr_right fun hv => ?_
  rw [(hq₄.kept (hvm.2 hv)).trans hi₃]
  rfl

/-! ## What is stored at the end -/

/-- no two declarations are about one object -/
structure Declared.Distinct (d : Declared δ) : Prop where
  secrets : (d.secrets.map fun a => a.name).Nodup
  cargoes : (d.cargoes.map fun a => genKey a.name (some d.ns)).Nodup
  vms : (d.vms.map fun a => genKey a.name (some d.ns)).Nodup
  resources : (d.resources.map fun a => a.name).Nodup

/-- the task of the operation reports that it is done -/
def ApplyEnv.Done (E : ApplyEnv δ) (op : Operation) : Prop := (E.watched op).any Step.isDone = true

/-- the cargo is stored as declared and runs -/
def CargoStored (ns : String) (i : Inventory δ) (d : CargoSpecPartial δ) : Prop :=
  i.cargoes (genKey d.name (some ns)) = some ⟨d, .start⟩

/-- the VM is stored as declared, on the disk that is declared or on a snapshot of it, and runs -/
def VmStored (ns : String) (i : Inventory δ) (d : VmSpecPartial δ) : Prop :=
  ∃ v, i.vms (genKey d.name (some ns)) = some v ∧ v.actual = .start ∧
    (shownVm v.spec = shownVm d ∨ shownVm v.spec = shownVm (createdVm (genKey d.name (some ns)) d))

/-- the resource is stored as declared, with the data that its controller makes of it -/
def ResourceStored (E : ApplyEnv δ) (i : Inventory δ) (d : ResourcePartial δ) : Prop :=
  i.resources d.name = some { d with kind := bareKind d.kind, data := hookedData E d.kind d.name d.data }

/-- everything that is declared is stored as declared, and runs -/
structure Declared.Stored (d : Declared δ) (E : ApplyEnv δ) (i : Inventory δ) : Prop where
  secrets : ∀ a ∈ d.secrets, SecretShown i a
  cargoes : ∀ a ∈ d.cargoes, CargoStored d.ns i a
  vms : ∀ a ∈ d.vms, VmStored d.ns i a
  resources : ∀ a ∈ d.resources, ResourceStored E i a

/-- a stored secret has the name, the kind and the flag of the declaration, which a patch does not change -/
def SecretFits (i : Inventory δ) (d : SecretPartial δ) : Prop :=
  ∀ s ∈ i.secrets d.name, s.name = d.name ∧ s.kind = d.kind ∧ s.immutable = d.immutable

/-- a cargo is started by the task of its creation or of its put; one that shows the declaration is not touched -/
def CargoFits (E : ApplyEnv δ) (reload : Bool) (ns : String) (i : Inventory δ) (d : CargoSpecPartial δ) : Prop :=
  match i.cargoes (genKey d.name (some ns)) with
  | none => E.Done (.createCargo d.name ns)
  | some c => if c.spec = d ∧ reload = false then c.actual = .start else E.Done (.putCargo d.name ns)

/-- what a patch with a declaration leaves as it is: the columns that no patch has, and those that the declaration leaves
unset -/
structure PatchFits (v d : VmSpecPartial δ) : Prop where
  macAddress : v.macAddress = d.macAddress
  hostname : d.hostname = none → v.hostname = none
  user : d.user = none → v.user = none
  password : d.password = none → v.password = none
  sshKey : d.sshKey = none → v.sshKey = none
  labels : d.labels = none → v.labels = none

/-- a VM is started by the task of its creation or of its patch; one that shows the declaration is not touched -/
def VmFits (E : ApplyEnv δ) (reload : Bool) (ns : String) (i : Inventory δ) (d : VmSpecPartial δ) : Prop :=
  match i.vms (genKey d.name (some ns)) with
  | none => E.Done (.createVm d.name ns)
  | some v =>
    if shownVm v.spec = d ∧ reload = false then v.actual = .start
    else E.Done (.patchVm d.name ns) ∧ PatchFits v.spec d ∧
      (v.spec.disk = d.disk ∨ v.spec.disk = (createdVm (genKey d.name (some ns)) d).disk) ∧
      (d.hostConfig = none → v.spec.hostConfig.getD .default = .default)

/-- a resource keeps its kind, and the controller of that kind rewrites the data; one that shows the declaration is not
touched -/
def ResourceFits (E : ApplyEnv δ) (reload : Bool) (i : Inventory δ) (d : ResourcePartial δ) : Prop :=
  match i.resources d.name with
  | none => True
  | some r =>
    if r = d ∧ reload = false then bareKind d.kind = d.kind ∧ hookedData E d.kind d.name d.data = d.data
    else r.kind = bareKind d.kind ∧ hookedData E r.kind d.name d.data = hookedData E d.kind d.name d.data

/-- each object that is there fits its declaration -/
structure Declared.Fits (d : Declared δ) (E : ApplyEnv δ) (reload : Bool) (i : Inventory δ) : Prop where
  secrets : ∀ a ∈ d.secrets, SecretFits i a
  cargoes : ∀ a ∈ d.cargoes, CargoFits E reload d.ns i a
  vms : ∀ a ∈ d.vms, VmFits E reload d.ns i a
  resources : ∀ a ∈ d.resources, ResourceFits E reload i a

omit [DecidableEq δ] in
theorem statusAfter_eq_start {op : Operation} {pending : ObjPsStatusKind} (h : pending ≠ .start) :
    E.statusAfter op pending = .start ↔ E.Done op := by
  unfold ApplyEnv.statusAfter ApplyEnv.Done
  by_cases hdone : (E.watched op).any Step.isDone = true
  · simp only [hdone, if_true]
  · simp only [hdone, Bool.false_eq_true, if_false, iff_false]
    split
    · exact fun h => by cases h
    · exact h

omit [DecidableEq δ] in
/-- what is declared comes from `insert_nanocl_group`, which always gives metadata -/
theorem metadata_of_mem {d : Declared δ} (hd : declare E state = some d) :
    (∀ a ∈ d.secrets, a.metadata.isSome) ∧ ∀ a ∈ d.vms, a.metadata.isSome := by
  simp only [declare, Option.bind_eq_bind, Option.bind_eq_some_iff] at hd
  obtain ⟨ds, hds, cs, hcs, vs, hvs, rs, hrs, hd⟩ := hd
  obtain rfl := Option.some.inj hd
  refine ⟨(forall_mem_label_iff hds).1 fun a _ d hd => ?_, (forall_mem_label_iff hvs).1 fun a _ d hd => ?_⟩
  · obtain ⟨m, -, rfl⟩ := Option.map_eq_some_iff.1 hd
    rfl
  · obtain ⟨m, -, rfl⟩ := Option.map_eq_some_iff.1 hd
    rfl

theorem secretStep_iff {v : Option (SecretPartial δ)} {d : SecretPartial δ} (hm : d.metadata.isSome) :
    secretRounds.step v d = some d ↔ ∀ s ∈ v, s.name = d.name ∧ s.kind = d.kind ∧ s.immutable = d.immutable := by
  obtain ⟨m, hm⟩ := Option.isSome_iff_exists.1 hm
  cases v with
  | none => simp [secretRounds, roundStep]
  | some s =>
    by_cases h : s = d
    · simp [secretRounds, roundStep, h]
    · simp only [secretRounds, roundStep, h, decide_false, Bool.false_eq_true, if_false, Option.some.injEq, hm,
        Option.mem_def, forall_eq']
      constructor
      · intro heq
        rw [← heq]
        exact ⟨rfl, rfl, rfl⟩
      · intro heq
        obtain ⟨hname, hkind, himmutable⟩ := heq
        cases s
        cases d
        subst hname hkind himmutable hm
        rfl

theorem cargoStep_iff {ns : String} {i : Inventory δ} {d : CargoSpecPartial δ} :
    (cargoRounds E reload ns).step (i.cargoes (genKey d.name (some ns))) d = some ⟨d, .start⟩ ↔
      CargoFits E reload ns i d := by
  unfold CargoFits cargoRounds
  cases i.cargoes (genKey d.name (some ns)) with
  | none =>
    simp only [roundStep, Option.some.injEq, Process.mk.injEq, true_and]
    exact statusAfter_eq_start (by decide)
  | some c =>
    simp only [roundStep, Bool.and_eq_true, decide_eq_true_eq, Bool.not_eq_true']
    split
    next hun =>
      rw [Option.some.injEq, ← hun.1]
      exact ⟨fun h => by rw [h], fun h => by rw [← h]⟩
    next =>
      simp only [Option.some.injEq, Process.mk.injEq, true_and]
      exact statusAfter_eq_start (by decide)

omit [DecidableEq δ] in
@[simp] theorem shownVm_shownVm (p : VmSpecPartial δ) : shownVm (shownVm p) = shownVm p := rfl

omit [DecidableEq δ] in
theorem or_eq_left_iff {α : Type} {a b : Option α} : a.or b = a ↔ (a = none → b = none) := by
  cases a <;> simp

omit [DecidableEq δ] in
/-- a patched VM shows a specification with the values of the patch exactly if what the patch leaves is as declared -/
theorem shownVm_patchedVm {v d d' : VmSpecPartial δ} (hm : d.metadata.isSome)
    (hd' : d' = { d with disk := d'.disk, hostConfig := d'.hostConfig }) :
    shownVm (patchedVm v (vmUpdate d)) = d' ↔
      PatchFits v d ∧ v.disk = d'.disk ∧ some (d.hostConfig.getD (v.hostConfig.getD .default)) = d'.hostConfig := by
  obtain ⟨m, hm⟩ := Option.isSome_iff_exists.1 hm
  rw [hd']
  simp only [shownVm, patchedVm, patchVmSpec, vmUpdate, Option.getD_some, VmSpecPartial.mk.injEq, true_and, hm,
    Option.some_or, or_eq_left_iff]
  constructor
  · intro h
    obtain ⟨h₁, h₂, h₃, h₄, hdisk, hmac, hlabels, hhost⟩ := h
    exact ⟨⟨hmac, h₁, h₂, h₃, h₄, hlabels⟩, hdisk, hhost⟩
  · intro h
    obtain ⟨⟨hmac, h₁, h₂, h₃, h₄, hlabels⟩, hdisk, hhost⟩ := h
    exact ⟨h₁, h₂, h₃, h₄, hdisk, hmac, hlabels, hhost⟩

omit [DecidableEq δ] in
theorem hostConfig_resolved_iff {a b : Option Runtime.VmHostConfig} :
    some (a.getD (b.getD .default)) = some (a.getD .default) ↔ (a = none → b.getD .default = .default) := by
  cases a <;> simp

omit [DecidableEq δ] in
theorem hostConfig_declared_iff {a : Option Runtime.VmHostConfig} {b : Runtime.VmHostConfig} :
    some (a.getD b) = a ↔ a.isSome = true := by
  cases a <;> simp

theorem vmStep_iff {ns : String} {i : Inventory δ} {d : VmSpecPartial δ} (hm : d.metadata.isSome) :
    (∃ v, (vmRounds E reload ns).step (i.vms (genKey d.name (some ns))) d = some v ∧ v.actual = .start ∧
      (shownVm v.spec = shownVm d ∨ shownVm v.spec = shownVm (createdVm (genKey d.name (some ns)) d))) ↔
      VmFits E reload ns i d := by
  unfold VmFits vmRounds
  cases i.vms (genKey d.name (some ns)) with
  | none =>
    simp only [roundStep, Option.some.injEq, exists_eq_left']
    exact (and_iff_left (Or.inr trivial)).trans (statusAfter_eq_start (by decide))
  | some v =>
    simp only [roundStep, Bool.and_eq_true, decide_eq_true_eq, Bool.not_eq_true']
    split
    next hun =>
      simp only [Option.some.injEq, exists_eq_left', ← hun.1, shownVm_shownVm, true_or, and_true]
    next =>
      simp only [Option.some.injEq, exists_eq_left']
      rw [statusAfter_eq_start (by decide), shownVm_patchedVm hm rfl, shownVm_patchedVm hm rfl]
      simp only [shownVm, createdVm, hostConfig_resolved_iff]
      rw [← and_or_left, ← or_and_right, and_congr_right_iff]
      exact fun _ => Iff.rfl

theorem resourceStep_iff {i : Inventory δ} {d : ResourcePartial δ} :
    (resourceRounds E reload).step (i.resources d.name) d =
      some { d with kind := bareKind d.kind, data := hookedData E d.kind d.name d.data } ↔ ResourceFits E reload i d := by
  unfold ResourceFits resourceRounds
  cases i.resources d.name with
  | none => simp [roundStep]
  | some r =>
    simp only [roundStep, Bool.and_eq_true, decide_eq_true_eq, Bool.not_eq_true']
    split
    next hun =>
      obtain ⟨rfl, -⟩ := hun
      rw [Option.some.injEq]
      constructor
      · intro h
        exact ⟨(congrArg ResourcePartial.kind h).symm, (congrArg ResourcePartial.data h).symm⟩
      · intro h
        rw [h.1, h.2]
    next => simp only [Option.some.injEq, ResourcePartial.mk.injEq, true_and, and_true]

/-- where no two declarations are about one object, everything is stored as declared exactly if each object that was there
fits -/
theorem stored_iff_fits {d : Declared δ} (hd : declare E state = some d) (hdistinct : d.Distinct)
    (h : applyState E reload state s = (.ok (), s')) : d.Stored E s'.inventory ↔ d.Fits E reload s.inventory := by
  obtain ⟨d', hd', hi⟩ := applyState_ok h
  obtain rfl := Option.some.inj (hd'.symm.trans hd)
  obtain ⟨hms, hmv⟩ := metadata_of_mem hd
  have hsecrets : (∀ a ∈ d'.secrets, SecretShown s'.inventory a) ↔ ∀ a ∈ d'.secrets, SecretFits s.inventory a := by
    rw [hi]
    exact (secretRounds.reconcile_meets_iff (fun v a => v = some a) hdistinct.secrets _).trans
      (forall₂_congr fun a ha => secretStep_iff (hms a ha))
  have hcargoes : (∀ a ∈ d'.cargoes, CargoStored d'.ns s'.inventory a) ↔
      ∀ a ∈ d'.cargoes, CargoFits E reload d'.ns s.inventory a := by
    rw [hi]
    exact ((cargoRounds E reload d'.ns).reconcile_meets_iff (fun v a => v = some ⟨a, .start⟩) hdistinct.cargoes _).trans
      (forall₂_congr fun a _ => cargoStep_iff)
  have hvms : (∀ a ∈ d'.vms, VmStored d'.ns s'.inventory a) ↔ ∀ a ∈ d'.vms, VmFits E reload d'.ns s.inventory a := by
    rw [hi]
    have hmeets := (vmRounds E reload d'.ns).reconcile_meets_iff (fun v a => ∃ v', v = some v' ∧ v'.actual = .start ∧
      (shownVm v'.spec = shownVm a ∨ shownVm v'.spec = shownVm (createdVm (genKey a.name (some d'.ns)) a)))
      hdistinct.vms s.inventory.vms
    exact hmeets.trans (forall₂_congr fun a ha => vmStep_iff (hmv a ha))
  have hresources : (∀ a ∈ d'.resources, ResourceStored E s'.inventory a) ↔
      ∀ a ∈ d'.resources, ResourceFits E reload s.inventory a := by
    rw [hi]
    exact ((resourceRounds E reload).reconcile_meets_iff (fun v a => v = some
      { a with kind := bareKind a.kind, data := hookedData E a.kind a.name a.data }) hdistinct.resources _).trans
      (forall₂_congr fun a _ => resourceStep_iff)
  constructor
  · intro hall
    exact ⟨hsecrets.1 hall.secrets, hcargoes.1 hall.cargoes, hvms.1 hall.vms, hresources.1 hall.resources⟩
  · intro hall
    exact ⟨hsecrets.2 hall.secrets, hcargoes.2 hall.cargoes, hvms.2 hall.vms, hresources.2 hall.resources⟩

/-- **Convergence.** A command that returns leaves everything as declared on the daemon that the state designates exactly
if this is the daemon of its configuration and each object that was there fits its declaration, or if this is another one
that has everything as declared already. -/
theorem converges_iff {conf : CliConfig} {net net' : Network δ} {sent : List Sent} {d : Declared δ}
    (hd : declare E state = some d) (hdistinct : d.Distinct)
    (h : stateApply E reload conf state net = (.ok (), net', sent)) :
    ∀ c, genClient conf state.data.apiVersion = .ok c →
      (d.Stored E (net'.inventory (net.daemonAt c.endpoint)) ↔
        if net.daemonAt c.endpoint = net.daemonAt conf.client.endpoint then
          d.Fits E reload (net.inventory (net.daemonAt conf.client.endpoint))
        else d.Stored E (net.inventory (net.daemonAt c.endpoint))) := by
  intro c _
  rcases hrun : applyState E reload state ⟨net.inventory (net.daemonAt conf.client.endpoint), []⟩ with ⟨r, s'⟩
  simp only [stateApply, hrun, Prod.mk.injEq] at h
  obtain ⟨rfl, rfl, -⟩ := h
  by_cases hown : net.daemonAt c.endpoint = net.daemonAt conf.client.endpoint
  · rw [if_pos hown, hown]
    simp only [Function.update_self]
    exact stored_iff_fits hd hdistinct hrun
  · rw [if_neg hown]
    simp only [Function.update_of_ne hown]

/-- JSON as lists of texts, and a daemon that refuses nothing, whose tasks all succeed and that then closes its streams -/
def quietEnv : ApplyEnv (List (String × String)) where
  fault _ _ _ := none
  watched _ := [.report (.ok ()) true, .ends]
  controllers _ := none
  applyRule _ data := .ok data
  insert metadata key value := some (metadata ++ [(key, value)])
  object key value := [(key, value)]

def localConf : CliConfig :=
  ⟨"unix:///run/nanocl.sock", ⟨"http://localhost", "v0.16.0", some "/run/nanocl.sock"⟩, by decide +kernel⟩

/-- a secret and a VM that leaves its host configuration unset -/
def webState : StateRef (List (String × String)) where
  raw := ""
  data := ⟨"v0.16", none, none, none, some [⟨"token", "generic", true, none, []⟩], none, none,
    some [⟨"web", none, none, none, none, none, ⟨"ubuntu", none⟩, none, none, none⟩], none⟩
  root := .none
  location := "web"
  call := []

def webDeclared : Declared (List (String × String)) where
  ns := "global"
  secrets := [⟨"token", "generic", true, some [("io.nanocl.group", "web")], []⟩]
  cargoes := []
  vms := [⟨"web", some [("io.nanocl.group", "web")], none, none, none, none, ⟨"ubuntu", none⟩, none, none, none⟩]
  resources := []

theorem webDeclared_distinct : webDeclared.Distinct :=
  ⟨List.nodup_singleton _, List.nodup_nil, List.nodup_singleton _, List.nodup_nil⟩

/-- a daemon that stores nothing -/
def emptyInventory : Inventory (List (String × String)) :=
  ⟨fun _ => none, fun _ => none, fun _ => none, fun _ => none, fun _ => none⟩

theorem webDeclared_fits : webDeclared.Fits quietEnv false emptyInventory where
  secrets a _ s hs := by cases hs
  cargoes a ha := absurd ha List.not_mem_nil
  vms a _ := rfl
  resources a ha := absurd ha List.not_mem_nil

def oneNode : Network (List (String × String)) := ⟨fun _ => "node", fun _ => emptyInventory⟩

/-- on a new node the state is stored as declared -/
theorem converges_empty : webDeclared.Stored quietEnv
    ((stateApply quietEnv false localConf webState oneNode).2.1.inventory "node") := by
  have h : stateApply quietEnv false localConf webState oneNode = (.ok (), _, _) := Prod.ext (by decide +kernel) rfl
  have hstored := converges_iff (d := webDeclared) rfl webDeclared_distinct h
    ⟨"http://localhost", "v0.16", some "/run/nanocl.sock"⟩ (by decide +kernel)
  exact hstored.2 webDeclared_fits

/-! ## A second command -/

/-- the VM that is there keeps what the declaration asks for, which gives its host configuration -/
def VmAgain (ns : String) (i : Inventory δ) (d : VmSpecPartial δ) : Prop :=
  ∃ v, i.vms (genKey d.name (some ns)) = some v ∧ v.spec.disk = d.disk ∧ PatchFits v.spec d ∧ d.hostConfig.isSome = true

/-- the controller leaves the declared data as they are, and the kind has no version -/
def ResourceAgain (E : ApplyEnv δ) (reload : Bool) (i : Inventory δ) (d : ResourcePartial δ) : Prop :=
  match i.resources d.name with
  | none => bareKind d.kind = d.kind ∧ hookedData E d.kind d.name d.data = d.data
  | some r => (r = d ∧ reload = false) ∨ (r.kind = d.kind ∧ hookedData E d.kind d.name d.data = d.data)

/-- what a first command finds if a second one has nothing to do -/
structure Declared.Again (d : Declared δ) (E : ApplyEnv δ) (reload : Bool) (i : Inventory δ) : Prop where
  secrets : ∀ a ∈ d.secrets, SecretFits i a
  vms : ∀ a ∈ d.vms, VmAgain d.ns i a
  resources : ∀ a ∈ d.resources, ResourceAgain E reload i a

omit [DecidableEq δ] in
/-- the disk of a VM that is created is not the declared one -/
theorem shownVm_createdVm_ne {key : String} {d : VmSpecPartial δ} : shownVm (createdVm key d) ≠ d := by
  intro h
  have himage : d.disk.image ++ "." ++ key = d.disk.image := congrArg (fun p => p.disk.image) h
  have hlength := congrArg String.length himage
  rw [String.length_append, String.length_append] at hlength
  have : ".".length = 1 := rfl
  omega

omit [DecidableEq δ] in
theorem patchFits_of_shown {v d : VmSpecPartial δ} (h : shownVm v = d) :
    v.disk = d.disk ∧ PatchFits v d ∧ d.hostConfig.isSome = true := by
  subst h
  exact ⟨rfl, ⟨rfl, id, id, id, id, id⟩, rfl⟩

/-- a cargo has the declared specification after its round, in any case -/
theorem cargoStep_shown {ns : String} {v : Option (Process (CargoSpecPartial δ))} {d : CargoSpecPartial δ} :
    ∃ c, (cargoRounds E reload ns).step v d = some c ∧ c.spec = d := by
  unfold cargoRounds
  cases v with
  | none => exact ⟨_, rfl, rfl⟩
  | some c =>
    simp only [roundStep, Bool.and_eq_true, decide_eq_true_eq, Bool.not_eq_true']
    split
    next hun => exact ⟨c, rfl, hun.1⟩
    next => exact ⟨_, rfl, rfl⟩

theorem vmStep_shown_iff {ns : String} {i : Inventory δ} {d : VmSpecPartial δ} (hm : d.metadata.isSome) :
    (∃ v, (vmRounds E reload ns).step (i.vms (genKey d.name (some ns))) d = some v ∧ shownVm v.spec = d) ↔
      VmAgain ns i d := by
  unfold VmAgain vmRounds
  cases i.vms (genKey d.name (some ns)) with
  | none => simp only [roundStep, Option.some.injEq, exists_eq_left', shownVm_createdVm_ne, reduceCtorEq, false_and,
      exists_false]
  | some v =>
    simp only [roundStep, Bool.and_eq_true, decide_eq_true_eq, Bool.not_eq_true']
    split
    next hun => exact iff_of_true ⟨v, rfl, hun.1⟩ ⟨v, rfl, patchFits_of_shown hun.1⟩
    next =>
      simp only [Option.some.injEq, exists_eq_left']
      rw [shownVm_patchedVm hm (rfl : d = _), hostConfig_declared_iff]
      exact and_left_comm

theorem resourceStep_shown_iff {i : Inventory δ} {d : ResourcePartial δ} :
    (resourceRounds E reload).step (i.resources d.name) d = some d ↔ ResourceAgain E reload i d := by
  unfold ResourceAgain resourceRounds
  cases i.resources d.name with
  | none =>
    simp only [roundStep, Option.some.injEq]
    constructor
    · intro h
      exact ⟨congrArg ResourcePartial.kind h, congrArg ResourcePartial.data h⟩
    · intro h
      rw [h.1, h.2]
  | some r =>
    simp only [roundStep, Bool.and_eq_true, decide_eq_true_eq, Bool.not_eq_true']
    split
    next hun => exact iff_of_true (congrArg some hun.1) (.inl hun)
    next hun =>
      rw [or_iff_right (by simpa using hun), Option.some.injEq]
      constructor
      · intro h
        obtain ⟨hkind, hdata⟩ := Prod.mk.inj (congrArg (fun p : ResourcePartial δ => (p.kind, p.data)) h)
        rw [hkind] at hdata
        exact ⟨hkind, hdata⟩
      · intro h
        rw [h.1, h.2]

omit [DecidableEq δ] in
/-- the declarations depend on JSON alone -/
theorem declare_congr {E' : ApplyEnv δ} (hinsert : E'.insert = E.insert) (hobject : E'.object = E.object)
    (state : StateRef δ) : declare E' state = declare E state := by
  have hlabel : insertNanoclGroup E' = insertNanoclGroup E := by
    funext metadata group
    unfold insertNanoclGroup
    rw [hinsert, hobject]
  unfold declare labelSecret labelCargo labelVm labelResource
  rw [hlabel]

/-- **Idempotence.** A second command, without reload, that finds the daemon as the first one left it asks for nothing but
inspections and jobs exactly if, of the objects that were there before the first one, each secret and each VM fits its
declaration, none of the VMs was missing, and the controllers leave the data of the resources as they are declared. -/
theorem apply_again_iff {E' : ApplyEnv δ} {s'' : Session δ} {d : Declared δ} (hd : declare E state = some d)
    (hdistinct : d.Distinct) (h : applyState E reload state s = (.ok (), s')) (hinspects : E'.Inspects)
    (hinsert : E'.insert = E.insert) (hobject : E'.object = E.object)
    (h' : applyState E' false state s' = (.ok (), s'')) : Silent s' s'' ↔ d.Again E reload s.inventory := by
  have hd' := (declare_congr hinsert hobject state).trans hd
  obtain ⟨d', hd'', hi⟩ := applyState_ok h
  obtain rfl := Option.some.inj (hd''.symm.trans hd)
  obtain ⟨hms, hmv⟩ := metadata_of_mem hd
  rw [applyState_quiet hinspects hd' h', hi]
  have hsecrets : (∀ a ∈ d'.secrets, secretRounds.reconcile s.inventory.secrets d'.secrets a.name = some a) ↔
      ∀ a ∈ d'.secrets, SecretFits s.inventory a :=
    (secretRounds.reconcile_meets_iff (fun v a => v = some a) hdistinct.secrets _).trans
      (forall₂_congr fun a ha => secretStep_iff (hms a ha))
  have hcargoes := (cargoRounds E reload d'.ns).reconcile_meets_iff (fun v a => ∃ c, v = some c ∧ c.spec = a)
    hdistinct.cargoes s.inventory.cargoes
  have hvms := ((vmRounds E reload d'.ns).reconcile_meets_iff (fun v a => ∃ v', v = some v' ∧ shownVm v'.spec = a)
    hdistinct.vms s.inventory.vms).trans (forall₂_congr fun a ha => vmStep_shown_iff (hmv a ha))
  have hresources := ((resourceRounds E reload).reconcile_meets_iff (fun v a => v = some a) hdistinct.resources
    s.inventory.resources).trans (forall₂_congr fun a _ => resourceStep_shown_iff)
  constructor
  · intro hall
    exact ⟨hsecrets.1 hall.1, hvms.1 hall.2.2.1, hresources.1 hall.2.2.2⟩
  · intro hall
    exact ⟨hsecrets.2 hall.secrets, hcargoes.2 fun a _ => cargoStep_shown, hvms.2 hall.vms, hresources.2 hall.resources⟩

/-- a VM that the first command creates is patched by the second one -/
theorem vm_created_again :
    ¬ Silent (applyState quietEnv false webState ⟨emptyInventory, []⟩).2
      (applyState quietEnv false webState (applyState quietEnv false webState ⟨emptyInventory, []⟩).2).2 := by
  have h : applyState quietEnv false webState ⟨emptyInventory, []⟩ = (.ok (), _) := Prod.ext (by decide +kernel) rfl
  have h' : applyState quietEnv false webState (applyState quietEnv false webState ⟨emptyInventory, []⟩).2 =
      (.ok (), _) := Prod.ext (by decide +kernel) rfl
  intro hsilent
  have hagain := (apply_again_iff (d := webDeclared) rfl webDeclared_distinct h (fun _ _ => rfl) rfl rfl h').1 hsilent
  obtain ⟨v, hv, -⟩ := hagain.vms _ (List.mem_singleton_self _)
  cases hv

end Command

end Nanocl.Cli
