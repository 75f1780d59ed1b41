/-
What a patch leaves alone (`CargoDb::fn_patch_obj_by_pk`, `VmDb::fn_patch_obj_by_pk`).

The new specification is put together field by field. A field that the patch gives has the given value; one that it does
not give has the old value; the variables and the binds of the container are merged. For a VM this holds of every patch. For
a cargo it does not: the name of the patch is not read, the replication is that of the patch even where it has none, and of
the container only the command, the image, the variables and the binds are.

- `VmFrame`, `CargoFrame`: the frame of a patch.
- `patch_frame_iff`: patches of VMs keep it, and those of cargoes exactly if they give nothing that the code does not read.
- `empty_patch_unscales`: the empty patch takes the replication away.
-/
import Nanocl.Objects.Vm

namespace Nanocl.Objects

variable {δ : Type}

/-! ## Property -/

/-- a field is the given one, or the old one where none is given -/
def Field {α : Type} (old given new : Option α) : Prop := new = given.or old

/-- binds that are added to others: those that are not there yet -/
def mergeBinds (binds given : List String) : List String :=
  given.foldl (fun vs v => if v ∈ vs then vs else vs ++ [v]) binds

/-- what a patch makes of the fields of a host configuration; binds that are given are merged -/
structure HostConfigFrame (old given new : Runtime.HostConfig) : Prop where
  binds : new.binds = match given.binds with
    | some binds => some (mergeBinds (old.binds.getD []) binds)
    | none => old.binds
  networkMode : Field old.networkMode given.networkMode new.networkMode
  restartPolicy : Field old.restartPolicy given.restartPolicy new.restartPolicy
  autoRemove : Field old.autoRemove given.autoRemove new.autoRemove
  devices : Field old.devices given.devices new.devices
  capAdd : Field old.capAdd given.capAdd new.capAdd
  others : ∀ f, Field (old.others.lookup f) (given.others.lookup f) (new.others.lookup f)

/-- what a patch makes of the fields of a container; variables that are given are merged -/
structure ConfigFrame (old given new : Runtime.Config) : Prop where
  image : Field old.image given.image new.image
  env : new.env = match given.env with
    | some envVars => some (envVars.foldl mergeEnvVar (old.env.getD []))
    | none => old.env
  labels : Field old.labels given.labels new.labels
  hostname : Field old.hostname given.hostname new.hostname
  tty : Field old.tty given.tty new.tty
  attachStderr : Field old.attachStderr given.attachStderr new.attachStderr
  attachStdout : Field old.attachStdout given.attachStdout new.attachStdout
  hostConfig : match given.hostConfig with
    | some given => ∃ config, new.hostConfig = some config ∧ HostConfigFrame (old.hostConfig.getD .default) given config
    | none => new.hostConfig = old.hostConfig
  cmd : Field old.cmd given.cmd new.cmd
  attachStdin : Field old.attachStdin given.attachStdin new.attachStdin
  openStdin : Field old.openStdin given.openStdin new.openStdin
  others : ∀ f, Field (old.others.lookup f) (given.others.lookup f) (new.others.lookup f)

/-- what a patch makes of the fields of a cargo -/
structure CargoFrame (old : CargoSpec δ) (given : CargoSpecUpdate δ) (new : CargoSpecPartial δ) : Prop where
  name : Field (some old.name) given.name (some new.name)
  metadata : Field old.metadata given.metadata new.metadata
  initContainer : Field old.initContainer given.initContainer new.initContainer
  secrets : Field old.secrets given.secrets new.secrets
  imagePullSecret : Field old.imagePullSecret given.imagePullSecret new.imagePullSecret
  imagePullPolicy : Field old.imagePullPolicy given.imagePullPolicy new.imagePullPolicy
  container : match given.container with
    | some given => ConfigFrame old.container given new.container
    | none => new.container = old.container
  replication : Field old.replication given.replication new.replication

/-- a VM as it is read: its host configuration is there -/
structure ReadVm (δ : Type) where
  spec : VmSpec δ
  hostConfig : spec.hostConfig.isSome

/-- what is read of a row is one -/
def ReadVm.of (E : Env δ) (s : SpecDb δ) {spec : VmSpec δ} (h : tryToVmSpec E s = .ok spec) : ReadVm δ where
  spec := spec
  hostConfig := by
    unfold tryToVmSpec at h
    cases hp : serde (E.vmSpec.fromValue s.data) with
    | error e => simp [hp, bind, Except.bind] at h
    | ok p =>
      simp only [hp, bind, Except.bind, pure, Except.pure, Except.ok.injEq] at h
      rw [← h]
      rfl

/-- what a patch makes of the fields of a VM; no patch gives the disk and the address -/
structure VmFrame (old : VmSpec δ) (given : VmSpecUpdate δ) (new : VmSpecPartial δ) : Prop where
  name : Field (some old.name) given.name (some new.name)
  metadata : Field old.metadata given.metadata new.metadata
  hostname : Field old.hostname given.hostname new.hostname
  user : Field old.user given.user new.user
  password : Field old.password given.password new.password
  sshKey : Field old.sshKey given.sshKey new.sshKey
  disk : new.disk = old.disk
  macAddress : new.macAddress = old.macAddress
  labels : Field old.labels given.labels new.labels
  hostConfig : Field old.hostConfig given.hostConfig new.hostConfig

/-! ## Condition -/

/-- the patch does not give the field, or gives what is there -/
def Idle {α : Type} (old given : Option α) : Prop := ∀ a, given = some a → old = some a

/-- of the host configuration the patch gives binds, if it gives any of it, and there are binds to give or to add to -/
structure HostConfigFits (old : Option Runtime.HostConfig) (given : Runtime.HostConfig) : Prop where
  there : old.isSome ∨ given.binds.getD [] ≠ []
  binds : given.binds.isSome ∨ (old.getD .default).binds.isSome
  networkMode : Idle (old.getD .default).networkMode given.networkMode
  restartPolicy : Idle (old.getD .default).restartPolicy given.restartPolicy
  autoRemove : Idle (old.getD .default).autoRemove given.autoRemove
  devices : Idle (old.getD .default).devices given.devices
  capAdd : Idle (old.getD .default).capAdd given.capAdd
  others : ∀ f, Idle ((old.getD .default).others.lookup f) (given.others.lookup f)

/-- of the container the patch gives the command, the image, the variables and the host configuration only -/
structure ConfigFits (old given : Runtime.Config) : Prop where
  env : given.env.isSome ∨ old.env.isSome
  labels : Idle old.labels given.labels
  hostname : Idle old.hostname given.hostname
  tty : Idle old.tty given.tty
  attachStderr : Idle old.attachStderr given.attachStderr
  attachStdout : Idle old.attachStdout given.attachStdout
  hostConfig : match given.hostConfig with
    | some given => HostConfigFits old.hostConfig given
    | none => ∀ config, old.hostConfig = some config → config.binds.isSome
  attachStdin : Idle old.attachStdin given.attachStdin
  openStdin : Idle old.openStdin given.openStdin
  others : ∀ f, Idle (old.others.lookup f) (given.others.lookup f)

/-- the patch gives nothing that the code does not read, and the replication if the cargo has one -/
structure CargoFits (old : CargoSpec δ) (given : CargoSpecUpdate δ) : Prop where
  name : Idle (some old.name) given.name
  container : ∀ c, given.container = some c → ConfigFits old.container c
  replication : given.replication = none → old.replication = none

/-! ## Proof -/

/-- a field that is left as it is -/
theorem field_self_iff {α : Type} {old given : Option α} : Field old given old ↔ Idle old given := by
  cases given with
  | none => exact iff_of_true rfl nofun
  | some a => exact ⟨fun h b hb => h.trans hb, fun h => h a rfl⟩

/-- a field that is always the given one -/
theorem field_given_iff {α : Type} {old given : Option α} : Field old given given ↔ (given = none → old = none) := by
  cases given with
  | none => exact ⟨fun h _ => h.symm, fun h => (h rfl).symm⟩
  | some a => exact iff_of_true rfl nofun

/-- binds of a host configuration that are kept apart from it -/
theorem binds_self_iff {config : Runtime.HostConfig} :
    { config with binds := some (config.binds.getD []) } = config ↔ config.binds.isSome := by
  constructor
  · intro h
    rw [← h]
    rfl
  · intro h
    obtain ⟨binds, hb⟩ := Option.isSome_iff_exists.1 h
    have hget : some (config.binds.getD []) = config.binds := by rw [hb, Option.getD_some]
    rw [hget]

theorem hostConfigFrame_iff {old given : Runtime.HostConfig} :
    HostConfigFrame old given { old with binds := some (mergeBinds (old.binds.getD []) (given.binds.getD [])) } ↔
      (given.binds.isSome ∨ old.binds.isSome) ∧ Idle old.networkMode given.networkMode ∧
        Idle old.restartPolicy given.restartPolicy ∧ Idle old.autoRemove given.autoRemove ∧ Idle old.devices given.devices ∧
        Idle old.capAdd given.capAdd ∧ ∀ f, Idle (old.others.lookup f) (given.others.lookup f) := by
  have hbinds : (some (mergeBinds (old.binds.getD []) (given.binds.getD [])) = match given.binds with
      | some binds => some (mergeBinds (old.binds.getD []) binds)
      | none => old.binds) ↔ given.binds.isSome ∨ old.binds.isSome := by
    cases given.binds with
    | some binds => exact iff_of_true rfl (.inl rfl)
    | none =>
      cases hold : old.binds with
      | some binds => exact iff_of_true rfl (.inr rfl)
      | none => exact iff_of_false nofun nofun
  constructor
  · intro h
    exact ⟨hbinds.1 h.binds, field_self_iff.1 h.networkMode, field_self_iff.1 h.restartPolicy, field_self_iff.1 h.autoRemove,
      field_self_iff.1 h.devices, field_self_iff.1 h.capAdd, fun f => field_self_iff.1 (h.others f)⟩
  · rintro ⟨hb, h1, h2, h3, h4, h5, h6⟩
    exact ⟨hbinds.2 hb, field_self_iff.2 h1, field_self_iff.2 h2, field_self_iff.2 h3, field_self_iff.2 h4,
      field_self_iff.2 h5, fun f => field_self_iff.2 (h6 f)⟩

/-- the host configuration of a patched container -/
theorem hostConfig_mergeContainer (current container : Runtime.Config) :
    (mergeContainer current container).hostConfig =
      let old := current.hostConfig.getD .default
      let binds := mergeBinds (old.binds.getD []) (((container.hostConfig.getD .default).binds).getD [])
      if binds ≠ [] ∨ current.hostConfig.isSome then some { old with binds := some binds } else none := rfl

theorem addBind_ne_nil (binds : List String) (v : String) : (if v ∈ binds then binds else binds ++ [v]) ≠ [] := by
  split_ifs with h
  · exact List.ne_nil_of_mem h
  · exact List.append_ne_nil_of_right_ne_nil _ (List.cons_ne_nil _ _)

theorem mergeBinds_ne_nil {binds given : List String} : mergeBinds binds given ≠ [] ↔ binds ≠ [] ∨ given ≠ [] := by
  have hgrows : ∀ (given binds : List String), binds ≠ [] → mergeBinds binds given ≠ [] := by
    intro given
    induction given with
    | nil => exact fun _ h => h
    | cons v given ih => exact fun binds _ => ih _ (addBind_ne_nil binds v)
  cases given with
  | nil => exact ⟨.inl, fun h => h.resolve_right fun h => h rfl⟩
  | cons v given => exact iff_of_true (hgrows given _ (addBind_ne_nil binds v)) (.inr (List.cons_ne_nil _ _))

theorem hostConfig_iff (current container : Runtime.Config) :
    (match container.hostConfig with
      | some given => ∃ config, (mergeContainer current container).hostConfig = some config ∧
          HostConfigFrame (current.hostConfig.getD .default) given config
      | none => (mergeContainer current container).hostConfig = current.hostConfig) ↔
    match container.hostConfig with
      | some given => HostConfigFits current.hostConfig given
      | none => ∀ config, current.hostConfig = some config → config.binds.isSome := by
  rw [hostConfig_mergeContainer]
  cases hgiven : container.hostConfig with
  | none =>
    cases hold : current.hostConfig with
    | none => exact iff_of_true rfl nofun
    | some config =>
      have hbinds : mergeBinds (config.binds.getD []) [] = config.binds.getD [] := rfl
      simp only [Option.getD_some, Option.getD_none, Option.isSome_some, or_true, if_true, Option.some.injEq,
        Runtime.HostConfig.default, hbinds, binds_self_iff, forall_eq']
  | some given =>
    simp only [Option.getD_some]
    set old := current.hostConfig.getD .default with hdefault
    set binds := mergeBinds (old.binds.getD []) (given.binds.getD []) with hbinds
    have hthere : (binds ≠ [] ∨ current.hostConfig.isSome) ↔ (current.hostConfig.isSome ∨ given.binds.getD [] ≠ []) := by
      rw [hbinds, mergeBinds_ne_nil, hdefault]
      cases current.hostConfig with
      | none => simp [Runtime.HostConfig.default]
      | some config => simp
    by_cases h : binds ≠ [] ∨ current.hostConfig.isSome
    · rw [if_pos h]
      constructor
      · rintro ⟨config, hconfig, hframe⟩
        rw [← Option.some.inj hconfig] at hframe
        obtain ⟨hb, h1, h2, h3, h4, h5, h6⟩ := hostConfigFrame_iff.1 hframe
        exact ⟨hthere.1 h, hb, h1, h2, h3, h4, h5, h6⟩
      · intro hfits
        exact ⟨_, rfl, hostConfigFrame_iff.2 ⟨hfits.binds, hfits.networkMode, hfits.restartPolicy, hfits.autoRemove,
          hfits.devices, hfits.capAdd, hfits.others⟩⟩
    · rw [if_neg h]
      exact iff_of_false (fun ⟨_, hconfig, _⟩ => by cases hconfig) fun hfits => h (hthere.2 hfits.there)

theorem configFrame_iff {current container : Runtime.Config} :
    ConfigFrame current container (mergeContainer current container) ↔ ConfigFits current container := by
  have henv : ((mergeContainer current container).env = match container.env with
      | some envVars => some (envVars.foldl mergeEnvVar (current.env.getD []))
      | none => current.env) ↔ container.env.isSome ∨ current.env.isSome := by
    change (some ((container.env.getD []).foldl mergeEnvVar (current.env.getD [])) = _) ↔ _
    cases container.env with
    | some envVars => exact iff_of_true rfl (.inl rfl)
    | none =>
      cases current.env with
      | some envVars => exact iff_of_true rfl (.inr rfl)
      | none => exact iff_of_false nofun nofun
  constructor
  · intro h
    exact ⟨henv.1 h.env, field_self_iff.1 h.labels, field_self_iff.1 h.hostname, field_self_iff.1 h.tty,
      field_self_iff.1 h.attachStderr, field_self_iff.1 h.attachStdout, (hostConfig_iff current container).1 h.hostConfig,
      field_self_iff.1 h.attachStdin, field_self_iff.1 h.openStdin, fun f => field_self_iff.1 (h.others f)⟩
  · intro h
    exact ⟨rfl, henv.2 h.env, field_self_iff.2 h.labels, field_self_iff.2 h.hostname, field_self_iff.2 h.tty,
      field_self_iff.2 h.attachStderr, field_self_iff.2 h.attachStdout, (hostConfig_iff current container).2 h.hostConfig,
      rfl, field_self_iff.2 h.attachStdin, field_self_iff.2 h.openStdin, fun f => field_self_iff.2 (h.others f)⟩

theorem cargoFrame_iff {current : CargoSpec δ} {update : CargoSpecUpdate δ} :
    CargoFrame current update (patchCargoSpec current update) ↔ CargoFits current update := by
  have hcontainer : (match update.container with
      | some given => ConfigFrame current.container given (patchCargoSpec current update).container
      | none => (patchCargoSpec current update).container = current.container) ↔
      ∀ c, update.container = some c → ConfigFits current.container c := by
    have hnew : (patchCargoSpec current update).container = match update.container with
      | some container => mergeContainer current.container container
      | none => current.container := rfl
    rw [hnew]
    cases update.container with
    | none => exact iff_of_true rfl fun c hc => by cases hc
    | some c =>
      refine configFrame_iff.trans ⟨fun h c' hc' => ?_, fun h => h c rfl⟩
      rw [← Option.some.inj hc']
      exact h
  constructor
  · intro h
    exact ⟨field_self_iff.1 h.name, hcontainer.1 h.container, field_given_iff.1 h.replication⟩
  · intro h
    exact ⟨field_self_iff.2 h.name, rfl, rfl, rfl, rfl, rfl, hcontainer.2 h.container, field_given_iff.2 h.replication⟩

theorem vmFrame (vm : ReadVm δ) (update : VmSpecUpdate δ) : VmFrame vm.spec update (patchVmSpec vm.spec.name vm.spec update) := by
  obtain ⟨config, hconfig⟩ := Option.isSome_iff_exists.1 vm.hostConfig
  refine ⟨?_, rfl, rfl, rfl, rfl, rfl, rfl, rfl, rfl, ?_⟩
  · change some (update.name.getD vm.spec.name) = update.name.or (some vm.spec.name)
    cases update.name <;> rfl
  · change some (update.hostConfig.getD (vm.spec.hostConfig.getD .default)) = update.hostConfig.or vm.spec.hostConfig
    rw [hconfig]
    cases update.hostConfig <;> rfl

/-- **What a patch leaves alone**: of a VM all that it does not give; of a cargo as well exactly if it gives nothing that
the code does not read, the replication if the cargo has one, and something where the code writes an empty list. -/
theorem patch_frame_iff :
    (∀ (vm : ReadVm δ) (update : VmSpecUpdate δ), VmFrame vm.spec update (patchVmSpec vm.spec.name vm.spec update)) ∧
    ∀ (cargo : CargoSpec δ) (update : CargoSpecUpdate δ),
      CargoFrame cargo update (patchCargoSpec cargo update) ↔ CargoFits cargo update :=
  ⟨vmFrame, fun _ _ => cargoFrame_iff⟩

/-- a cargo with two instances, and the empty patch -/
theorem empty_patch_unscales :
    ¬ ∀ (cargo : CargoSpec Value) (update : CargoSpecUpdate Value), CargoFrame cargo update (patchCargoSpec cargo update) := by
  intro h
  have hcargo := h { webSpec with replication := some (.static ⟨2⟩), key := 0, cargoKey := "web.global", version := "v0.16" }
    ⟨none, none, none, none, none, none, none, none⟩
  exact nomatch hcargo.replication

end Nanocl.Objects
