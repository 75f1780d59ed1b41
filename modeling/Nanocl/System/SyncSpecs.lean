/-
Whether a restart of the daemon preserves the specs of the stored cargoes.

The pass compares the configuration of the first container of a cargo with the container of its spec, and replaces the
whole spec where they differ. The spec it writes has a name and a container only.

Results:
- `specs_kept_iff`: over any number of passes, each with any containers in any order, every stored cargo keeps its spec
  and its history exactly if the first container of it that each pass reaches has the configuration of its spec.
- `spec_lost_of_instance`: an instance that `create` made of the current spec never has it, as it has one more bind.
- `specs_lost`: a cargo with three replicas and one of its instances; after a restart it has one replica.
-/
import Nanocl.Lib.Transition
import Nanocl.Runtime.Cargo
import Nanocl.System.Sync

namespace Nanocl.Sync

open Nanocl.Lib Nanocl.Status

section

variable {κ η ν : Type} [DecidableEq κ] [DecidableEq η] [DecidableEq ν] [Inhabited κ]

/-- one start of the daemon: what docker lists, and what it answers -/
abbrev SyncOp (κ η : Type) := Env κ η × List ContainerSummary

def step (s : Store κ η ν) (o : SyncOp κ η) : Store κ η ν := (syncProcesses o.1 o.2 s).2

/-! ## Property and condition -/

/-- the pass leaves the spec of every stored cargo, and adds nothing to its history -/
def SpecsKept (s : Store κ η ν) (o : SyncOp κ η) : Prop :=
  ∀ key cargo, s.cargoes key = some cargo →
    (step s o).history key = s.history key ∧ ∃ cargo', (step s o).cargoes key = some cargo' ∧ cargo'.spec = cargo.spec

/-- the containers that the pass reaches: all up to the first one that fails -/
def reached (s : Store κ η ν) (o : SyncOp κ η) : List ContainerSummary := o.2.takeWhile (syncable o.1 s)

/-- the first container of every stored cargo has the configuration of its spec -/
def FirstMatches (s : Store κ η ν) (o : SyncOp κ η) : Prop :=
  ∀ key cargo c container, s.cargoes key = some cargo → first subject (reached s o) key = some c →
    o.1.inspect (c.id.getD "") = .ok container → configOf container = cargo.spec.data.container

/-! ## Passes -/

omit [DecidableEq κ] [DecidableEq η] [DecidableEq ν] [Inhabited κ] in
/-- a container that the pass reaches and that may decide a cargo was inspected, and its key has two parts -/
theorem inspect_of_first {s : Store κ η ν} {o : SyncOp κ η} {key : String} {c : ContainerSummary}
    (h : first subject (reached s o) key = some c) :
    subject c = some key ∧ (∃ container, o.1.inspect (c.id.getD "") = .ok container) ∧
      ∃ name nsp, splitKey key = some (name, nsp) := by
  obtain ⟨hmem, hsub⟩ := first_eq_some subject h
  have hok : syncable o.1 s c = true := List.mem_takeWhile_imp hmem
  obtain ⟨hkey, hsplit⟩ := subject_eq_some.1 hsub
  refine ⟨hsub, ?_, ?_⟩
  · cases hin : o.1.inspect (c.id.getD "") with
    | error message => simp [syncable, hkey, hin] at hok
    | ok container => exact ⟨container, rfl⟩
  · obtain ⟨p, hp⟩ := Option.isSome_iff_exists.1 hsplit
    exact ⟨p.1, p.2, hp⟩

/-- what a pass leaves of a stored cargo that none of its containers decides -/
theorem step_of_none {s : Store κ η ν} {o : SyncOp κ η} {key : String} {cargo : CargoDb κ η ν}
    (hc : s.cargoes key = some cargo) (hf : first subject (reached s o) key = none) :
    (step s o).history key = s.history key ∧ (step s o).cargoes key = some cargo := by
  have hpass := syncProcesses_eq o.1 o.2 s key
  have hv : applyFirsts subject (act o.1) (o.2.takeWhile (syncable o.1 s)) s.entry key = s.entry key := by
    unfold applyFirsts
    rw [show first subject (o.2.takeWhile (syncable o.1 s)) key = none from hf]
  rw [hv] at hpass
  exact ⟨hpass.2.2 (by simp [settled, hc]), hpass.1.trans hc⟩

/-- what a pass leaves of a stored cargo that a container decides -/
theorem step_of_first {s : Store κ η ν} {o : SyncOp κ η} {key name nsp : String} {cargo : CargoDb κ η ν}
    {c : ContainerSummary} {container : ContainerInspectResponse κ η} (hc : s.cargoes key = some cargo)
    (hf : first subject (reached s o) key = some c) (hin : o.1.inspect (c.id.getD "") = .ok container)
    (hsplit : splitKey key = some (name, nsp)) :
    (step s o).history key = (decide_ o.1 name nsp container (s.entry key)).history ∧
      (step s o).cargoes key = (decide_ o.1 name nsp container (s.entry key)).cargo := by
  have hpass := syncProcesses_eq o.1 o.2 s key
  have hv : applyFirsts subject (act o.1) (o.2.takeWhile (syncable o.1 s)) s.entry key =
      decide_ o.1 name nsp container (s.entry key) := by
    unfold applyFirsts
    rw [show first subject (o.2.takeWhile (syncable o.1 s)) key = some c from hf]
    simp [act, (inspect_of_first hf).1, hin, hsplit]
  rw [hv] at hpass
  exact ⟨hpass.2.2 (by simp [settled, hc]), hpass.1⟩

theorem specsKept_iff (s : Store κ η ν) (o : SyncOp κ η) : SpecsKept s o ↔ FirstMatches s o := by
  constructor
  · intro h key cargo c container hc hf hin
    obtain ⟨name, nsp, hsplit⟩ := (inspect_of_first hf).2.2
    obtain ⟨hhist, -⟩ := h key cargo hc
    rw [(step_of_first hc hf hin hsplit).1] at hhist
    by_contra hne
    -- a spec that differs is one more entry of the history
    have hne' : cargo.spec.data.container ≠ configOf container := fun h => hne h.symm
    simp [decide_, Store.entry, hc, hne'] at hhist
  · intro h key cargo hc
    cases hf : first subject (reached s o) key with
    | none =>
      obtain ⟨hhist, hcargo⟩ := step_of_none hc hf
      exact ⟨hhist, cargo, hcargo, rfl⟩
    | some c =>
      obtain ⟨-, ⟨container, hin⟩, name, nsp, hsplit⟩ := inspect_of_first hf
      obtain ⟨hhist, hcargo⟩ := step_of_first hc hf hin hsplit
      have heq : cargo.spec.data.container = configOf container := (h key cargo c container hc hf hin).symm
      refine ⟨?_, cargo, ?_, rfl⟩
      · rw [hhist]
        simp [decide_, Store.entry, hc, heq]
      · rw [hcargo]
        simp [decide_, Store.entry, hc, heq]

/-- **Restarts keep the specs exactly where the first container of each cargo matches its spec.** -/
theorem specs_kept_iff (s : Store κ η ν) (ops : List (SyncOp κ η)) :
    Along step SpecsKept s ops ↔ Along step FirstMatches s ops :=
  along_congr_of_inv (I := fun _ => True) (fun _ _ _ => trivial) (fun s o _ => specsKept_iff s o) trivial ops

end

/-! ## The containers that the daemon creates -/

instance : Inhabited Runtime.Config := ⟨.default⟩

/-- the configuration of the tasks' model, as the pass sees it -/
def ofRuntime (c : Runtime.Config) : Config Runtime.Config Runtime.HostConfig Unit :=
  ⟨{ c with hostConfig := none }, c.hostConfig, none⟩

/-- what `create` asks docker for: the instance of the cargo with the internal data, and the labels of its process -/
def createdConfig (E : Runtime.Env) (cargo : Runtime.Cargo) (secretDir : String) (envSecrets : List String)
    (current : ℕ) : Runtime.Config :=
  let item := Runtime.instanceConfig E (cargo.inject E.internalGateway) secretDir envSecrets current
  { item with
    labels := some (Runtime.Labels.insert (Runtime.Labels.insert (item.labels.getD []) "io.nanocl" "enabled")
      "io.nanocl.kind" "cargo") }

/-- an instance never has the configuration of the spec it was made of: it has one more bind -/
theorem createdConfig_ne (E : Runtime.Env) (cargo : Runtime.Cargo) (secretDir : String) (envSecrets : List String)
    (current : ℕ) : ofRuntime (createdConfig E cargo secretDir envSecrets current) ≠ ofRuntime cargo.spec.container := by
  intro h
  have hhost := congrArg Config.hostConfig h
  have hbinds := congrArg (fun o => o.map fun h : Runtime.HostConfig => (h.binds.getD []).length) hhost
  cases hc : cargo.spec.container.hostConfig with
  | none => simp [ofRuntime, createdConfig, Runtime.instanceConfig, hc] at hbinds
  | some host =>
    cases hb : host.binds <;>
      simp [ofRuntime, createdConfig, Runtime.instanceConfig, Runtime.Cargo.inject, Runtime.Config.inject, hc, hb] at hbinds

/-- a pass that meets such an instance first replaces the spec -/
theorem spec_lost_of_instance (E : Runtime.Env) {cargo : Runtime.Cargo} {secretDir : String} {envSecrets : List String}
    {current : ℕ} {s : Store Runtime.Config Runtime.HostConfig Unit} {o : SyncOp Runtime.Config Runtime.HostConfig}
    {key : String} {row : CargoDb Runtime.Config Runtime.HostConfig Unit} {c : ContainerSummary}
    {container : ContainerInspectResponse Runtime.Config Runtime.HostConfig} (hrow : s.cargoes key = some row)
    (hspec : row.spec.data.container = ofRuntime cargo.spec.container) (hfirst : first subject (reached s o) key = some c)
    (hin : o.1.inspect (c.id.getD "") = .ok container)
    (hcreated : configOf container = ofRuntime (createdConfig E cargo secretDir envSecrets current)) :
    ¬ SpecsKept s o := by
  intro h
  have hmatch := (specsKept_iff s o).1 h key row c container hrow hfirst hin
  rw [hcreated, hspec] at hmatch
  exact createdConfig_ne E cargo secretDir envSecrets current hmatch

/-! ## A cargo with three replicas -/

def web : Runtime.Cargo :=
  ⟨"web.global", "global", ⟨"web", none, none, none, none, { Runtime.Config.default with image := some "nginx:1.25" },
    some (.static ⟨3⟩)⟩⟩

/-- the store once the cargo is created and started -/
def webStore : Store Runtime.Config Runtime.HostConfig Unit where
  cargoes key := if key = "web.global" then some webRow else none
  history key := if key = "web.global" then [webRow.spec] else []
  statuses key := if key = "web.global" then some ⟨.start, .create, .start, .starting⟩ else none
  namespaces := ["global"]
  processes := []
  status_of_cargo key h := by
    by_cases hk : key = "web.global" <;> simp_all
where
  webRow : CargoDb Runtime.Config Runtime.HostConfig Unit :=
    ⟨"web", "global", "v0.16.0", ⟨"web", none, none, none, ofRuntime web.spec.container, some (.static ⟨3⟩), none, none⟩⟩

/-- its first instance, as docker reports it -/
def webInstance : ContainerInspectResponse Runtime.Config Runtime.HostConfig :=
  let config := createdConfig Runtime.Env.plain web "/secrets" [] 0
  ⟨some "2024-10-01T00:00:00Z", some "/web-a1b2c3.global.c", some .running, some { config with hostConfig := none },
    config.hostConfig⟩

def restart : SyncOp Runtime.Config Runtime.HostConfig :=
  (⟨"node", "v0.16.0", fun _ => .ok webInstance, fun _ => some 0, Char.isAlphanum⟩,
    [⟨some "c1", some [("io.nanocl.kind", "cargo"), ("io.nanocl.c", "web.global")]⟩])

theorem specs_lost :
    ¬ ∀ (s : Store Runtime.Config Runtime.HostConfig Unit) (ops : List (SyncOp Runtime.Config Runtime.HostConfig)),
      Along step SpecsKept s ops := by
  intro h
  exact @spec_lost_of_instance Runtime.Env.plain web "/secrets" [] 0 webStore restart "web.global" webStore.webRow _
    webInstance rfl rfl rfl rfl rfl (h webStore [restart]).1

end Nanocl.Sync
