/-
The binds of a cargo that the command line hooks (`utils/docker.rs`): a relative host path is joined to the current
directory, for the states it applies and for the containers it creates itself.

`hook_binds` looks at the binds of two parts only, so a bind with options keeps its relative path.

- `hookBind_eq_iff`: the binds it makes absolute as they should be.

- `hookBind_again`: hooking once more changes nothing.

- `hook_binds_iff`: the cargo is hooked as it should be exactly if no bind with options has a relative host path.

Counterexample: `options_stay_relative`.
-/
import Nanocl.Lib.Split
import Nanocl.Objects.Tables

namespace Nanocl.Cli

open Nanocl.Lib Nanocl.Objects

variable {δ : Type}

/-! ## The code -/

/-- the directory a process works in, as `current_dir` gives it -/
structure CurrentDir where
  path : List Char
  absolute : path.head? = some '/'

/-- `Path::join` of a relative path -/
def CurrentDir.join (dir : CurrentDir) (path : List Char) : List Char :=
  if dir.path.getLast? = some '/' then dir.path ++ path else dir.path ++ '/' :: path

/-- `host_path.starts_with('.')` -/
def startsWithDot (path : List Char) : Bool := path.head? == some '.'

/-- the loop of `hook_binds` on one bind; `none` if there is no current directory -/
def hookBind (currentDir : Option CurrentDir) (bind : String) : Option String :=
  match bind.toList.splitOn ':' with
  | [hostPath, containerPath] =>
    if startsWithDot hostPath then
      currentDir.map fun dir => String.ofList (dir.join hostPath ++ ':' :: containerPath)
    else some bind
  | _ => some bind

def hookBinds (currentDir : Option CurrentDir) (cargo : CargoSpecPartial δ) : Option (CargoSpecPartial δ) :=
  match cargo.container.hostConfig with
  | none => some cargo
  | some hostConfig =>
    match hostConfig.binds with
    | none => some cargo
    | some binds => do
      let newBinds ← binds.mapM (hookBind currentDir)
      some { cargo with container := { cargo.container with
        hostConfig := some { hostConfig with binds := some newBinds } } }

/-- `hook_cargoes` of the states that are applied -/
def hookCargoes (currentDir : Option CurrentDir) (cargoes : List (CargoSpecPartial δ)) :
    Option (List (CargoSpecPartial δ)) :=
  cargoes.mapM (hookBinds currentDir)

/-! ## What it is for -/

/-- the bind with an absolute host path: what follows the host path is kept -/
def absoluteBind (dir : CurrentDir) (bind : String) : String :=
  match cutAt ':' bind.toList with
  | (host, some rest) => if startsWithDot host then String.ofList (dir.join host ++ ':' :: rest) else bind
  | _ => bind

/-- the binds of a cargo -/
def bindsOf (cargo : CargoSpecPartial δ) : List String :=
  (cargo.container.hostConfig.bind Runtime.HostConfig.binds).getD []

/-- the cargo with other binds, in the same places -/
def mapBinds (f : String → String) (cargo : CargoSpecPartial δ) : CargoSpecPartial δ :=
  { cargo with container := { cargo.container with
      hostConfig := cargo.container.hostConfig.map fun h => { h with binds := h.binds.map (List.map f) } } }

/-- `host:container` or `host:container:options` -/
def IsBind (bind : String) : Prop := (bind.toList.splitOn ':').length = 2 ∨ (bind.toList.splitOn ':').length = 3

/-- a bind with options whose host path is relative -/
def RelativeWithOptions (bind : String) : Prop :=
  ∃ host container options, bind.toList.splitOn ':' = [host, container, options] ∧ startsWithDot host = true

/-! ## One bind -/

variable (dir : CurrentDir)

/-- a bind as the loop leaves it where there is a current directory -/
def hookedBind (bind : String) : String := (hookBind (some dir) bind).getD bind

theorem hookBind_some (bind : String) : hookBind (some dir) bind = some (hookedBind dir bind) := by
  unfold hookedBind hookBind
  split
  · split_ifs <;> rfl
  · rfl

variable {dir}

theorem head_join (path : List Char) : (dir.join path).head? = some '/' := by
  have happend (l : List Char) : (dir.path ++ l).head? = some '/' := by
    rw [List.head?_append, dir.absolute]
    rfl
  unfold CurrentDir.join
  split_ifs
  · exact happend path
  · exact happend ('/' :: path)

/-- a bind of two parts is hooked as it should be -/
theorem hookedBind_pair {bind : String} {host container : List Char} (h : bind.toList.splitOn ':' = [host, container]) :
    hookedBind dir bind = absoluteBind dir bind := by
  obtain ⟨hhost, -, hbind⟩ := splitOn_pair.1 h
  rw [hookedBind, hookBind, h, absoluteBind, ← hbind, cutAt_append hhost]
  dsimp only
  split_ifs <;> rfl

/-- and a bind with options stays as it is -/
theorem hookedBind_triple {bind : String} {host container options : List Char}
    (h : bind.toList.splitOn ':' = [host, container, options]) : hookedBind dir bind = bind := by
  rw [hookedBind, hookBind, h]
  rfl

theorem absoluteBind_triple {bind : String} {host container options : List Char}
    (h : bind.toList.splitOn ':' = [host, container, options]) :
    absoluteBind dir bind = bind ↔ startsWithDot host = false := by
  obtain ⟨hhost, -, -, hbind⟩ := splitOn_triple.1 h
  rw [List.append_assoc, List.cons_append] at hbind
  rw [absoluteBind, ← hbind, cutAt_append hhost]
  dsimp only
  split_ifs with hdot
  · -- the path is absolute afterwards, so the bind is another one
    refine iff_of_false (fun heq => ?_) (by rw [hdot]; decide)
    have hhead := congrArg (fun s : String => s.toList.head?) heq
    rw [String.toList_ofList, ← hbind, List.head?_append, List.head?_append, head_join] at hhead
    rw [startsWithDot, beq_iff_eq] at hdot
    rw [hdot] at hhead
    cases hhead
  · exact iff_of_true rfl (Bool.eq_false_iff.2 hdot)

/-- the binds that are made absolute as they should be -/
theorem hookedBind_eq_iff {bind : String} (hbind : IsBind bind) :
    hookedBind dir bind = absoluteBind dir bind ↔ ¬ RelativeWithOptions bind := by
  rcases hbind with hlen | hlen
  · obtain ⟨host, container, h⟩ := List.length_eq_two.1 hlen
    refine iff_of_true (hookedBind_pair h) ?_
    rintro ⟨_, _, _, h', -⟩
    rw [h] at h'
    cases h'
  · obtain ⟨host, container, options, h⟩ := List.length_eq_three.1 hlen
    rw [hookedBind_triple h, eq_comm, absoluteBind_triple h]
    constructor
    · rintro hdot ⟨host', _, _, h', hdot'⟩
      rw [h] at h'
      obtain rfl := (List.cons.inj h').1
      rw [hdot] at hdot'
      cases hdot'
    · intro hno
      rw [← Bool.not_eq_true]
      exact fun hdot => hno ⟨host, container, options, h, hdot⟩

/-- hooking a bind once more changes nothing, wherever that is done -/
theorem hookBind_again (currentDir : Option CurrentDir) (bind : String) :
    hookBind currentDir (hookedBind dir bind) = some (hookedBind dir bind) := by
  have hskip {bind : String}
      (h : ∀ host container, bind.toList.splitOn ':' = [host, container] → startsWithDot host = false) :
      hookBind currentDir bind = some bind := by
    unfold hookBind
    split
    · next host container heq => rw [h host container heq]; rfl
    · rfl
  refine hskip fun host container h => ?_
  rw [hookedBind, hookBind] at h
  split at h
  · next host' container' heq =>
    split_ifs at h with hdot
    · -- the joined path starts with the current directory
      obtain ⟨-, -, hjoin⟩ := splitOn_pair.1 h
      have hhead := congrArg List.head? hjoin
      simp only [Option.map_some, Option.getD_some, String.toList_ofList, List.head?_append, head_join] at hhead
      cases host with
      | nil => cases hhead
      | cons c host =>
        obtain rfl : c = '/' := Option.some.inj hhead
        rfl
    · rw [Option.getD_some, heq] at h
      obtain rfl := (List.cons.inj h).1
      exact Bool.not_eq_true _ ▸ hdot
  · next hno => exact absurd h (hno host container)

/-! ## The cargo -/

theorem mapM_some {α β : Type} {f : α → Option β} {g : α → β} {xs : List α} (h : ∀ x ∈ xs, f x = some (g x)) :
    xs.mapM f = some (xs.map g) := by
  induction xs with
  | nil => rfl
  | cons x xs ih =>
    rw [List.mapM_cons, h x List.mem_cons_self, ih fun x hx => h x (List.mem_cons_of_mem _ hx)]
    rfl

/-- a cargo whose binds are hooked -/
theorem hookBinds_of_forall {currentDir : Option CurrentDir} {cargo : CargoSpecPartial δ} {f : String → String}
    (h : ∀ bind ∈ bindsOf cargo, hookBind currentDir bind = some (f bind)) :
    hookBinds currentDir cargo = some (mapBinds f cargo) := by
  obtain ⟨_, _, _, _, _, _, ⟨_, _, _, _, _, _, _, hostConfig, _, _, _, _⟩, _⟩ := cargo
  cases hostConfig with
  | none => rfl
  | some hostConfig =>
    obtain ⟨binds, _, _, _, _, _, _⟩ := hostConfig
    cases binds with
    | none => rfl
    | some binds =>
      have hbinds : binds.mapM (hookBind currentDir) = some (binds.map f) := mapM_some h
      simp [hookBinds, mapBinds, hbinds]

theorem bindsOf_mapBinds (f : String → String) (cargo : CargoSpecPartial δ) :
    bindsOf (mapBinds f cargo) = (bindsOf cargo).map f := by
  unfold bindsOf mapBinds
  cases cargo.container.hostConfig with
  | none => rfl
  | some hostConfig => cases h : hostConfig.binds <;> simp [h]

theorem mapBinds_self {f : String → String} {cargo : CargoSpecPartial δ} (h : ∀ bind ∈ bindsOf cargo, f bind = bind) :
    mapBinds f cargo = cargo := by
  obtain ⟨_, _, _, _, _, _, ⟨_, _, _, _, _, _, _, hostConfig, _, _, _, _⟩, _⟩ := cargo
  cases hostConfig with
  | none => rfl
  | some hostConfig =>
    obtain ⟨binds, _, _, _, _, _, _⟩ := hostConfig
    cases binds with
    | none => rfl
    | some binds =>
      have hbinds : binds.map f = binds := (List.map_congr_left h).trans (List.map_id binds)
      simp [mapBinds, hbinds]

theorem mapBinds_inj {f g : String → String} {cargo : CargoSpecPartial δ} :
    mapBinds f cargo = mapBinds g cargo ↔ ∀ bind ∈ bindsOf cargo, f bind = g bind := by
  constructor
  · intro h
    have hmap := congrArg bindsOf h
    rw [bindsOf_mapBinds, bindsOf_mapBinds] at hmap
    exact List.map_inj_left.1 hmap
  · intro h
    unfold mapBinds
    cases hhost : cargo.container.hostConfig with
    | none => rfl
    | some hostConfig =>
      cases hbinds : hostConfig.binds with
      | none => simp [hbinds]
      | some binds =>
        have hmap : binds.map f = binds.map g :=
          List.map_congr_left fun bind hbind => h bind (by simpa [bindsOf, hhost, hbinds] using hbind)
        simp [hbinds, hmap]

/-- **The binds of a cargo are hooked** (the relative ones joined to the current directory, everything else as it was, and
nothing more by hooking again) exactly if no bind with options has a relative host path. -/
theorem hook_binds_iff (dir : CurrentDir) (cargo : CargoSpecPartial δ) (hbinds : ∀ bind ∈ bindsOf cargo, IsBind bind) :
    (∃ new, hookBinds (some dir) cargo = some new ∧ new = mapBinds (absoluteBind dir) cargo ∧
      ∀ currentDir, hookBinds currentDir new = some new) ↔
    ∀ bind ∈ bindsOf cargo, ¬ RelativeWithOptions bind := by
  have hhook : hookBinds (some dir) cargo = some (mapBinds (hookedBind dir) cargo) :=
    hookBinds_of_forall fun bind _ => hookBind_some dir bind
  have hagain (currentDir : Option CurrentDir) :
      hookBinds currentDir (mapBinds (hookedBind dir) cargo) = some (mapBinds (hookedBind dir) cargo) := by
    rw [hookBinds_of_forall (f := id), mapBinds_self fun bind _ => id_eq bind]
    intro bind hbind
    rw [bindsOf_mapBinds] at hbind
    obtain ⟨bind', -, rfl⟩ := List.mem_map.1 hbind
    exact hookBind_again currentDir bind'
  calc _ ↔ mapBinds (hookedBind dir) cargo = mapBinds (absoluteBind dir) cargo := by
        constructor
        · rintro ⟨new, hnew, rfl, -⟩
          exact Option.some.inj (hhook.symm.trans hnew)
        · intro heq
          exact ⟨_, hhook, heq, hagain⟩
    _ ↔ ∀ bind ∈ bindsOf cargo, hookedBind dir bind = absoluteBind dir bind := mapBinds_inj
    _ ↔ _ := forall₂_congr fun bind hbind => hookedBind_eq_iff (hbinds bind hbind)

/-- a cargo with these binds -/
def boundCargo (binds : List String) : CargoSpecPartial Unit where
  name := "web"
  metadata := none
  initContainer := none
  secrets := none
  imagePullSecret := none
  imagePullPolicy := none
  container := { Runtime.Config.default with
    image := some "nginx:latest"
    hostConfig := some { Runtime.HostConfig.default with binds := some binds } }
  replication := none

def homeDir : CurrentDir := ⟨"/home/web".toList, rfl⟩

example : (hookBinds (some homeDir) (boundCargo ["./data:/data", "/var/log:/log:ro"])).map bindsOf =
    some ["/home/web/./data:/data", "/var/log:/log:ro"] := by
  decide +kernel

theorem hook_binds_data :
    ∃ new, hookBinds (some homeDir) (boundCargo ["./data:/data", "/var/log:/log:ro"]) = some new ∧
      new = mapBinds (absoluteBind homeDir) (boundCargo ["./data:/data", "/var/log:/log:ro"]) ∧
      ∀ currentDir, hookBinds currentDir new = some new :=
  have hdata : "./data:/data".toList.splitOn ':' = ["./data".toList, "/data".toList] := by decide
  have hlog : "/var/log:/log:ro".toList.splitOn ':' = ["/var/log".toList, "/log".toList, "ro".toList] := by decide
  (hook_binds_iff homeDir (boundCargo ["./data:/data", "/var/log:/log:ro"]) (by
    rintro bind hbind
    rcases List.mem_pair.1 hbind with rfl | rfl
    · exact .inl (by rw [hdata]; rfl)
    · exact .inr (by rw [hlog]; rfl))).2 (by
    rintro bind hbind ⟨host, container, options, h, hdot⟩
    rcases List.mem_pair.1 hbind with rfl | rfl
    · rw [hdata] at h
      cases h
    · rw [hlog] at h
      obtain rfl := (List.cons.inj h).1
      cases hdot)

/-- a bind with options keeps its relative host path -/
theorem options_stay_relative :
    hookBinds (some homeDir) (boundCargo ["./data:/data:ro"]) = some (boundCargo ["./data:/data:ro"]) ∧
      boundCargo ["./data:/data:ro"] ≠ mapBinds (absoluteBind homeDir) (boundCargo ["./data:/data:ro"]) := by
  decide +kernel

end Nanocl.Cli
