/-
Statefiles and how the command line reads them together with the states they include (`commands/state.rs`,
`models/state.rs`, `nanocl_stubs/src/statefile.rs`).

`parseStateFileRecurr` renders a state, reads its sub states and parses them in turn; all of them are awaited before the
first error is returned. The recursion of the code has no bound of its own, so the model has a fuel: without fuel a call
has no outcome (`none`). The file system, the network, the daemon and the template engine are parameters (`StateEnv`).

- `parse_mono`: an outcome does not change with more fuel.
- `parse_succ`: the outcome of a call in terms of those of its sub states.
-/
import Nanocl.Lib.Except
import Nanocl.Objects.Secret

namespace Nanocl.Cli

open Nanocl.Lib Nanocl.Objects

/-! ## Statefiles -/

inductive SubStateValue where
  /-- an `f64`, by its bits -/
  | number (bits : UInt64)
  | string (s : String)
  | boolean (b : Bool)
deriving DecidableEq

structure SubStateArg where
  name : String
  value : SubStateValue
deriving DecidableEq

structure SubStateDef where
  path : String
  args : Option (List SubStateArg)
deriving DecidableEq

inductive SubState where
  | path (path : String)
  | definition (d : SubStateDef)
deriving DecidableEq

/-- `Statefile`, with the fields that are read once its arguments are parsed -/
structure Statefile (δ : Type) where
  apiVersion : String
  subStates : Option (List SubState)
  group : Option String
  namespace_ : Option String
  secrets : Option (List (SecretPartial δ))
  resources : Option (List (ResourcePartial δ))
  cargoes : Option (List (CargoSpecPartial δ))
  virtualMachines : Option (List (VmSpecPartial δ))
  jobs : Option (List (JobPartial δ))

/-- an absolute path without links, by its components -/
abbrev Path := List String

inductive StateRoot where
  | none
  | url (url : String)
  | file (dir : Path)
deriving DecidableEq

structure StateRef (δ : Type) where
  raw : String
  data : Statefile δ
  root : StateRoot
  location : String
  /-- the call that rendered the state, by the sub states that lead to it; a name for the proofs only -/
  call : List ℕ

/-- the object of arguments, each name once -/
abbrev Args := List SubStateArg

/-- `Map::insert` -/
def insertArg (args : Args) (arg : SubStateArg) : Args := args.filter (·.name ≠ arg.name) ++ [arg]

def compileArgs (args : Option (List SubStateArg)) : Args := (args.getD []).foldl insertArg []

def SubState.target : SubState → String
  | .path p => p
  | .definition d => d.path

def SubState.args : SubState → Args
  | .path _ => []
  | .definition d => compileArgs d.args

/-! ## Paths -/

/-- the components of an absolute path, as `Path::components` lists them: `.` and empty ones are skipped, `..` is kept -/
def components (s : String) : List String :=
  ((s.toList.splitOn '/').map String.ofList).filter fun c => c ≠ "" ∧ c ≠ "."

def pathString (path : Path) : String := "/" ++ "/".intercalate path

/-- `PathBuf::join` on a directory -/
def joinPath (dir : Path) (s : String) : String :=
  if ['/'] <+: s.toList then s else if dir = [] then "/" ++ s else pathString dir ++ "/" ++ s

/-- the root of a Statefile from an url: all up to the last `/` -/
def urlRoot (url : String) : String :=
  "/".intercalate (((url.toList.splitOn '/').map String.ofList).dropLast ++ [""])

/-! ## Reading -/

structure IoError where
  context : String
  msg : String
deriving DecidableEq

/-- how a call ends without a result -/
inductive Stop where
  | error (e : IoError)
  /-- the `expect` on an url -/
  | panic
deriving DecidableEq

structure StateEnv (δ : Type) where
  canonicalize : String → Except IoError Path
  /-- the file at a path: its text, and the Statefile it is without its templates -/
  read : Path → Except IoError (String × Statefile δ)
  /-- the Statefile at an url, with the url it was found under, by the call that asks -/
  download : List ℕ → String → Except IoError (String × String × Statefile δ)
  /-- `Url::join` on an url that is parsed first -/
  joinUrl : String → String → Option String
  /-- `gen_client` and `render_template`, by the call: they ask the daemon -/
  render : List ℕ → StateRef δ → Args → Except IoError (String × Statefile δ)

variable {δ : Type} (E : StateEnv δ)

/-- `get_from_url` -/
def getFromUrl (call : List ℕ) (url : String) : Except IoError (StateRef δ) := do
  let (url, raw, data) ← E.download call url
  return ⟨raw, data, .url (urlRoot url), url, []⟩

/-- `read_from_file` -/
def readFromFile (path : Path) : Except IoError (StateRef δ) := do
  let (raw, data) ← E.read path
  return ⟨raw, data, .file path.dropLast, pathString path, []⟩

/-- `read_state_file`, with a path -/
def readStateFile (call : List ℕ) (path : String) : Except IoError (StateRef δ) :=
  match E.canonicalize path with
  | .ok path => readFromFile E path
  | .error _ => getFromUrl E call path

/-- the full path of a sub state that does not begin with `http` -/
def fullSubStatePath (state : StateRef δ) (target : String) : Except Stop String :=
  match state.root with
  | .url url =>
    match E.joinUrl url target with
    | some full => .ok full
    | none => .error .panic
  | .file dir =>
    match E.canonicalize state.location with
    | .error e => .error (.error ⟨"Statefile location", e.msg⟩)
    | .ok current =>
      if current = components (joinPath dir target) then .error (.error ⟨"Statefile", "Cannot include itself"⟩)
      else .ok (joinPath dir target)
  | .none => .ok target

/-- `sub_state_path.starts_with("http")` -/
def startsWithHttp (target : String) : Bool := "http".toList.isPrefixOf target.toList

/-- the sub state of a rendered state, as it is read -/
def readSubState (call : List ℕ) (state : StateRef δ) (target : String) : Except Stop (StateRef δ) := do
  let full ← if startsWithHttp target then pure target else fullSubStatePath E state target
  (readStateFile E call full).mapError .error

def renderState (call : List ℕ) (state : StateRef δ) (args : Args) : Except Stop (StateRef δ) := do
  let (raw, data) ← (E.render call state args).mapError .error
  return { state with raw := raw, data := data, call := call }

def StateRef.subStates (state : StateRef δ) : List SubState := state.data.subStates.getD []

/-! ## Parsing -/

/-- an outcome; none yet if the call has not ended -/
abbrev Outcome (α : Type) := Option (Except Stop α)

/-- two futures that are both awaited: a panic ends the process at once, and the first error is returned -/
def both {α : Type} (o : Outcome α) (os : Outcome (List α)) : Outcome (List α) :=
  match o, os with
  | some (.error .panic), _ => some (.error .panic)
  | _, some (.error .panic) => some (.error .panic)
  | some (.error e), some _ => some (.error e)
  | some (.ok _), some (.error e) => some (.error e)
  | some (.ok a), some (.ok l) => some (.ok (a :: l))
  | _, _ => none

/-- futures that are all awaited before their results are collected -/
def joinOutcomes {α : Type} (outcomes : List (Outcome α)) : Outcome (List α) := outcomes.foldr both (some (.ok []))

/-- the future of a sub state -/
def parseSubState (parse : List ℕ → StateRef δ → Args → Outcome (List (StateRef δ))) (call : List ℕ) (state : StateRef δ)
    (sub : SubState) : Outcome (List (StateRef δ)) :=
  match readSubState E call state sub.target with
  | .error stop => some (.error stop)
  | .ok subState => parse call subState sub.args

/-- `parse_state_file_recurr`; `call` says which sub states lead to this call -/
def parseStateFileRecurr : ℕ → List ℕ → StateRef δ → Args → Outcome (List (StateRef δ))
  | 0, _, _, _ => none
  | fuel + 1, call, state, args =>
    match renderState E call state args with
    | .error stop => some (.error stop)
    | .ok state =>
      let parsed := state.subStates.mapIdx fun i => parseSubState E (parseStateFileRecurr fuel) (call ++ [i]) state
      (joinOutcomes parsed).map (·.map fun subs => (state :: subs.flatten).reverse)

/-! ## Outcomes -/

section Outcomes

variable {α : Type}

theorem both_eq_ok {o : Outcome α} {os : Outcome (List α)} {l : List α} :
    both o os = some (.ok l) ↔ ∃ a l', o = some (.ok a) ∧ os = some (.ok l') ∧ l = a :: l' := by
  rcases o with _ | (e | _) | a <;> rcases os with _ | (e' | _) | l' <;> simp [both, eq_comm]

/-- a panic on one side is one of both -/
theorem both_panic (o : Outcome α) : both o (some (.error .panic)) = some (.error .panic) := by
  rcases o with _ | (e | _) | a <;> rfl

theorem both_isSome {o : Outcome α} {os : Outcome (List α)} (ho : o.isSome) (hos : os.isSome) : (both o os).isSome := by
  rcases o with _ | (e | _) | a <;> rcases os with _ | (e' | _) | l' <;> simp_all [both]

theorem isSome_of_both {o : Outcome α} {os : Outcome (List α)} (h : (both o os).isSome) (ho : o ≠ some (.error .panic))
    (hos : os ≠ some (.error .panic)) : o.isSome ∧ os.isSome := by
  rcases o with _ | (e | _) | a <;> rcases os with _ | (e' | _) | l' <;> simp_all [both]

theorem both_ne_panic {o : Outcome α} {os : Outcome (List α)} (ho : o ≠ some (.error .panic))
    (hos : os ≠ some (.error .panic)) : both o os ≠ some (.error .panic) := by
  rcases o with _ | (e | _) | a <;> rcases os with _ | (e' | _) | l' <;> simp_all [both]

/-- an outcome that is there stays -/
theorem both_mono {o o' : Outcome α} {os os' : Outcome (List α)} (ho : ∀ r, o = some r → o' = some r)
    (hos : ∀ r, os = some r → os' = some r) {r : Except Stop (List α)} (h : both o os = some r) :
    both o' os' = some r := by
  cases o with
  | none =>
    rcases os with _ | (e | _) | l
    · cases h
    · cases h
    · rw [hos _ rfl, both_panic]
      exact h
    · cases h
  | some ro =>
    rw [ho ro rfl]
    cases os with
    | none =>
      rcases ro with (e | _) | a
      · cases h
      · exact h
      · cases h
    | some ros => rwa [hos ros rfl]

@[simp] theorem joinOutcomes_nil : joinOutcomes ([] : List (Outcome α)) = some (.ok []) := rfl

@[simp] theorem joinOutcomes_cons (o : Outcome α) (outcomes : List (Outcome α)) :
    joinOutcomes (o :: outcomes) = both o (joinOutcomes outcomes) := rfl

/-- a join succeeds if every future does -/
theorem joinOutcomes_eq_ok {outcomes : List (Outcome α)} {l : List α} :
    joinOutcomes outcomes = some (.ok l) ↔ List.Forall₂ (fun o a => o = some (.ok a)) outcomes l := by
  induction outcomes generalizing l with
  | nil => cases l <;> simp
  | cons o outcomes ih =>
    rw [List.forall₂_cons_left_iff, joinOutcomes_cons, both_eq_ok]
    constructor
    · rintro ⟨a, l', ho, hos, rfl⟩
      exact ⟨a, l', ho, ih.1 hos, rfl⟩
    · rintro ⟨a, l', ho, hos, rfl⟩
      exact ⟨a, l', ho, ih.2 hos, rfl⟩

/-- a join ends if every future does -/
theorem joinOutcomes_isSome {outcomes : List (Outcome α)} (h : ∀ o ∈ outcomes, o.isSome) :
    (joinOutcomes outcomes).isSome := by
  induction outcomes with
  | nil => rfl
  | cons o outcomes ih =>
    exact both_isSome (h o List.mem_cons_self) (ih fun o ho => h o (List.mem_cons_of_mem _ ho))

/-- a join without a panic ends only if every future does -/
theorem joinOutcomes_awaits {outcomes : List (Outcome α)} (hpanic : ∀ o ∈ outcomes, o ≠ some (.error .panic)) :
    joinOutcomes outcomes ≠ some (.error .panic) ∧
      ((joinOutcomes outcomes).isSome → ∀ o ∈ outcomes, o.isSome) := by
  induction outcomes with
  | nil => exact ⟨nofun, fun _ o ho => absurd ho List.not_mem_nil⟩
  | cons o outcomes ih =>
    obtain ⟨hne, hall⟩ := ih fun o ho => hpanic o (List.mem_cons_of_mem _ ho)
    have ho := hpanic o List.mem_cons_self
    refine ⟨both_ne_panic ho hne, fun h o' ho' => ?_⟩
    obtain ⟨hfirst, hrest⟩ := isSome_of_both h ho hne
    rcases List.mem_cons.1 ho' with rfl | ho'
    · exact hfirst
    · exact hall hrest o' ho'

theorem joinOutcomes_mono {outcomes outcomes' : List (Outcome α)}
    (h : List.Forall₂ (fun o o' => ∀ r, o = some r → o' = some r) outcomes outcomes') {r : Except Stop (List α)}
    (hr : joinOutcomes outcomes = some r) : joinOutcomes outcomes' = some r := by
  induction h generalizing r with
  | nil => exact hr
  | cons ho _ ih => exact both_mono ho (fun _ => ih) hr

end Outcomes

/-! ## Fuel -/

variable {E}

/-- a call that is rendered ends as the join of its sub states does -/
theorem parse_succ {fuel : ℕ} {call : List ℕ} {state state' : StateRef δ} {args : Args}
    (h : renderState E call state args = .ok state') : parseStateFileRecurr E (fuel + 1) call state args =
      (joinOutcomes (state'.subStates.mapIdx fun i =>
        parseSubState E (parseStateFileRecurr E fuel) (call ++ [i]) state')).map
          (·.map fun subs => (state' :: subs.flatten).reverse) := by
  rw [parseStateFileRecurr, h]

/-- **An outcome does not change with more fuel.** -/
theorem parse_mono {fuel : ℕ} {call : List ℕ} {state : StateRef δ} {args : Args} {r : Except Stop (List (StateRef δ))}
    (h : parseStateFileRecurr E fuel call state args = some r) :
    parseStateFileRecurr E (fuel + 1) call state args = some r := by
  induction fuel generalizing call state args r with
  | zero => cases h
  | succ fuel ih =>
    cases hrender : renderState E call state args with
    | error stop =>
      rw [parseStateFileRecurr, hrender] at h ⊢
      exact h
    | ok state' =>
      rw [parse_succ hrender] at h ⊢
      obtain ⟨r', hjoin, hr⟩ := Option.map_eq_some_iff.1 h
      refine Option.map_eq_some_iff.2 ⟨r', joinOutcomes_mono ?_ hjoin, hr⟩
      rw [List.forall₂_iff_get]
      refine ⟨by simp, fun i h₁ h₂ r hr => ?_⟩
      simp only [List.get_eq_getElem, List.getElem_mapIdx, parseSubState] at hr ⊢
      have hi : i < state'.subStates.length := by simpa using h₁
      cases hsub : readSubState E (call ++ [i]) state' state'.subStates[i].target with
      | error stop =>
        rw [hsub] at hr
        exact hr
      | ok subState =>
        rw [hsub] at hr
        exact ih hr

theorem parse_le {fuel fuel' : ℕ} (hle : fuel ≤ fuel') {call : List ℕ} {state : StateRef δ} {args : Args}
    {r : Except Stop (List (StateRef δ))} (h : parseStateFileRecurr E fuel call state args = some r) :
    parseStateFileRecurr E fuel' call state args = some r := by
  induction hle with
  | refl => exact h
  | step _ ih => exact parse_mono ih

/-- the outcome of a call is unique -/
theorem parse_unique {fuel fuel' : ℕ} {call : List ℕ} {state : StateRef δ} {args : Args}
    {r r' : Except Stop (List (StateRef δ))} (h : parseStateFileRecurr E fuel call state args = some r)
    (h' : parseStateFileRecurr E fuel' call state args = some r') : r = r' :=
  Option.some.inj ((parse_le (le_max_left fuel fuel') h).symm.trans (parse_le (le_max_right fuel fuel') h'))

/-! ## An instance -/

/-- a path without `..` components -/
def resolveParents (cs : List String) : Path := cs.foldl (fun acc c => if c = ".." then acc.dropLast else acc ++ [c]) []

/-- a Statefile that only includes others -/
def including (paths : List String) : Statefile String :=
  ⟨"v0.16", some (paths.map .path), none, none, none, none, none, none, none⟩

/-- files without links and without templates, by their paths and the paths that they include -/
def localEnv (files : List (Path × List String)) : StateEnv String where
  canonicalize s :=
    let path := resolveParents (components s)
    if files.any (·.1 = path) then .ok path else .error ⟨"Statefile " ++ s, "No such file or directory"⟩
  read path :=
    match files.find? (·.1 = path) with
    | some file => .ok ("", including file.2)
    | none => .error ⟨"", "No such file or directory"⟩
  download _ _ := .error ⟨"Unable to get Statefile from url", "connection refused"⟩
  joinUrl _ _ := none
  render _ state _ := .ok (state.raw, state.data)

end Nanocl.Cli
