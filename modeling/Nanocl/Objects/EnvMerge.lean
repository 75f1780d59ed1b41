/-
The variables a patch makes of those of a cargo (`CargoDb::fn_patch_obj_by_pk`).

A variable is a text, and its name is what stands before the first `=`. Texts are read as variables with a name and a value,
or with a name only where there is no `=`, so the loop of the patch is a list of assignments; a variable of the patch without
a `=` is none. The loop compares the new value with the whole old text instead of its value, appends an empty value like any
other, and does not see a stored name without a `=`.

- `readVar`: a text as a variable, and `mergeEnvVar_read`: one round of the loop is one assignment.
- `EnvPatched`: what the patch has to make of the variables.
- `env_patched_iff`: it does so exactly if its assignments fit the stored variables.
- `patch_brings_back`: a patch that removes a variable brings it back, empty, when it is applied again.
-/
import Mathlib.Data.List.InsertIdx
import Nanocl.Objects.EnvVars
import Nanocl.Objects.Cargo

namespace Nanocl.Objects

/-! ## Texts -/

/-- a text as a variable -/
def readVar (text : String) : Var (List Char) (List Char) :=
  match text.toList.splitOn '=' with
  | name :: value :: rest => (name, some (List.intercalate ['='] (value :: rest)))
  | _ => (text.toList, none)

/-- what a text of a patch assigns -/
def readAssignment (text : String) : Option (List Char × List Char) :=
  (readVar text).2.map fun value => ((readVar text).1, value)

/-- the text of a variable -/
def writeVar : Var (List Char) (List Char) → String
  | (name, some value) => String.ofList (name ++ '=' :: value)
  | (name, none) => String.ofList name

/-- values are texts, and the whole of a variable is read as one by the comparison -/
def texts : VarOps (List Char) (List Char) where
  empty := []
  whole name value := name ++ '=' :: value
  whole_ne name value h := by
    have := congrArg List.length h
    simp at this
    omega
  whole_ne_empty name value := by simp

/-- a text is a name and a value, or a name -/
theorem readVar_cases (text : String) :
    (∃ n v, '=' ∉ n ∧ text.toList = n ++ '=' :: v ∧ readVar text = (n, some v) ∧ text.toList.splitOn '=' = n :: v.splitOn '=') ∨
    ('=' ∉ text.toList ∧ readVar text = (text.toList, none) ∧ text.toList.splitOn '=' = [text.toList]) := by
  unfold readVar
  by_cases h : '=' ∈ text.toList
  · obtain ⟨n, v, heq, hn⟩ := List.eq_append_cons_of_mem h
    have hsplit : text.toList.splitOn '=' = n :: v.splitOn '=' := by
      rw [heq, List.splitOn_append_cons_self_of_not_mem hn]
    refine .inl ⟨n, v, hn, heq, ?_, hsplit⟩
    obtain ⟨value, rest, hv⟩ := List.exists_cons_of_ne_nil (List.splitOn_ne_nil '=' v)
    rw [hsplit, hv]
    show (n, some (List.intercalate ['='] (value :: rest))) = (n, some v)
    rw [← hv, List.intercalate_splitOn]
  · have hsplit := List.splitOn_eq_singleton h
    exact .inr ⟨h, by rw [hsplit], hsplit⟩

/-- a variable is written as it is read -/
theorem writeVar_readVar (text : String) : writeVar (readVar text) = text := by
  obtain ⟨n, v, -, heq, hread, -⟩ | ⟨-, hread, -⟩ := readVar_cases text
  · rw [hread, writeVar, ← heq, String.ofList_toList]
  · rw [hread, writeVar, String.ofList_toList]

theorem readVar_injective : Function.Injective readVar := fun a b h => by
  rw [← writeVar_readVar a, h, writeVar_readVar]

theorem readVar_ofList {n v : List Char} (hn : '=' ∉ n) : readVar (String.ofList (n ++ '=' :: v)) = (n, some v) := by
  unfold readVar
  rw [String.toList_ofList, List.splitOn_append_cons_self_of_not_mem hn]
  obtain ⟨value, rest, hv⟩ := List.exists_cons_of_ne_nil (List.splitOn_ne_nil '=' v)
  rw [hv]
  show (n, some (List.intercalate ['='] (value :: rest))) = (n, some v)
  rw [← hv, List.intercalate_splitOn]

/-- the texts that the search of a name finds -/
theorem isPrefixOf_iff {n : List Char} (hn : '=' ∉ n) (text : String) :
    (n ++ ['=']).isPrefixOf text.toList = (decide ((readVar text).1 = n) && (readVar text).2.isSome) := by
  rw [Bool.eq_iff_iff, List.isPrefixOf_iff_prefix, Bool.and_eq_true, decide_eq_true_iff]
  obtain ⟨m, v, hm, heq, hread, -⟩ | ⟨hno, hread, -⟩ := readVar_cases text
  · rw [hread, heq]
    constructor
    · rintro ⟨rest, hrest⟩
      have hread' := readVar_ofList (v := rest) hn
      rw [show n ++ '=' :: rest = m ++ '=' :: v by simpa using hrest, readVar_ofList hm] at hread'
      exact ⟨(Prod.mk.inj hread').1, rfl⟩
    · rintro ⟨rfl, -⟩
      exact ⟨v, by simp⟩
  · rw [hread]
    refine iff_of_false ?_ (by simp)
    rintro ⟨rest, hrest⟩
    exact hno (hrest ▸ by simp)

/-- **One round of the loop is one assignment**, or nothing where the text has no `=`. -/
theorem mergeEnvVar_read (envVars : List String) (envVar : String) :
    (mergeEnvVar envVars envVar).map readVar = (readAssignment envVar).toList.foldl texts.assign (envVars.map readVar) := by
  obtain ⟨n, v, hn, heq, hread, hsplit⟩ | ⟨hno, hread, hsplit⟩ := readVar_cases envVar
  · obtain ⟨value, rest, hv⟩ := List.exists_cons_of_ne_nil (List.splitOn_ne_nil '=' v)
    have hjoin : List.intercalate ['='] (value :: rest) = v := by rw [← hv, List.intercalate_splitOn]
    have hfind : (envVars.map readVar).findIdx? (fun x => decide (x.1 = n) && x.2.isSome) =
        envVars.findIdx? fun x => (n ++ ['=']).isPrefixOf x.toList := by
      rw [List.findIdx?_map]
      exact congrArg (List.findIdx? · envVars) (funext fun x => (isPrefixOf_iff hn x).symm)
    unfold mergeEnvVar
    simp only [readAssignment, hread, Option.map_some, Option.toList_some, List.foldl_cons, List.foldl_nil,
      VarOps.assign, hfind, hsplit, hv, hjoin]
    cases hpos : envVars.findIdx? fun x => (n ++ ['=']).isPrefixOf x.toList with
    | none => simp [hread]
    | some pos =>
      obtain ⟨hlt, hp, -⟩ := List.findIdx?_eq_some_iff_getElem.1 hpos
      rw [isPrefixOf_iff hn, Bool.and_eq_true, decide_eq_true_iff] at hp
      obtain ⟨m, w, -, htext, hread', -⟩ | ⟨-, hread', -⟩ := readVar_cases envVars[pos]
      · have hm : m = n := by simpa [hread'] using hp.1
        subst hm
        have hold : ((envVars.map readVar)[pos]?.bind Prod.snd).map (texts.whole m) = some envVars[pos].toList := by
          rw [List.getElem?_map, List.getElem?_eq_getElem hlt, Option.map_some, hread', htext]
          rfl
        have hsame : (envVars[pos]? ≠ some (String.ofList v)) ↔ some envVars[pos].toList ≠ some v := by
          rw [List.getElem?_eq_getElem hlt, not_iff_not, Option.some_inj, Option.some_inj, ← String.toList_inj,
            String.toList_ofList]
        dsimp only
        rw [hold]
        simp only [hsame]
        have hset : (envVars.set pos (String.ofList (m ++ '=' :: v))).map readVar =
            (envVars.map readVar).set pos (m, some v) := by
          rw [List.map_set, readVar_ofList hn]
        have herase : (envVars.eraseIdx pos).map readVar = (envVars.map readVar).eraseIdx pos := by
          rw [List.eraseIdx_map]
        rw [apply_ite (List.map readVar), apply_ite (List.map readVar), hset, herase]
        rfl
      · simp [hread'] at hp
  · unfold mergeEnvVar
    simp [hsplit, readAssignment, hread]

/-- the loop is the list of assignments -/
theorem foldl_mergeEnvVar_read (patch envVars : List String) :
    (patch.foldl mergeEnvVar envVars).map readVar = texts.merge (envVars.map readVar) (patch.filterMap readAssignment) := by
  induction patch generalizing envVars with
  | nil => rfl
  | cons envVar patch ih =>
    rw [List.foldl_cons, ih, mergeEnvVar_read, List.filterMap_cons]
    cases readAssignment envVar <;> rfl

/-! ## Property -/

variable {δ : Type}

/-- the variables of a container -/
def varsOf (container : Runtime.Config) : List (Var (List Char) (List Char)) := (container.env.getD []).map readVar

/-- the patch, with other variables -/
def withEnv (spec : CargoSpecUpdate δ) (container : Runtime.Config) (envVars : List String) : CargoSpecUpdate δ :=
  { spec with container := some { container with env := some envVars } }

/-- what a patch has to make of the variables of a cargo; it names the last value that the patch gives to a name -/
structure EnvPatched (current : CargoSpec δ) (spec : CargoSpecUpdate δ) (envVars : List String)
    (new : Runtime.Config) : Prop where
  assigned : ∀ n v, last (envVars.filterMap readAssignment) n = some v → v ≠ [] → (n, some v) ∈ varsOf new
  emptied : ∀ n, last (envVars.filterMap readAssignment) n = some [] → ∀ x ∈ varsOf new, x.1 ≠ n
  others : ((varsOf new).filter fun x => last (envVars.filterMap readAssignment) x.1 = none) =
    (varsOf current.container).filter fun x => last (envVars.filterMap readAssignment) x.1 = none
  nodup : ((varsOf new).map Prod.fst).Nodup
  again : (patchCargoSpec { current with container := new } spec).container.env = new.env

/-! ## Proof -/

theorem varsOf_patch (current : CargoSpec δ) (spec : CargoSpecUpdate δ) (container : Runtime.Config) (envVars : List String) :
    varsOf (patchCargoSpec current (withEnv spec container envVars)).container =
      texts.merge (varsOf current.container) (envVars.filterMap readAssignment) :=
  foldl_mergeEnvVar_read envVars _

/-- **A patch makes of the variables what it has to exactly if its assignments fit.** -/
theorem env_patched_iff (current : CargoSpec δ) (hnames : ((varsOf current.container).map Prod.fst).Nodup)
    (spec : CargoSpecUpdate δ) (container : Runtime.Config) (patch : List String) :
    EnvPatched current (withEnv spec container patch) patch
        (patchCargoSpec current (withEnv spec container patch)).container ↔
      Fits texts (varsOf current.container) (patch.filterMap readAssignment) := by
  have hvars := varsOf_patch current spec container patch
  have hagain : (patchCargoSpec { current with
        container := (patchCargoSpec current (withEnv spec container patch)).container }
          (withEnv spec container patch)).container.env =
        (patchCargoSpec current (withEnv spec container patch)).container.env ↔
      texts.merge (texts.merge (varsOf current.container) (patch.filterMap readAssignment))
          (patch.filterMap readAssignment) =
        texts.merge (varsOf current.container) (patch.filterMap readAssignment) := by
    rw [← hvars, ← varsOf_patch { current with
        container := (patchCargoSpec current (withEnv spec container patch)).container } spec container patch]
    constructor
    · intro h
      unfold varsOf
      rw [h]
    · intro h
      exact congrArg some (List.map_injective_iff.2 readVar_injective h)
  rw [← merged_iff hnames]
  constructor
  · rintro ⟨h₁, h₂, h₃, h₄, h₅⟩
    rw [hvars] at h₁ h₂ h₃ h₄
    exact ⟨h₁, h₂, h₃, h₄, hagain.1 h₅⟩
  · rintro ⟨h₁, h₂, h₃, h₄, h₅⟩
    rw [← hvars] at h₁ h₂ h₃ h₄
    exact ⟨h₁, h₂, h₃, h₄, hagain.2 h₅⟩

/-- the cargo `web` with these variables -/
def webWith (envVars : List String) : CargoSpec Value :=
  { webSpec with
    container := { Runtime.Config.default with env := some envVars }, key := 0, cargoKey := "web.global", version := "v0.16" }

/-- the update that gives nothing -/
def noUpdate : CargoSpecUpdate Value := ⟨none, none, none, none, none, none, none, none⟩

/-- a value with a `=` in it takes the place of another one, and a name that is emptied gets a new value -/
theorem env_patched_replace :
    EnvPatched (webWith ["A=1", "X=1", "B=2"]) (withEnv noUpdate .default ["A=x=y", "X=", "X=2"]) ["A=x=y", "X=", "X=2"]
      (patchCargoSpec (webWith ["A=1", "X=1", "B=2"]) (withEnv noUpdate .default ["A=x=y", "X=", "X=2"])).container := by
  refine (env_patched_iff (webWith ["A=1", "X=1", "B=2"]) (by decide) noUpdate .default ["A=x=y", "X=", "X=2"]).2 ?_
  have hread : ["A=x=y", "X=", "X=2"].filterMap readAssignment = [(['A'], ['x', '=', 'y']), (['X'], []), (['X'], ['2'])] := by
    decide
  have hvars : varsOf (webWith ["A=1", "X=1", "B=2"]).container =
      [(['A'], some ['1']), (['X'], some ['1']), (['B'], some ['2'])] := by decide
  rw [hread, hvars]
  decide

/-- a variable that is taken away: the patch brings it back, empty, when it is applied again -/
theorem patch_brings_back :
    ¬ ∀ (current : CargoSpec Value), ((varsOf current.container).map Prod.fst).Nodup →
      ∀ (spec : CargoSpecUpdate Value) (container : Runtime.Config) (patch : List String),
        EnvPatched current (withEnv spec container patch) patch
          (patchCargoSpec current (withEnv spec container patch)).container := by
  intro h
  have hpatched := h (webWith ["X=1"]) (by decide) noUpdate .default ["X="]
  have hold : (patchCargoSpec (webWith ["X=1"]) (withEnv noUpdate .default ["X="])).container.env = some [] := by decide
  have hnew := hpatched.again
  rw [hold] at hnew
  exact absurd hnew (by decide)

end Nanocl.Objects
