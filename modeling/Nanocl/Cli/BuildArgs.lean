/-
The arguments of a Statefile (`commands/state.rs::parse_build_args`). One pass over the declared arguments registers an
option of clap for each, a second one reads the values back; the two split the cases differently. The first makes a flag
of a boolean without a default, and a plain option of one with a default; the second reads every boolean as a flag.

clap is not in the repository: how a command line is taken apart is a parameter. What is used of its documentation is
`getMatchesFrom`, `ArgMatches.getOne` and `ArgMatches.getFlag`: a command line that does not fit ends the process, a plain
option is a text, and a flag needs the action `SetTrue`.

- `valueOf_eq_ok_iff`: when the second pass reads an argument, and as what.
- `foldlM_readArg`: the object that the pass returns.
- `build_args_iff`: the arguments are resolved exactly if no boolean has a default and the number that each default gives
  way to, or is, can be read.
- `boolean_default_panics`: a boolean with a default.
-/
import Nanocl.Cli.Statefile

namespace Nanocl.Cli

open Nanocl.Lib

/-! ## Declared arguments -/

inductive StatefileArgKind where
  | string | number | boolean
deriving DecidableEq, Repr

structure StatefileArg where
  name : String
  kind : StatefileArgKind
  default : Option String
deriving DecidableEq

/-- a value of the object that is returned; a number is a `usize` -/
inductive ArgValue where
  | string (s : String)
  | boolean (b : Bool)
  | number (n : ℕ)
deriving DecidableEq, Repr

/-- `serde_json::Map`, each name once -/
abbrev BuildArgs := List (String × ArgValue)

/-- `Map::insert` -/
def BuildArgs.insert (args : BuildArgs) (name : String) (value : ArgValue) : BuildArgs :=
  args.filter (fun p => p.1 ≠ name) ++ [(name, value)]

/-- how `parse_build_args` ends without an object -/
inductive BuildStop where
  /-- clap prints its message and ends the process -/
  | exit
  | panic
  | error (e : IoError)
deriving DecidableEq

/-! ## Numbers -/

/-- the digits of a `usize` from a number on -/
def parseDigits : ℕ → List Char → Except String ℕ
  | n, [] => .ok n
  | n, c :: text =>
    if c.isDigit then
      let n := 10 * n + (c.toNat - '0'.toNat)
      if n < 2 ^ 64 then parseDigits n text else .error "number too large to fit in target type"
    else .error "invalid digit found in string"

/-- `str::parse::<usize>` -/
def parseUsize (text : String) : Except String ℕ :=
  match text.toList with
  | [] => .error "cannot parse integer from empty string"
  | ['+'] => .error "invalid digit found in string"
  | '+' :: text => parseDigits 0 text
  | text => parseDigits 0 text

/-- `str::parse::<bool>` -/
def parseBool (text : String) : Option Bool :=
  if text = "true" then some true else if text = "false" then some false else none

/-! ## clap -/

/-- an `Arg` with its long option -/
structure ArgSpec where
  long : String
  defaultValue : Option String
  required : Bool
  setTrue : Bool
deriving DecidableEq

/-- the options, and the text that the command line has for each; for a flag any text -/
structure ArgMatches where
  specs : List ArgSpec
  given : String → Option String

section

-- what a command line gives to the options; `none` where it does not fit them
variable (parseArgv : List ArgSpec → List String → Option (String → Option String))

/-- `Command::get_matches_from` -/
def getMatchesFrom (specs : List ArgSpec) (argv : List String) : Except BuildStop ArgMatches :=
  match parseArgv specs argv with
  | none => .error .exit
  | some given => if specs.any fun s => s.required && (given s.long).isNone then .error .exit else .ok ⟨specs, given⟩

/-- `get_one::<String>`; a flag and an unknown option panic -/
def ArgMatches.getOne (m : ArgMatches) (id : String) : Except BuildStop (Option String) :=
  match m.specs.find? fun s => s.long = id with
  | none => .error .panic
  | some s => if s.setTrue then .error .panic else .ok ((m.given id).or s.defaultValue)

/-- `get_flag`; an option without the action `SetTrue` panics -/
def ArgMatches.getFlag (m : ArgMatches) (id : String) : Except BuildStop Bool :=
  match m.specs.find? fun s => s.long = id with
  | none => .error .panic
  | some s => if s.setTrue then .ok (m.given id).isSome else .error .panic

/-! ## `parse_build_args` -/

/-- the option that the first pass registers -/
def argSpec (a : StatefileArg) : ArgSpec :=
  match a.default with
  | some default =>
    { long := a.name, defaultValue := if a.kind ≠ .boolean then some default else none, required := false,
      setTrue := false }
  | none =>
    if a.kind = .boolean then { long := a.name, defaultValue := none, required := false, setTrue := true }
    else { long := a.name, defaultValue := none, required := true, setTrue := false }

def missing (name : String) : BuildStop := .error ⟨"BuildArg", "argument " ++ name ++ " is missing"⟩

/-- the value that the second pass reads -/
def valueOf (m : ArgMatches) (a : StatefileArg) : Except BuildStop ArgValue :=
  match a.kind with
  | .string => do
    match ← m.getOne a.name with
    | none => throw (missing a.name)
    | some value => return .string value
  | .boolean => do return .boolean (← m.getFlag a.name)
  | .number => do
    match ← m.getOne a.name with
    | none => throw (missing a.name)
    | some value =>
      match parseUsize value with
      | .error err => throw (.error ⟨"BuildArg", "argument " ++ a.name ++ " is not a number: " ++ err⟩)
      | .ok value => return .number value

def readArg (m : ArgMatches) (args : BuildArgs) (a : StatefileArg) : Except BuildStop BuildArgs := do
  return args.insert a.name (← valueOf m a)

/-- `parse_build_args` -/
def parseBuildArgs (stateArgs : Option (List StatefileArg)) (args : List String) : Except BuildStop BuildArgs := do
  let stateArgs := stateArgs.getD []
  let m ← getMatchesFrom parseArgv (stateArgs.map argSpec) ("nanocl state apply --" :: args)
  stateArgs.foldlM (readArg m) []

end

/-! ## One argument -/

/-- the value that an argument stands for: the text given, else the default, as one of its kind; a flag without a default
is its presence -/
def expected (given : String → Option String) (a : StatefileArg) : Option ArgValue :=
  match a.kind with
  | .string => ((given a.name).or a.default).map .string
  | .number => ((given a.name).or a.default).bind fun text => (parseUsize text).toOption.map .number
  | .boolean =>
    match a.default with
    | none => some (.boolean (given a.name).isSome)
    | some default => (parseBool ((given a.name).getD default)).map .boolean

/-- an argument without a default has a value of its kind on the command line; a flag always has -/
def WellGiven (given : String → Option String) (a : StatefileArg) : Prop :=
  a.default = none → a.kind ≠ .boolean → ∃ v, given a.name = some v ∧ (a.kind = .number → ∃ n, parseUsize v = .ok n)

/-- the code reads the argument: a boolean has no default, and a number with one is given or defaults to a number -/
def Readable (given : String → Option String) (a : StatefileArg) : Prop :=
  (a.kind = .boolean → a.default = none) ∧
    (a.kind = .number → ∀ default ∈ a.default, ∃ n, parseUsize ((given a.name).getD default) = .ok n)

/-- the option of an argument is the one that was registered for it -/
theorem find_argSpec {args : List StatefileArg} (hn : (args.map (·.name)).Nodup) {a : StatefileArg} (ha : a ∈ args) :
    (args.map argSpec).find? (fun s => s.long = a.name) = some (argSpec a) := by
  have hlong : ∀ b, (argSpec b).long = b.name := by
    intro b
    unfold argSpec
    split
    · rfl
    · split_ifs <;> rfl
  rw [List.find?_map]
  have hfind : args.find? ((fun s : ArgSpec => decide (s.long = a.name)) ∘ argSpec) = some a := by
    induction args with
    | nil => cases ha
    | cons b args ih =>
      rw [List.map_cons, List.nodup_cons] at hn
      rw [List.find?_cons]
      by_cases hb : b.name = a.name
      · have hab : a = b := by
          rcases List.mem_cons.1 ha with h | h
          · exact h
          · exact absurd (hb ▸ List.mem_map_of_mem h) hn.1
        subst hab
        simp [hlong]
      · have hmem : a ∈ args := (List.mem_cons.1 ha).resolve_left fun h => hb (by rw [h])
        simpa [hlong, hb] using ih hn.2 hmem
  rw [hfind]
  rfl

/-- the second pass reads an argument exactly if it is readable, and as the value it stands for -/
theorem valueOf_eq_ok_iff {args : List StatefileArg} (hn : (args.map (·.name)).Nodup) {a : StatefileArg} (ha : a ∈ args)
    {given : String → Option String} (hg : WellGiven given a) (v : ArgValue) :
    valueOf ⟨args.map argSpec, given⟩ a = .ok v ↔ Readable given a ∧ expected given a = some v := by
  obtain ⟨name, kind, default⟩ := a
  have hfind := find_argSpec hn ha
  cases kind with
  | string =>
    cases default with
    | none =>
      obtain ⟨text, ht, -⟩ := hg rfl nofun
      simp only at ht
      simp [valueOf, ArgMatches.getOne, hfind, argSpec, expected, Readable, ht]
    | some d => cases ht : given name <;> simp [valueOf, ArgMatches.getOne, hfind, argSpec, expected, Readable, ht]
  | boolean => cases default <;> simp [valueOf, ArgMatches.getFlag, hfind, argSpec, expected, Readable]
  | number =>
    cases default with
    | none =>
      obtain ⟨text, ht, hnum⟩ := hg rfl nofun
      obtain ⟨n, hn'⟩ := hnum rfl
      simp only at ht
      simp [valueOf, ArgMatches.getOne, hfind, argSpec, expected, Readable, ht, hn', Except.toOption]
    | some d =>
      cases ht : given name with
      | none =>
        cases hp : parseUsize d <;>
          simp [valueOf, ArgMatches.getOne, hfind, argSpec, expected, Readable, ht, hp, Except.toOption]
      | some text =>
        cases hp : parseUsize text <;>
          simp [valueOf, ArgMatches.getOne, hfind, argSpec, expected, Readable, ht, hp, Except.toOption]

/-! ## All arguments -/

/-- the entry that the second pass makes of an argument -/
def IsRead (m : ArgMatches) (a : StatefileArg) (p : String × ArgValue) : Prop :=
  p.1 = a.name ∧ valueOf m a = .ok p.2

theorem BuildArgs.insert_fresh {args : BuildArgs} {name : String} (h : name ∉ args.map Prod.fst) (value : ArgValue) :
    args.insert name value = args ++ [(name, value)] := by
  unfold BuildArgs.insert
  rw [List.filter_eq_self.2]
  intro p hp
  simpa using fun he : p.1 = name => h (he ▸ List.mem_map_of_mem hp)

/-- the second pass, over names that the object does not have yet -/
theorem foldlM_readArg (m : ArgMatches) {args : List StatefileArg} {acc obj : BuildArgs}
    (hn : (acc.map Prod.fst ++ args.map (·.name)).Nodup) :
    args.foldlM (readArg m) acc = .ok obj ↔
      ∃ values, List.Forall₂ (IsRead m) args values ∧ obj = acc ++ values := by
  induction args generalizing acc with
  | nil =>
    rw [List.foldlM_nil, Except.pure_eq_ok, Except.ok.injEq]
    simp [eq_comm]
  | cons a args ih =>
    have hfresh : a.name ∉ acc.map Prod.fst := by
      intro h
      exact (List.nodup_append.1 hn).2.2 _ h _ (List.mem_cons_self ..) rfl
    rw [List.foldlM_cons, Except.bind_eq_ok_iff]
    have hstep : ∀ acc', readArg m acc a = .ok acc' ↔ ∃ v, valueOf m a = .ok v ∧ acc' = acc ++ [(a.name, v)] := by
      intro acc'
      simp only [readArg, Except.bind_eq_ok_iff, Except.pure_eq_ok, Except.ok.injEq, BuildArgs.insert_fresh hfresh]
      exact exists_congr fun v => and_congr_right fun _ => eq_comm
    have hnext : ∀ v : ArgValue, ((acc ++ [(a.name, v)]).map Prod.fst ++ args.map (·.name)).Nodup := by
      intro v
      simpa using hn
    constructor
    · rintro ⟨acc', hacc, h⟩
      obtain ⟨v, hv, rfl⟩ := (hstep acc').1 hacc
      obtain ⟨values, hvalues, rfl⟩ := (ih (hnext v)).1 h
      exact ⟨(a.name, v) :: values, .cons ⟨rfl, hv⟩ hvalues, by simp⟩
    · rintro ⟨values, hvalues, rfl⟩
      obtain ⟨⟨name, v⟩, rest, ⟨hname, hv⟩, hrest, rfl⟩ := List.forall₂_cons_left_iff.1 hvalues
      obtain rfl : name = a.name := hname
      refine ⟨acc ++ [(a.name, v)], (hstep _).2 ⟨v, hv, rfl⟩, (ih (hnext v)).2 ⟨rest, hrest, by simp⟩⟩

/-- the required options of arguments without a default are given -/
theorem getMatchesFrom_eq {parseArgv : List ArgSpec → List String → Option (String → Option String)}
    {args : List StatefileArg} {argv : List String} {given : String → Option String}
    (hparse : parseArgv (args.map argSpec) argv = some given) (hg : ∀ a ∈ args, WellGiven given a) :
    getMatchesFrom parseArgv (args.map argSpec) argv = .ok ⟨args.map argSpec, given⟩ := by
  unfold getMatchesFrom
  rw [hparse]
  refine if_neg fun hany => ?_
  obtain ⟨s, hs, hmissing⟩ := List.any_eq_true.1 hany
  obtain ⟨a, ha, rfl⟩ := List.mem_map.1 hs
  obtain ⟨name, kind, default⟩ := a
  cases default with
  | some d => simp [argSpec] at hmissing
  | none =>
    by_cases hk : kind = .boolean
    · simp [argSpec, hk] at hmissing
    · obtain ⟨v, hv, -⟩ := hg _ ha rfl hk
      simp only at hv
      simp [argSpec, hk, hv] at hmissing

/-- the object has the declared names, each with the value that it stands for -/
structure Resolved (given : String → Option String) (args : List StatefileArg) (obj : BuildArgs) : Prop where
  names : ∀ name, name ∈ obj.map Prod.fst ↔ name ∈ args.map (·.name)
  values : ∀ a ∈ args, ∃ v, expected given a = some v ∧ obj.lookup a.name = some v

theorem lookup_values {m : ArgMatches} {args : List StatefileArg} (hn : (args.map (·.name)).Nodup) {values : BuildArgs}
    (h : List.Forall₂ (IsRead m) args values) {a : StatefileArg} (ha : a ∈ args) :
    ∃ v, values.lookup a.name = some v ∧ valueOf m a = .ok v := by
  induction h with
  | nil => cases ha
  | @cons b p args values hbp hrest ih =>
    obtain ⟨name, v⟩ := p
    obtain ⟨rfl, hv⟩ : name = b.name ∧ valueOf m b = .ok v := hbp
    rw [List.map_cons, List.nodup_cons] at hn
    rcases List.mem_cons.1 ha with rfl | ha
    · exact ⟨v, by simp, hv⟩
    · have hne : (a.name == b.name) = false := by
        rw [beq_eq_false_iff_ne]
        exact fun he => hn.1 (he ▸ List.mem_map_of_mem ha)
      rw [List.lookup_cons, hne]
      exact ih hn.2 ha

theorem map_fst_values {m : ArgMatches} {args : List StatefileArg} {values : BuildArgs}
    (h : List.Forall₂ (IsRead m) args values) : values.map Prod.fst = args.map (·.name) := by
  induction h with
  | nil => rfl
  | cons hbp _ ih => rw [List.map_cons, List.map_cons, ih, hbp.1]

/-- arguments that can be read one by one can be read together -/
theorem exists_values {m : ArgMatches} {args : List StatefileArg} (h : ∀ a ∈ args, ∃ v, valueOf m a = .ok v) :
    ∃ values, List.Forall₂ (IsRead m) args values := by
  induction args with
  | nil => exact ⟨[], .nil⟩
  | cons a args ih =>
    obtain ⟨v, hv⟩ := h a (List.mem_cons_self ..)
    obtain ⟨values, hvalues⟩ := ih fun b hb => h b (List.mem_cons_of_mem _ hb)
    exact ⟨(a.name, v) :: values, .cons ⟨rfl, hv⟩ hvalues⟩

/-- a readable argument stands for a value -/
theorem Readable.expected {given : String → Option String} {a : StatefileArg} (h : Readable given a)
    (hg : WellGiven given a) : ∃ v, expected given a = some v := by
  obtain ⟨hb, hnum⟩ := h
  obtain ⟨name, kind, default⟩ := a
  cases kind with
  | string =>
    cases default with
    | none =>
      obtain ⟨text, ht, -⟩ := hg rfl nofun
      exact ⟨.string text, by simp_all [Cli.expected]⟩
    | some d => cases ht : given name <;> simp [Cli.expected, ht]
  | boolean =>
    obtain rfl : default = none := hb rfl
    exact ⟨_, rfl⟩
  | number =>
    cases default with
    | none =>
      obtain ⟨text, ht, hn⟩ := hg rfl nofun
      obtain ⟨n, hn⟩ := hn rfl
      exact ⟨.number n, by simp_all [Cli.expected, Except.toOption]⟩
    | some d =>
      obtain ⟨n, hn⟩ := hnum rfl d rfl
      refine ⟨.number n, ?_⟩
      cases ht : given name <;> simp_all [Cli.expected, Except.toOption]

/-- **Build arguments.** For every list of arguments with distinct names and every command line that clap accepts and
that gives a value of its kind to each argument without a default, an object with the declared names and the values they
stand for is returned exactly if no boolean has a default and each number with a default is given, or defaults to, a
number. -/
theorem build_args_iff {parseArgv : List ArgSpec → List String → Option (String → Option String)}
    {args : List StatefileArg} {argv : List String} {given : String → Option String}
    (hn : (args.map (·.name)).Nodup)
    (hparse : parseArgv (args.map argSpec) ("nanocl state apply --" :: argv) = some given)
    (hg : ∀ a ∈ args, WellGiven given a) :
    (∃ obj, parseBuildArgs parseArgv (some args) argv = .ok obj ∧ Resolved given args obj) ↔
      ∀ a ∈ args, Readable given a := by
  have hrun : ∀ obj, parseBuildArgs parseArgv (some args) argv = .ok obj ↔
      List.Forall₂ (IsRead ⟨args.map argSpec, given⟩) args obj := by
    intro obj
    simp only [parseBuildArgs, Option.getD_some, getMatchesFrom_eq hparse hg, Except.ok_bind]
    rw [foldlM_readArg _ (by simpa using hn)]
    simp
  constructor
  · rintro ⟨obj, hok, -⟩ a ha
    obtain ⟨v, -, hv⟩ := lookup_values hn ((hrun obj).1 hok) ha
    exact ((valueOf_eq_ok_iff hn ha (hg a ha) v).1 hv).1
  · intro h
    have hvalue : ∀ a ∈ args, ∃ v, valueOf ⟨args.map argSpec, given⟩ a = .ok v := by
      intro a ha
      obtain ⟨v, hv⟩ := (h a ha).expected (hg a ha)
      exact ⟨v, (valueOf_eq_ok_iff hn ha (hg a ha) v).2 ⟨h a ha, hv⟩⟩
    obtain ⟨obj, hobj⟩ := exists_values hvalue
    refine ⟨obj, (hrun obj).2 hobj, fun name => by rw [map_fst_values hobj], fun a ha => ?_⟩
    obtain ⟨v, hlookup, hv⟩ := lookup_values hn hobj ha
    exact ⟨v, ((valueOf_eq_ok_iff hn ha (hg a ha) v).1 hv).2, hlookup⟩

/-! Two arguments, and a command line that gives the first one a value. -/

def nameArg : StatefileArg := ⟨"name", .string, none⟩

def portArg : StatefileArg := ⟨"port", .number, some "80"⟩

def tlsArg : StatefileArg := ⟨"tls", .boolean, some "true"⟩

/-- options with values, in any order -/
def longOptions : List ArgSpec → List String → Option (String → Option String)
  | _, [] => some fun _ => none
  | specs, _ :: argv =>
    let rec go : List String → Option (String → Option String)
      | [] => some fun _ => none
      | [_] => none
      | option :: value :: argv => do
        let s ← specs.find? fun s => "--" ++ s.long = option
        let given ← go argv
        return fun name => if name = s.long then some value else given name
    go argv

/-- the name that is given and the default port -/
theorem name_and_port_resolved : ∃ obj,
    parseBuildArgs longOptions (some [nameArg, portArg]) ["--name", "web"] = .ok obj ∧
      Resolved (fun name => if name = "name" then some "web" else none) [nameArg, portArg] obj :=
  (@build_args_iff longOptions [nameArg, portArg] ["--name", "web"] _ (by decide) rfl (by
    intro a ha hd hk
    simp only [List.mem_cons, List.not_mem_nil, or_false] at ha
    rcases ha with rfl | rfl
    · exact ⟨"web", rfl, fun h => nomatch h⟩
    · cases hd)).2 <| by
    intro a ha
    simp only [List.mem_cons, List.not_mem_nil, or_false] at ha
    rcases ha with rfl | rfl
    · refine ⟨fun _ => rfl, fun h => ?_⟩
      cases h
    · refine ⟨fun h => ?_, fun _ d hd => ?_⟩
      · cases h
      · cases hd
        exact ⟨80, rfl⟩

/-- a boolean with a default, and nothing on the command line -/
theorem boolean_default_panics :
    parseBuildArgs longOptions (some [tlsArg]) [] = .error .panic ∧
    ¬ ∃ obj, parseBuildArgs longOptions (some [tlsArg]) [] = .ok obj ∧ Resolved (fun _ => none) [tlsArg] obj := by
  have hpanic : parseBuildArgs longOptions (some [tlsArg]) [] = .error .panic := rfl
  refine ⟨hpanic, ?_⟩
  rintro ⟨obj, hok, -⟩
  rw [hpanic] at hok
  cases hok

end Nanocl.Cli
