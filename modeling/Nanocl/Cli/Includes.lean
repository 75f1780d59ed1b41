/-
Whether the resolution of the included states ends. The only guard compares the components of the included path with
those of the file that includes it; it sees a file that names itself, without `..`, and no longer cycle.

- `SubCall`: the calls that a call makes in turn; the guard has let them through.
- `Resolves`: the resolution ends, and with an error if a file includes itself, directly or through others.
- `resolves_iff`: it does where no file is reached again from its own sub states. Where the rendering does not depend on
  the arguments and the daemon, it does exactly there.
- `circular_includes`: two files that include each other are read again and again.
-/
import Mathlib.Data.Set.Finite.Basic
import Mathlib.Logic.Relation
import Nanocl.Cli.Statefile

namespace Nanocl.Cli

open Nanocl.Lib Nanocl.Objects

variable {δ : Type} (E : StateEnv δ)

/-! ## Files that include files -/

/-- finitely many Statefiles on a file system, and no network; a canonical path is its own canonical path -/
structure Local : Prop where
  finite : {p | ∃ s, E.read p = .ok s}.Finite
  canonicalize_self : ∀ s p, E.canonicalize s = .ok p → E.canonicalize (pathString p) = .ok p
  offline : ∀ call url, ∃ e, E.download call url = .error e

/-- rendering depends on nothing but the file -/
def Plain : Prop := ∀ call call' state args args', E.render call state args = E.render call' state args'

/-- a call for the file at a path -/
structure FileCall where
  call : List ℕ
  path : Path
  args : Args

variable {E}

/-- the path of a sub state names a file -/
def Names (E : StateEnv δ) (path : Path) (target : String) (q : Path) : Prop :=
  E.canonicalize (if startsWithHttp target then target else joinPath path.dropLast target) = .ok q

/-- the guard refuses the sub state -/
def Caught (path : Path) (target : String) : Prop :=
  startsWithHttp target = false ∧ path = components (joinPath path.dropLast target)

instance (path : Path) (target : String) : Decidable (Caught path target) := by unfold Caught; infer_instance

/-- the file at the path, as the call renders it -/
def FileCall.Renders (E : StateEnv δ) (c : FileCall) (state' : StateRef δ) : Prop :=
  ∃ state, readFromFile E c.path = .ok state ∧ renderState E c.call state c.args = .ok state'

/-- a call for a sub state that the guard lets through -/
def SubCall (E : StateEnv δ) (c c' : FileCall) : Prop :=
  ∃ state', c.Renders E state' ∧ ∃ i sub, state'.subStates[i]? = some sub ∧ c'.call = c.call ++ [i] ∧ c'.args = sub.args ∧
    Names E c.path sub.target c'.path ∧ ¬ Caught c.path sub.target ∧ ∃ s, E.read c'.path = .ok s

/-- the file of the call includes the file at the path, whether or not the guard lets it through -/
def FileCall.Includes (E : StateEnv δ) (c : FileCall) (path : Path) : Prop :=
  ∃ state', c.Renders E state' ∧ ∃ sub ∈ state'.subStates, Names E c.path sub.target path

/-- a file is reached that includes itself, directly or through others -/
def IncludesItself (E : StateEnv δ) (c : FileCall) : Prop :=
  ∃ c₁, Relation.ReflTransGen (SubCall E) c c₁ ∧ ∃ c₂, Relation.ReflTransGen (SubCall E) c₁ c₂ ∧ c₂.Includes E c₁.path

/-- what the call returns with some fuel -/
def FileCall.parse (E : StateEnv δ) (fuel : ℕ) (c : FileCall) : Outcome (List (StateRef δ)) :=
  match readFromFile E c.path with
  | .error e => some (.error (.error e))
  | .ok state => parseStateFileRecurr E fuel c.call state c.args

/-- **The resolution ends, with an error if a file includes itself** -/
def Resolves (E : StateEnv δ) (c : FileCall) : Prop :=
  ∃ fuel r, c.parse E fuel = some r ∧ (IncludesItself E c → ∃ e, r = .error e)

/-- no file is reached again from its own sub states, past the guard -/
def Acyclic (E : StateEnv δ) (c : FileCall) : Prop :=
  ∀ c₁ c₂, Relation.ReflTransGen (SubCall E) c c₁ → Relation.TransGen (SubCall E) c₁ c₂ → c₂.path ≠ c₁.path

/-! ## Sub states of files -/

theorem readFromFile_ok {path : Path} {state : StateRef δ} (h : readFromFile E path = .ok state) :
    state.root = .file path.dropLast ∧ state.location = pathString path ∧ ∃ s, E.read path = .ok s := by
  unfold readFromFile at h
  cases hread : E.read path with
  | error e =>
    rw [hread] at h
    cases h
  | ok s =>
    rw [hread] at h
    obtain rfl := Except.ok.inj h
    exact ⟨rfl, rfl, s, rfl⟩

theorem exists_readFromFile {path : Path} {s : String × Statefile δ} (h : E.read path = .ok s) :
    ∃ state, readFromFile E path = .ok state := ⟨_, by rw [readFromFile, h]; rfl⟩

theorem renderState_ok {call : List ℕ} {state state' : StateRef δ} {args : Args}
    (h : renderState E call state args = .ok state') :
    state'.root = state.root ∧ state'.location = state.location := by
  unfold renderState at h
  cases hr : E.render call state args with
  | error e =>
    rw [hr] at h
    cases h
  | ok r =>
    rw [hr] at h
    obtain rfl := Except.ok.inj h
    exact ⟨rfl, rfl⟩

/-- **How a sub state of a file is read**: the guard refuses it, or it is read where its path names a file -/
theorem readSubState_eq {c : FileCall} (hself : E.canonicalize (pathString c.path) = .ok c.path)
    {state' : StateRef δ} (hstate : c.Renders E state') (call : List ℕ) (target : String) :
    readSubState E call state' target =
      if Caught c.path target then .error (.error ⟨"Statefile", "Cannot include itself"⟩)
      else (readStateFile E call (if startsWithHttp target then target else joinPath c.path.dropLast target)).mapError
        .error := by
  obtain ⟨state, hread, hrender⟩ := hstate
  obtain ⟨hroot, hlocation, -⟩ := readFromFile_ok hread
  obtain ⟨hroot', hlocation'⟩ := renderState_ok hrender
  unfold readSubState
  by_cases hhttp : startsWithHttp target = true
  · rw [if_pos hhttp, if_pos hhttp, if_neg fun hc => by simp [hc.1] at hhttp]
    rfl
  · have hfull : fullSubStatePath E state' target =
        if c.path = components (joinPath c.path.dropLast target) then
          .error (.error ⟨"Statefile", "Cannot include itself"⟩) else .ok (joinPath c.path.dropLast target) := by
      simp only [fullSubStatePath, hroot', hroot, hlocation', hlocation, hself]
    rw [if_neg hhttp, if_neg hhttp, hfull]
    by_cases hc : c.path = components (joinPath c.path.dropLast target)
    · rw [if_pos hc, if_pos ⟨by simpa using hhttp, hc⟩]
      rfl
    · rw [if_neg hc, if_neg fun hcaught => hc hcaught.2]
      rfl

theorem SubCall.read {c c' : FileCall} (hcall : SubCall E c c') : ∃ s, E.read c'.path = .ok s := by
  obtain ⟨-, -, -, -, -, -, -, -, -, hread⟩ := hcall
  exact hread

/-- a call for a canonical path -/
def FileCall.Canonical (E : StateEnv δ) (c : FileCall) : Prop := E.canonicalize (pathString c.path) = .ok c.path

theorem SubCall.canonical (h : Local E) {c c' : FileCall} (hcall : SubCall E c c') : c'.Canonical E := by
  obtain ⟨-, -, -, sub, -, -, -, hnames, -⟩ := hcall
  exact h.canonicalize_self _ _ hnames

theorem canonical_of_reflTransGen (h : Local E) {c c' : FileCall} (hc : c.Canonical E)
    (hcall : Relation.ReflTransGen (SubCall E) c c') : c'.Canonical E := by
  induction hcall with
  | refl => exact hc
  | tail _ hlast _ => exact hlast.canonical h

/-- the future of a sub state is the call for its file, or an error -/
theorem parseSubState_cases (h : Local E) {c : FileCall} (hc : c.Canonical E) {state' : StateRef δ}
    (hstate : c.Renders E state') {i : ℕ} {sub : SubState} (hi : state'.subStates[i]? = some sub) (fuel : ℕ) :
    (∃ q, Names E c.path sub.target q ∧ SubCall E c ⟨c.call ++ [i], q, sub.args⟩ ∧
      parseSubState E (parseStateFileRecurr E fuel) (c.call ++ [i]) state' sub =
        FileCall.parse E fuel ⟨c.call ++ [i], q, sub.args⟩) ∨
    ((∀ q s, Names E c.path sub.target q → E.read q = .ok s → Caught c.path sub.target) ∧
      ∃ e, parseSubState E (parseStateFileRecurr E fuel) (c.call ++ [i]) state' sub = some (.error (.error e))) := by
  unfold parseSubState
  rw [readSubState_eq hc hstate]
  by_cases hcaught : Caught c.path sub.target
  · rw [if_pos hcaught]
    exact .inr ⟨fun _ _ _ _ => hcaught, _, rfl⟩
  · rw [if_neg hcaught]
    unfold readStateFile
    cases hcanon : E.canonicalize (if startsWithHttp sub.target then sub.target
        else joinPath c.path.dropLast sub.target) with
    | error e =>
      obtain ⟨e', he'⟩ := h.offline (c.call ++ [i]) (if startsWithHttp sub.target then sub.target
        else joinPath c.path.dropLast sub.target)
      refine .inr ⟨fun q s hq _ => ?_, e', ?_⟩
      · rw [Names, hcanon] at hq
        cases hq
      · simp only [getFromUrl, he']
        rfl
    | ok q =>
      cases hread : E.read q with
      | error e =>
        refine .inr ⟨fun q' s hq' hs => ?_, e, ?_⟩
        · obtain rfl := Except.ok.inj (hcanon.symm.trans hq')
          rw [hread] at hs
          cases hs
        · simp only [readFromFile, hread]
          rfl
      | ok s =>
        obtain ⟨state, hstate''⟩ := exists_readFromFile hread
        refine .inl ⟨q, hcanon, ⟨state', hstate, i, sub, hi, rfl, rfl, hcanon, hcaught, s, hread⟩, ?_⟩
        simp only [hstate'', FileCall.parse]
        rfl

theorem parse_eq {c : FileCall} {state' : StateRef δ} (hstate : c.Renders E state') (fuel : ℕ) :
    c.parse E (fuel + 1) = (joinOutcomes (state'.subStates.mapIdx fun i =>
      parseSubState E (parseStateFileRecurr E fuel) (c.call ++ [i]) state')).map
        (·.map fun subs => (state' :: subs.flatten).reverse) := by
  obtain ⟨state, hread, hrender⟩ := hstate
  rw [FileCall.parse, hread, ← parse_succ hrender]

/-- a call whose file is not rendered ends with an error -/
theorem parse_of_not_renders {c : FileCall} (h : ∀ state', ¬ c.Renders E state') (fuel : ℕ) :
    ∃ e, c.parse E (fuel + 1) = some (.error (.error e)) := by
  unfold FileCall.parse
  cases hread : readFromFile E c.path with
  | error e => exact ⟨e, rfl⟩
  | ok state =>
    cases hrender : E.render c.call state c.args with
    | error e => exact ⟨e, by simp only [parseStateFileRecurr, renderState, hrender]; rfl⟩
    | ok r => exact absurd ⟨state, hread, by rw [renderState, hrender]; rfl⟩ (h _)

/-- a call that returns a list got one from each sub state -/
theorem future_ok {c : FileCall} {state' : StateRef δ} (hstate : c.Renders E state') {fuel : ℕ}
    {states : List (StateRef δ)} (hparse : c.parse E (fuel + 1) = some (.ok states)) {i : ℕ} {sub : SubState}
    (hi : state'.subStates[i]? = some sub) :
    ∃ states', parseSubState E (parseStateFileRecurr E fuel) (c.call ++ [i]) state' sub = some (.ok states') := by
  rw [parse_eq hstate] at hparse
  obtain ⟨r, hjoin, hr⟩ := Option.map_eq_some_iff.1 hparse
  cases r with
  | error stop => cases hr
  | ok subs =>
    obtain ⟨hlt, hget⟩ := List.getElem?_eq_some_iff.1 hi
    have hall := List.forall₂_iff_get.1 (joinOutcomes_eq_ok.1 hjoin)
    have hlen : i < (state'.subStates.mapIdx fun i =>
        parseSubState E (parseStateFileRecurr E fuel) (c.call ++ [i]) state').length := by simpa using hlt
    have hthis := hall.2 i hlen (hall.1 ▸ hlen)
    simp only [List.get_eq_getElem, List.getElem_mapIdx, hget] at hthis
    exact ⟨_, hthis⟩

/-- the future that a sub call is -/
theorem parse_subCall (h : Local E) {c c' : FileCall} (hc : c.Canonical E) (hcall : SubCall E c c') (fuel : ℕ) :
    ∃ state' i sub, c.Renders E state' ∧ state'.subStates[i]? = some sub ∧
      parseSubState E (parseStateFileRecurr E fuel) (c.call ++ [i]) state' sub = c'.parse E fuel := by
  obtain ⟨state', hstate, i, sub, hi, hcall', hargs, hnames, hcaught, s, hread⟩ := hcall
  refine ⟨state', i, sub, hstate, hi, ?_⟩
  rcases parseSubState_cases h hc hstate hi fuel with ⟨q, hq, -, hparse⟩ | ⟨hall, -⟩
  · have hsame : (⟨c.call ++ [i], q, sub.args⟩ : FileCall) = c' := by
      rw [← hcall', ← hargs, Except.ok.inj (hq.symm.trans hnames)]
    rw [hparse, hsame]
  · exact absurd (hall _ s hnames hread) hcaught

/-- no call for local files panics -/
theorem parse_ne_panic (h : Local E) (fuel : ℕ) {c : FileCall} (hc : c.Canonical E) :
    c.parse E fuel ≠ some (.error .panic) := by
  induction fuel generalizing c with
  | zero =>
    unfold FileCall.parse
    cases readFromFile E c.path with
    | error e => simp
    | ok state => simp [parseStateFileRecurr]
  | succ fuel ih =>
    by_cases hstate : ∃ state', c.Renders E state'
    swap
    · obtain ⟨e, he⟩ := parse_of_not_renders (not_exists.1 hstate) fuel
      rw [he]
      simp
    obtain ⟨state', hstate⟩ := hstate
    rw [parse_eq hstate]
    intro hpanic
    obtain ⟨r, hjoin, hr⟩ := Option.map_eq_some_iff.1 hpanic
    obtain rfl : r = .error .panic := by
      cases r with
      | error stop => exact congrArg Except.error (Except.error.inj hr)
      | ok l => cases hr
    refine (joinOutcomes_awaits fun o ho => ?_).1 hjoin
    obtain ⟨i, hi, rfl⟩ := List.mem_mapIdx.1 ho
    rcases parseSubState_cases h hc hstate (List.getElem?_eq_getElem hi) fuel with ⟨q, -, hcall, hparse⟩ | ⟨-, e, he⟩
    · rw [hparse]
      exact ih (hcall.canonical h)
    · rw [he]
      simp

/-- a call that ends has awaited its sub calls -/
theorem subCall_isSome (h : Local E) {c c' : FileCall} (hc : c.Canonical E) (hcall : SubCall E c c') {fuel : ℕ}
    (hparse : (c.parse E (fuel + 1)).isSome) : (c'.parse E fuel).isSome := by
  obtain ⟨state', i, sub, hstate, hi, heq⟩ := parse_subCall h hc hcall fuel
  rw [parse_eq hstate, Option.isSome_map] at hparse
  rw [← heq]
  refine (joinOutcomes_awaits fun o ho => ?_).2 hparse _ ?_
  · obtain ⟨j, hj, rfl⟩ := List.mem_mapIdx.1 ho
    rcases parseSubState_cases h hc hstate (List.getElem?_eq_getElem hj) fuel with ⟨q, -, hcall', hparse'⟩ | ⟨-, e, he⟩
    · rw [hparse']
      exact parse_ne_panic h fuel (hcall'.canonical h)
    · rw [he]
      simp
  · obtain ⟨hlt, hget⟩ := List.getElem?_eq_some_iff.1 hi
    exact List.mem_mapIdx.2 ⟨i, hlt, by rw [hget]⟩

/-- a call that returns a list got one from each sub call -/
theorem subCall_ok (h : Local E) {c c' : FileCall} (hc : c.Canonical E) (hcall : SubCall E c c') {fuel : ℕ}
    {states : List (StateRef δ)} (hparse : c.parse E (fuel + 1) = some (.ok states)) :
    ∃ states', c'.parse E fuel = some (.ok states') := by
  obtain ⟨state', i, sub, hstate, hi, heq⟩ := parse_subCall h hc hcall fuel
  rw [← heq]
  exact future_ok hstate hparse hi

/-! ## A resolution that ends -/

theorem Acyclic.of_subCall {c c' : FileCall} (h : Acyclic E c) (hcall : SubCall E c c') : Acyclic E c' :=
  fun c₁ c₂ h₁ h₂ => h c₁ c₂ (h₁.head hcall) h₂

/-- **Without cycles a call ends**: each file on the way to a sub state is another one, and there are finitely many -/
theorem parse_isSome (h : Local E) {n : ℕ} (seen : Finset Path) {c : FileCall} (hc : c.Canonical E)
    (hread : ∃ s, E.read c.path = .ok s) (hcard : (h.finite.toFinset \ seen).card ≤ n)
    (hunseen : ∀ c', Relation.ReflTransGen (SubCall E) c c' → c'.path ∉ seen) (hacyclic : Acyclic E c) :
    (c.parse E n).isSome := by
  have hmem : c.path ∈ h.finite.toFinset \ seen :=
    Finset.mem_sdiff.2 ⟨h.finite.mem_toFinset.2 hread, hunseen c .refl⟩
  induction n generalizing seen c with
  | zero => exact absurd (Finset.card_pos.2 ⟨_, hmem⟩) (Nat.not_lt.2 hcard)
  | succ n ih =>
    by_cases hstate : ∃ state', c.Renders E state'
    swap
    · obtain ⟨e, he⟩ := parse_of_not_renders (not_exists.1 hstate) n
      rw [he]
      rfl
    obtain ⟨state', hstate⟩ := hstate
    rw [parse_eq hstate, Option.isSome_map]
    refine joinOutcomes_isSome fun o ho => ?_
    obtain ⟨i, hi, rfl⟩ := List.mem_mapIdx.1 ho
    rcases parseSubState_cases h hc hstate (List.getElem?_eq_getElem hi) n with ⟨q, -, hcall, hparse⟩ | ⟨-, e, he⟩
    · rw [hparse]
      have hread' : ∃ s, E.read q = .ok s := hcall.read
      have hunseen' : ∀ c', Relation.ReflTransGen (SubCall E) ⟨c.call ++ [i], q, state'.subStates[i].args⟩ c' →
          c'.path ∉ insert c.path seen := by
        intro c' hc'
        rw [Finset.mem_insert, not_or]
        exact ⟨hacyclic c c' .refl (.head' hcall hc'), hunseen c' (hc'.head hcall)⟩
      have hless : (h.finite.toFinset \ insert c.path seen).card < (h.finite.toFinset \ seen).card := by
        refine Finset.card_lt_card (Finset.ssubset_iff_subset_ne.2 ⟨?_, fun heq => ?_⟩)
        · exact Finset.sdiff_subset_sdiff subset_rfl (Finset.subset_insert _ _)
        · rw [← heq, Finset.mem_sdiff] at hmem
          exact hmem.2 (Finset.mem_insert_self _ _)
      refine ih (insert c.path seen) (hcall.canonical h) hread' (by omega) hunseen' (hacyclic.of_subCall hcall) ?_
      exact Finset.mem_sdiff.2 ⟨h.finite.mem_toFinset.2 hread', hunseen' _ .refl⟩
    · rw [he]
      rfl

theorem parse_zero_isSome {c : FileCall} (hread : ∃ s, E.read c.path = .ok s) : ¬ (c.parse E 0).isSome := by
  obtain ⟨s, hs⟩ := hread
  obtain ⟨state, hstate⟩ := exists_readFromFile hs
  simp [FileCall.parse, hstate, parseStateFileRecurr]

theorem parse_zero_ne_ok (c : FileCall) (states : List (StateRef δ)) : c.parse E 0 ≠ some (.ok states) := by
  unfold FileCall.parse
  cases readFromFile E c.path with
  | error e => simp
  | ok state => simp [parseStateFileRecurr]

/-- a call that returns a list got one from each call that is made for it -/
theorem ok_of_reflTransGen (h : Local E) {c c' : FileCall} (hc : c.Canonical E)
    (hcall : Relation.ReflTransGen (SubCall E) c c') {fuel : ℕ} {states : List (StateRef δ)}
    (hparse : c.parse E fuel = some (.ok states)) : ∃ fuel' states', c'.parse E (fuel' + 1) = some (.ok states') := by
  induction hcall using Relation.ReflTransGen.head_induction_on generalizing fuel states with
  | refl =>
    cases fuel with
    | zero => exact absurd hparse (parse_zero_ne_ok _ _)
    | succ fuel => exact ⟨fuel, states, hparse⟩
  | head hfirst _ ih =>
    cases fuel with
    | zero => exact absurd hparse (parse_zero_ne_ok _ _)
    | succ fuel =>
      obtain ⟨states', hparse'⟩ := subCall_ok h hc hfirst hparse
      exact ih (hfirst.canonical h) hparse'

/-- where only the guard stands between a file and itself, the guard has refused it -/
theorem error_of_includesItself (h : Local E) {c : FileCall} (hc : c.Canonical E) (hacyclic : Acyclic E c)
    (hself : IncludesItself E c) {fuel : ℕ} {states : List (StateRef δ)} : c.parse E fuel ≠ some (.ok states) := by
  intro hparse
  obtain ⟨c₁, h₁, c₂, h₂, state', hstate, sub, hsub, hnames⟩ := hself
  obtain ⟨fuel₁, states₁, hparse₁⟩ := ok_of_reflTransGen h hc h₁ hparse
  obtain ⟨fuel₂, states₂, hparse₂⟩ := ok_of_reflTransGen h hc (h₁.trans h₂) hparse
  -- the file is there, since its own call returns
  obtain ⟨s, hread⟩ : ∃ s, E.read c₁.path = .ok s := by
    unfold FileCall.parse at hparse₁
    cases hread : readFromFile E c₁.path with
    | error e =>
      rw [hread] at hparse₁
      cases hparse₁
    | ok state => exact (readFromFile_ok hread).2.2
  obtain ⟨i, hi, rfl⟩ := List.mem_iff_getElem.1 hsub
  obtain ⟨states', hok⟩ := future_ok hstate hparse₂ (List.getElem?_eq_getElem hi)
  have hcaught : Caught c₂.path state'.subStates[i].target := by
    by_contra hcaught
    have hcall : SubCall E c₂ ⟨c₂.call ++ [i], c₁.path, state'.subStates[i].args⟩ :=
      ⟨state', hstate, i, _, List.getElem?_eq_getElem hi, rfl, rfl, hnames, hcaught, s, hread⟩
    exact hacyclic c₁ _ h₁ (Relation.TransGen.tail' h₂ hcall) rfl
  have hcanonical := canonical_of_reflTransGen h hc (h₁.trans h₂)
  unfold parseSubState at hok
  rw [readSubState_eq hcanonical hstate, if_pos hcaught] at hok
  cases hok

/-! ## A resolution that does not -/

/-- in files without templates a file makes the same calls wherever it is included -/
theorem SubCall.bisim (hplain : Plain E) {c d c' : FileCall} (hcall : SubCall E c d) (hpath : c'.path = c.path) :
    ∃ d', SubCall E c' d' ∧ d'.path = d.path := by
  obtain ⟨state', ⟨state, hread, hrender⟩, i, sub, hi, -, -, hnames, hcaught, hread'⟩ := hcall
  rw [← hpath] at hread hnames hcaught
  unfold renderState at hrender
  rw [hplain c.call c'.call state c.args c'.args] at hrender
  cases hr : E.render c'.call state c'.args with
  | error e =>
    rw [hr] at hrender
    cases hrender
  | ok r =>
    rw [hr] at hrender
    obtain rfl := Except.ok.inj hrender
    exact ⟨⟨c'.call ++ [i], d.path, sub.args⟩, ⟨{ state with raw := r.1, data := r.2, call := c'.call },
      ⟨state, hread, by rw [renderState, hr]; rfl⟩, i, sub, hi, rfl, rfl, hnames, hcaught, hread'⟩, rfl⟩

/-- a call that comes back to its own file does not end -/
theorem path_ne_of_isSome (h : Local E) (hplain : Plain E) {fuel : ℕ} {c c' : FileCall} (hc : c.Canonical E)
    (hread : ∃ s, E.read c.path = .ok s) (hparse : (c.parse E fuel).isSome)
    (hcall : Relation.TransGen (SubCall E) c c') : c'.path ≠ c.path := by
  induction fuel generalizing c c' with
  | zero => exact absurd hparse (parse_zero_isSome hread)
  | succ fuel ih =>
    intro hpath
    obtain ⟨d, hfirst, hrest⟩ := Relation.TransGen.head'_iff.1 hcall
    -- the cycle seen from the second file on it
    obtain ⟨d', hlast, hd'⟩ := hfirst.bisim hplain hpath
    exact ih (hfirst.canonical h) hfirst.read (subCall_isSome h hc hfirst hparse) (Relation.TransGen.tail' hrest hlast) hd'

theorem isSome_of_reflTransGen (h : Local E) {c c' : FileCall} (hc : c.Canonical E)
    (hread : ∃ s, E.read c.path = .ok s) (hcall : Relation.ReflTransGen (SubCall E) c c') {fuel : ℕ}
    (hparse : (c.parse E fuel).isSome) : (∃ s, E.read c'.path = .ok s) ∧ ∃ fuel', (c'.parse E fuel').isSome := by
  induction hcall using Relation.ReflTransGen.head_induction_on generalizing fuel with
  | refl => exact ⟨hread, fuel, hparse⟩
  | head hfirst _ ih =>
    cases fuel with
    | zero => exact absurd hparse (parse_zero_isSome hread)
    | succ fuel => exact ih (hfirst.canonical h) hfirst.read (subCall_isSome h hc hfirst hparse)

/-- **Includes are resolved where no file is reached again from its own sub states; in files without templates, exactly
there.** -/
theorem resolves_iff (h : Local E) (c : FileCall) (hc : E.canonicalize (pathString c.path) = .ok c.path)
    (hread : ∃ s, E.read c.path = .ok s) :
    (Acyclic E c → Resolves E c) ∧ (Plain E → (Resolves E c ↔ Acyclic E c)) := by
  have hresolves : Acyclic E c → Resolves E c := by
    intro hacyclic
    obtain ⟨r, hr⟩ := Option.isSome_iff_exists.1
      (parse_isSome h ∅ hc hread le_rfl (fun _ _ => Finset.notMem_empty _) hacyclic)
    refine ⟨_, r, hr, fun hself => ?_⟩
    rcases r with (e | _) | states
    · exact ⟨_, rfl⟩
    · exact ⟨_, rfl⟩
    · exact absurd hr (error_of_includesItself h hc hacyclic hself)
  refine ⟨hresolves, fun hplain => ⟨fun hres => ?_, hresolves⟩⟩
  obtain ⟨fuel, r, hr, -⟩ := hres
  intro c₁ c₂ h₁ h₂
  obtain ⟨hread₁, fuel₁, hparse₁⟩ := isSome_of_reflTransGen h hc hread h₁ (Option.isSome_iff_exists.2 ⟨r, hr⟩)
  exact path_ne_of_isSome h hplain (canonical_of_reflTransGen h hc h₁) hread₁ hparse₁ h₂

/-! ## Instances -/

theorem local_localEnv {files : List (Path × List String)}
    (h : ∀ f ∈ files, resolveParents (components (pathString f.1)) = f.1) : Local (localEnv files) where
  finite := by
    refine Set.Finite.subset (files.map (·.1)).finite_toSet fun p hp => ?_
    obtain ⟨s, hs⟩ := hp
    cases hfind : files.find? (·.1 = p) with
    | none =>
      simp only [localEnv, hfind] at hs
      cases hs
    | some f => exact List.mem_map.2 ⟨f, List.mem_of_find?_eq_some hfind, by simpa using List.find?_some hfind⟩
  canonicalize_self s p hp := by
    simp only [localEnv] at hp ⊢
    split_ifs at hp with hany
    obtain rfl := Except.ok.inj hp
    obtain ⟨f, hf, heq⟩ := List.any_eq_true.1 hany
    have hself := h f hf
    rw [of_decide_eq_true heq] at hself
    rw [hself, if_pos hany]
  offline _ _ := ⟨_, rfl⟩

theorem plain_localEnv (files : List (Path × List String)) : Plain (localEnv files) := fun _ _ _ _ _ => rfl

/-- what a file of an instance renders to -/
theorem renders_localEnv {files : List (Path × List String)} {c : FileCall} {state' : StateRef String}
    (h : c.Renders (localEnv files) state') :
    ∃ f ∈ files, f.1 = c.path ∧ state'.subStates = f.2.map .path := by
  obtain ⟨state, hread, hrender⟩ := h
  cases hfind : files.find? (·.1 = c.path) with
  | none =>
    simp only [readFromFile, localEnv, hfind] at hread
    cases hread
  | some f =>
    simp only [readFromFile, localEnv, hfind] at hread
    obtain rfl := Except.ok.inj hread
    obtain rfl := Except.ok.inj hrender
    exact ⟨f, List.mem_of_find?_eq_some hfind, by simpa using List.find?_some hfind, rfl⟩

/-- an application and its cache, which include the same volume, the application once more in another spelling -/
def diamondFiles : List (Path × List String) :=
  [(["srv", "app.yml"], ["./cache.yml", "../srv/./volume.yml"]), (["srv", "cache.yml"], ["volume.yml"]),
    (["srv", "volume.yml"], [])]

/-- the files by how far they are from the volume -/
def diamondRank (path : Path) : ℕ := if path = ["srv", "app.yml"] then 2 else if path = ["srv", "cache.yml"] then 1 else 0

theorem diamond_rank {c c' : FileCall} (h : SubCall (localEnv diamondFiles) c c') :
    diamondRank c'.path < diamondRank c.path := by
  obtain ⟨state', hstate, i, sub, hi, -, -, hnames, -⟩ := h
  obtain ⟨f, hf, hpath, hsubs⟩ := renders_localEnv hstate
  rw [hsubs] at hi
  obtain ⟨target, htarget, rfl⟩ := List.mem_map.1 (List.mem_of_getElem? hi)
  rw [← hpath] at hnames ⊢
  have hall : ∀ f ∈ diamondFiles, ∀ target ∈ f.2, ∃ q, Names (localEnv diamondFiles) f.1 target q ∧
      diamondRank q < diamondRank f.1 := by
    intro f hf target htarget
    simp only [diamondFiles, List.mem_cons, List.not_mem_nil, or_false] at hf
    rcases hf with rfl | rfl | rfl
    · simp only [List.mem_cons, List.not_mem_nil, or_false] at htarget
      rcases htarget with rfl | rfl
      · exact ⟨["srv", "cache.yml"], rfl, by decide⟩
      · exact ⟨["srv", "volume.yml"], rfl, by decide⟩
    · obtain rfl := List.mem_singleton.1 htarget
      exact ⟨["srv", "volume.yml"], rfl, by decide⟩
    · cases htarget
  obtain ⟨q, hq, hless⟩ := hall f hf target htarget
  obtain rfl := Except.ok.inj (hq.symm.trans hnames)
  exact hless

theorem resolves_diamond : Resolves (localEnv diamondFiles) ⟨[], ["srv", "app.yml"], []⟩ := by
  refine (resolves_iff (local_localEnv (by decide)) _ rfl ⟨_, rfl⟩).1 fun c₁ c₂ _ h heq => ?_
  have hless : diamondRank c₂.path < diamondRank c₁.path := by
    clear heq
    induction h with
    | single hcall => exact diamond_rank hcall
    | tail _ hcall ih => exact (diamond_rank hcall).trans ih
  rw [heq] at hless
  exact lt_irrefl _ hless

/-- two files that include each other -/
def circularFiles : List (Path × List String) :=
  [(["srv", "app.yml"], ["./db.yml"]), (["srv", "db.yml"], ["./app.yml"])]

/-- their resolution does not end -/
theorem circular_includes : ¬ ∀ (E : StateEnv String) (c : FileCall), Local E →
    E.canonicalize (pathString c.path) = .ok c.path → (∃ s, E.read c.path = .ok s) → Resolves E c := by
  intro h
  have hlocal : Local (localEnv circularFiles) := local_localEnv (by decide)
  have hread : ∃ s, (localEnv circularFiles).read ["srv", "app.yml"] = .ok s := ⟨_, rfl⟩
  obtain ⟨fuel, r, hr, -⟩ := h (localEnv circularFiles) ⟨[], ["srv", "app.yml"], []⟩ hlocal rfl hread
  have hdb : SubCall (localEnv circularFiles) ⟨[], ["srv", "app.yml"], []⟩ ⟨[0], ["srv", "db.yml"], []⟩ :=
    ⟨_, ⟨_, rfl, rfl⟩, 0, .path "./db.yml", rfl, rfl, rfl, rfl, by decide, _, rfl⟩
  have happ : SubCall (localEnv circularFiles) ⟨[0], ["srv", "db.yml"], []⟩ ⟨[0, 0], ["srv", "app.yml"], []⟩ :=
    ⟨_, ⟨_, rfl, rfl⟩, 0, .path "./app.yml", rfl, rfl, rfl, rfl, by decide, _, rfl⟩
  have hcanonical : FileCall.Canonical (localEnv circularFiles) ⟨[], ["srv", "app.yml"], []⟩ := rfl
  exact path_ne_of_isSome hlocal (plain_localEnv circularFiles) hcanonical hread (Option.isSome_iff_exists.2 ⟨r, hr⟩)
    (.tail (.single hdb) happ) rfl

end Nanocl.Cli
