/-
Lists of variables, to which a list of assignments is merged one after another. A variable has a name and a value, or a
name only. An assignment finds the first variable of its name that has a value and rewrites it where it stands, or removes
it if the assigned value is empty; where there is none, it appends the assigned value, empty or not. The value is compared
with the *whole* old variable, so one that looks like the whole of it is not assigned.

- `assign_cases`: what one assignment does.
- `Merged`: what merging has to make of a list: each name has its last value, or is gone if that is empty; the other
  variables keep their values and their order; no name is there twice; and merging again changes nothing.
- `Fits`: when it does so, read off the variables that are there and the values that each name is given.
- `value_merge`, `order_merge`: the value of a name, and the order of the names, after all assignments.
- `merged_iff`: the assignments are merged as they have to be exactly if they fit.
-/
import Mathlib.Algebra.Group.Nat.Even
import Mathlib.Data.List.Basic
import Mathlib.Data.List.Induction
import Mathlib.Data.List.Nodup

namespace Nanocl.Objects

/-- values of variables: the empty one, and the text of a whole variable read as a value -/
structure VarOps (κ ω : Type) where
  empty : ω
  whole : κ → ω → ω
  whole_ne : ∀ n w, whole n w ≠ w
  whole_ne_empty : ∀ n w, whole n w ≠ empty

abbrev Var (κ ω : Type) := κ × Option ω

variable {κ ω : Type} [DecidableEq κ]

/-! ## Last values -/

/-- the last value that is assigned to a name -/
def last (ps : List (κ × ω)) (n : κ) : Option ω := ((ps.filter fun p => p.1 = n).getLast?).map Prod.snd

section Last

variable {ps : List (κ × ω)} {n m : κ} {v w : ω}

@[simp] theorem last_nil : last ([] : List (κ × ω)) n = none := rfl

@[simp] theorem last_concat : last (ps ++ [(m, v)]) n = if m = n then some v else last ps n := by
  by_cases h : m = n <;> simp [last, List.filter_append, h]

theorem mem_of_last (h : last ps n = some v) : (n, v) ∈ ps := by
  induction ps using List.reverseRecOn with
  | nil => cases h
  | append_singleton ps p ih =>
    obtain ⟨m, u⟩ := p
    rw [last_concat] at h
    split at h
    · next hm =>
      cases h
      simp [hm]
    · exact List.mem_append_left _ (ih h)

theorem last_eq_none_iff : last ps n = none ↔ ∀ v, (n, v) ∉ ps := by
  constructor
  · intro h v hv
    induction ps using List.reverseRecOn with
    | nil => cases hv
    | append_singleton ps p ih =>
      obtain ⟨m, u⟩ := p
      rw [last_concat] at h
      split at h
      · cases h
      · next hm =>
        rcases List.mem_append.1 hv with hv | hv
        · exact ih h hv
        · exact hm (by simpa using (congrArg Prod.fst (List.mem_singleton.1 hv)).symm)
  · intro h
    cases hlast : last ps n with
    | none => rfl
    | some v => exact absurd (mem_of_last hlast) (h v)

theorem last_isSome_of_mem (h : (n, v) ∈ ps) : ∃ u, last ps n = some u := by
  cases hlast : last ps n with
  | none => exact absurd h (last_eq_none_iff.1 hlast v)
  | some u => exact ⟨u, rfl⟩

end Last

variable [DecidableEq ω] (O : VarOps κ ω)

/-! ## Assignments -/

/-- one assignment -/
def VarOps.assign (vars : List (Var κ ω)) (p : κ × ω) : List (Var κ ω) :=
  match vars.findIdx? fun x => decide (x.1 = p.1) && x.2.isSome with
  | none => vars ++ [(p.1, some p.2)]
  | some pos =>
    if (vars[pos]?.bind Prod.snd).map (O.whole p.1) ≠ some p.2 ∧ p.2 ≠ O.empty then vars.set pos (p.1, some p.2)
    else if p.2 = O.empty then vars.eraseIdx pos
    else vars

/-- all assignments in turn -/
def VarOps.merge (vars : List (Var κ ω)) (ps : List (κ × ω)) : List (Var κ ω) := ps.foldl O.assign vars

/-! ## Property -/

/-- what merging has to make of `vars` -/
structure Merged (vars : List (Var κ ω)) (ps : List (κ × ω)) (new : List (Var κ ω)) : Prop where
  assigned : ∀ n v, last ps n = some v → v ≠ O.empty → (n, some v) ∈ new
  emptied : ∀ n, last ps n = some O.empty → ∀ x ∈ new, x.1 ≠ n
  others : (new.filter fun x => last ps x.1 = none) = vars.filter fun x => last ps x.1 = none
  nodup : (new.map Prod.fst).Nodup
  again : O.merge new ps = new

/-! ## When assignments fit

A name that is not there is put at the end by whatever it is given, also by an empty value; one that is there is taken away
by an empty value, and stays where it is otherwise. -/

/-- the values that a name is given, the last one first -/
def given (ps : List (κ × ω)) (n : κ) : List ω := ((ps.filter fun p => p.1 = n).map Prod.snd).reverse

/-- the value of a variable -/
def valueOf (vars : List (Var κ ω)) (n : κ) : Option ω := (vars.find? fun x => x.1 = n).bind Prod.snd

/-- whether a name is there that had the value `o` and is given `vs`, the last one first: the empty values at the end take it
away and put it back in turn -/
def VarOps.There (o : Option ω) (vs : List ω) : Prop :=
  Even (vs.takeWhile fun v => v = O.empty).length ↔ (o.isSome ∨ ∃ v ∈ vs, v ≠ O.empty)

instance (o : Option ω) (vs : List ω) : Decidable (O.There o vs) := inferInstanceAs (Decidable (_ ↔ _))

/-- whether a value is not assigned that comes after `vs`: it is the text of the variable with the value before it, which is
there and was itself assigned, or it comes after a value that is the same and was not assigned -/
def VarOps.Refused (n : κ) (o : Option ω) : List ω → ω → Prop
  | [], v => ∃ w, o = some w ∧ v = O.whole n w
  | w :: ws, v => (v = w ∧ VarOps.Refused n o ws w) ∨ (v = O.whole n w ∧ O.There o (w :: ws) ∧ ¬ VarOps.Refused n o ws w)

/-- the value that the last one of these leaves to a name: none if it is empty -/
def VarOps.left (vs : List ω) : Option ω := vs.head?.filter fun v => v ≠ O.empty

/-- when a name that had the value `o` has the last one of `vs` after it is given them, or is gone if that is empty -/
structure FitsVar (n : κ) (o : Option ω) (vs : List ω) : Prop where
  emptied : vs.head? = some O.empty → ¬ O.There o vs
  assigned : ∀ v ws, vs = v :: ws → v ≠ O.empty → ¬ O.Refused n o ws v

/-- the number of the last assignment that puts a name at the end, and `0` if none does -/
def VarOps.lastPut (o : Option ω) (ps : List (κ × ω)) (n : κ) : ℕ :=
  ((List.range ps.length).filter fun i =>
    (ps[i]?.map Prod.fst = some n : Bool) && !decide (O.There o (given (ps.take i) n))).getLast?.elim 0 (· + 1)

/-- when assignments are merged to `vars` as they have to be -/
structure Fits (vars : List (Var κ ω)) (ps : List (κ × ω)) : Prop where
  /-- no assigned name is there without a value -/
  bare : ∀ n v, (n, v) ∈ ps → (n, none) ∉ vars
  /-- each name gets what it has to -/
  first : ∀ n, FitsVar O n (valueOf vars n) (given ps n)
  /-- it does so again, from what it got -/
  again : ∀ n, FitsVar O n (O.left (given ps n)) (given ps n)
  /-- of two names that are left, the one that is put later again was put later before -/
  order : ∀ n m, O.left (given ps n) ≠ none → O.left (given ps m) ≠ none →
    O.lastPut (O.left (given ps n)) ps n < O.lastPut (O.left (given ps m)) ps m →
      O.lastPut (valueOf vars n) ps n < O.lastPut (valueOf vars m) ps m

/-! ## One assignment -/

section Assign

variable {O} {vars : List (Var κ ω)} {n : κ} {v : ω}

/-- **What one assignment does**: it appends, removes, keeps or rewrites. -/
theorem assign_cases (vars : List (Var κ ω)) (n : κ) (v : ω) :
    ((∀ w, (n, some w) ∉ vars) ∧ O.assign vars (n, v) = vars ++ [(n, some v)]) ∨
    ∃ l₁ w l₂, vars = l₁ ++ (n, some w) :: l₂ ∧
      ((v = O.empty ∧ O.assign vars (n, v) = l₁ ++ l₂) ∨
        (v ≠ O.empty ∧ v = O.whole n w ∧ O.assign vars (n, v) = vars) ∨
        (v ≠ O.empty ∧ v ≠ O.whole n w ∧ O.assign vars (n, v) = l₁ ++ (n, some v) :: l₂)) := by
  cases hfind : vars.find? fun x => decide (x.1 = n) && x.2.isSome with
  | none =>
    have hno : ∀ x ∈ vars, (decide (x.1 = n) && x.2.isSome) = false := by
      intro x hx
      simpa using List.find?_eq_none.1 hfind x hx
    refine .inl ⟨fun w hw => by simpa using hno _ hw, ?_⟩
    have hidx : (vars.findIdx? fun x => decide (x.1 = n) && x.2.isSome) = none := List.findIdx?_eq_none_iff.2 hno
    unfold VarOps.assign
    rw [hidx]
  | some x =>
    obtain ⟨hx, l₁, l₂, rfl, hl₁⟩ := List.find?_eq_some_iff_append.1 hfind
    obtain ⟨m, w⟩ := x
    obtain ⟨hm, hw⟩ := Bool.and_eq_true_iff.1 hx
    obtain rfl := of_decide_eq_true hm
    obtain ⟨w, rfl⟩ := Option.isSome_iff_exists.1 hw
    refine .inr ⟨l₁, w, l₂, rfl, ?_⟩
    have hidx : ((l₁ ++ (m, some w) :: l₂).findIdx? fun x => decide (x.1 = m) && x.2.isSome) = some l₁.length := by
      have hnone : (l₁.findIdx? fun x => decide (x.1 = m) && x.2.isSome) = none :=
        List.findIdx?_eq_none_iff.2 fun x hx => by simpa [imp_iff_not_or] using hl₁ x hx
      simp [List.findIdx?_append, hnone, List.findIdx?_cons]
    have hassign : O.assign (l₁ ++ (m, some w) :: l₂) (m, v) =
        if v ≠ O.whole m w ∧ v ≠ O.empty then l₁ ++ (m, some v) :: l₂
        else if v = O.empty then l₁ ++ l₂ else l₁ ++ (m, some w) :: l₂ := by
      unfold VarOps.assign
      rw [hidx]
      simp [List.eraseIdx_append_of_length_le, eq_comm]
    rw [hassign]
    by_cases hv : v = O.empty
    · exact .inl ⟨hv, by simp [hv]⟩
    · by_cases hwhole : v = O.whole m w
      · exact .inr (.inl ⟨hv, hwhole, by rw [if_neg (fun h => h.1 hwhole), if_neg hv]⟩)
      · exact .inr (.inr ⟨hv, hwhole, by simp [hv, hwhole]⟩)

end Assign

/-! ## One name -/

section Value

variable {O} {n m : κ} {o : Option ω} {vs ws : List ω} {v w : ω} {ps : List (κ × ω)}

omit [DecidableEq ω] in
@[simp] theorem given_nil : given ([] : List (κ × ω)) n = [] := rfl

omit [DecidableEq ω] in
@[simp] theorem given_concat : given (ps ++ [(m, v)]) n = if m = n then v :: given ps n else given ps n := by
  by_cases h : m = n <;> simp [given, List.filter_append, h]

omit [DecidableEq ω] in
theorem mem_given : v ∈ given ps n ↔ (n, v) ∈ ps := by
  simp [given]

omit [DecidableEq ω] in
theorem last_eq_head (ps : List (κ × ω)) (n : κ) : last ps n = (given ps n).head? := by
  simp [last, given, List.head?_reverse, List.getLast?_map]

omit [DecidableEq κ] in
@[simp] theorem there_nil : O.There o [] ↔ o.isSome := by
  simp [VarOps.There]

omit [DecidableEq κ] in
/-- **An empty value takes a name away or puts it back, and another one leaves it there.** -/
@[simp] theorem there_cons : O.There o (v :: vs) ↔ v ≠ O.empty ∨ ¬ O.There o vs := by
  unfold VarOps.There
  by_cases hv : v = O.empty
  · simp only [hv, List.takeWhile_cons, decide_true, if_true, List.length_cons, Nat.even_add_one, List.mem_cons,
      exists_eq_or_imp, ne_eq, not_true_eq_false, false_or]
    exact not_iff.symm
  · simp [hv]

/-- what a value makes of the one that a name has -/
def VarOps.next (O : VarOps κ ω) (n : κ) (v : ω) (o : Option ω) : Option ω :=
  match o with
  | none => some v
  | some w => if v = O.empty then none else if v = O.whole n w then some w else some v

omit [DecidableEq κ] in
theorem there_iff (n : κ) : O.There o vs ↔ (vs.foldr (O.next n) o).isSome := by
  induction vs with
  | nil => simp
  | cons v vs ih =>
    rw [there_cons, ih, List.foldr_cons]
    cases h : vs.foldr (O.next n) o with
    | none => simp [VarOps.next]
    | some w =>
      by_cases hv : v = O.empty
      · simp [VarOps.next, hv]
      · by_cases hw : v = O.whole n w <;> simp [VarOps.next, hv, hw, O.whole_ne_empty]

omit [DecidableEq κ] in
/-- an empty value is the text of no variable -/
theorem not_refused_empty : ¬ O.Refused n o vs O.empty := by
  induction vs with
  | nil => rintro ⟨w, -, hw⟩; exact O.whole_ne_empty n w hw.symm
  | cons v vs ih =>
    rintro (⟨rfl, h⟩ | ⟨h, -⟩)
    · exact ih h
    · exact O.whole_ne_empty n v h.symm

omit [DecidableEq κ] in
/-- **The values that are not assigned** are the texts of the variable as it stands. -/
theorem refused_iff (hv : v ≠ O.empty) : O.Refused n o vs v ↔ ∃ w, vs.foldr (O.next n) o = some w ∧ v = O.whole n w := by
  induction vs generalizing v with
  | nil => rfl
  | cons w vs ih =>
    rw [VarOps.Refused, there_iff n, List.foldr_cons]
    by_cases hw : w = O.empty
    · subst hw
      have hno : ¬ O.Refused n o vs O.empty := not_refused_empty
      cases h : vs.foldr (O.next n) o with
      | none => simp [hv, hno, VarOps.next]
      | some u => simp [hv, hno, VarOps.next]
    · rw [ih hw]
      cases h : vs.foldr (O.next n) o with
      | none => simp [VarOps.next]
      | some u =>
        by_cases hu : w = O.whole n u
        · -- the value before was not assigned, so the older one is still there
          simp [VarOps.next, hu, O.whole_ne_empty]
        · simp [VarOps.next, hw, hu]

omit [DecidableEq κ] in
/-- **A name has what it has to exactly if its values fit.** -/
theorem fitsVar_iff : FitsVar O n o vs ↔ (vs = [] ∨ vs.foldr (O.next n) o = O.left vs) := by
  cases vs with
  | nil => exact iff_of_true ⟨nofun, nofun⟩ (.inl rfl)
  | cons v vs =>
    simp only [reduceCtorEq, false_or]
    by_cases hv : v = O.empty
    · subst hv
      have hleft : O.left (O.empty :: vs) = none := by simp [VarOps.left]
      rw [hleft, ← Option.not_isSome_iff_eq_none, ← there_iff n]
      refine ⟨fun h => h.emptied rfl, fun h => ⟨fun _ => h, ?_⟩⟩
      rintro _ _ ⟨⟩ hne
      exact absurd rfl hne
    · have hleft : O.left (v :: vs) = some v := by simp [VarOps.left, hv]
      have hstep : FitsVar O n o (v :: vs) ↔ ¬ O.Refused n o vs v := by
        refine ⟨fun h => h.assigned v vs rfl hv, fun h => ⟨fun hemp => absurd (Option.some.inj hemp) hv, ?_⟩⟩
        rintro _ _ ⟨⟩ -
        exact h
      rw [hstep, hleft, refused_iff hv, List.foldr_cons]
      cases vs.foldr (O.next n) o with
      | none => simp [VarOps.next]
      | some w =>
        by_cases hw : v = O.whole n w
        · simp [VarOps.next, hw, O.whole_ne_empty, (O.whole_ne n w).symm]
        · simp [VarOps.next, hv, hw]

end Value

/-! ## All assignments -/

section Merge

variable {O} {vars L : List (Var κ ω)} {ps : List (κ × ω)} {n m : κ} {v w : ω}

@[simp] theorem merge_nil : O.merge vars [] = vars := rfl

theorem merge_concat : O.merge vars (ps ++ [(n, v)]) = O.assign (O.merge vars ps) (n, v) := by
  simp [VarOps.merge, List.foldl_append]

theorem assign_others : ((O.assign L (n, v)).filter fun x => x.1 ≠ n) = L.filter fun x => x.1 ≠ n := by
  obtain ⟨-, heq⟩ | ⟨l₁, w, l₂, rfl, ⟨-, heq⟩ | ⟨-, -, heq⟩ | ⟨-, -, heq⟩⟩ := assign_cases (O := O) L n v <;>
    rw [heq] <;> simp [List.filter_append]

theorem mem_assign_of_ne (h : m ≠ n) {w : Option ω} : (m, w) ∈ O.assign L (n, v) ↔ (m, w) ∈ L := by
  have := congrArg ((m, w) ∈ ·) (assign_others (O := O) (L := L) (n := n) (v := v))
  simpa [h] using this

/-- no variable without a value comes or goes -/
theorem bare_assign : (m, none) ∈ O.assign L (n, v) ↔ (m, none) ∈ L := by
  obtain ⟨-, heq⟩ | ⟨l₁, w, l₂, rfl, ⟨-, heq⟩ | ⟨-, -, heq⟩ | ⟨-, -, heq⟩⟩ := assign_cases (O := O) L n v <;>
    rw [heq] <;> simp

theorem bare_merge : (m, none) ∈ O.merge vars ps ↔ (m, none) ∈ vars := by
  induction ps using List.reverseRecOn with
  | nil => rfl
  | append_singleton ps p ih => rw [merge_concat, bare_assign, ih]

/-- **The names that are not assigned keep their variables.** -/
theorem merge_others :
    ((O.merge vars ps).filter fun x => last ps x.1 = none) = vars.filter fun x => last ps x.1 = none := by
  induction ps using List.reverseRecOn with
  | nil => rfl
  | append_singleton ps p ih =>
    obtain ⟨n, v⟩ := p
    have hsplit : ∀ M : List (Var κ ω), (M.filter fun x => last (ps ++ [(n, v)]) x.1 = none) =
        (M.filter fun x => x.1 ≠ n).filter fun x => last ps x.1 = none := by
      intro M
      rw [List.filter_filter]
      refine List.filter_congr fun x _ => ?_
      by_cases hx : n = x.1
      · simp [hx]
      · simp [hx, Ne.symm hx]
    have hcomm : ∀ M : List (Var κ ω), ((M.filter fun x => x.1 ≠ n).filter fun x => last ps x.1 = none) =
        (M.filter fun x => last ps x.1 = none).filter fun x => x.1 ≠ n := fun M => by
      rw [List.filter_filter, List.filter_filter]
      exact List.filter_congr fun x _ => Bool.and_comm _ _
    rw [merge_concat, hsplit, hsplit, assign_others, hcomm, hcomm, ih]

omit [DecidableEq κ] [DecidableEq ω] in
/-- the names have one variable each -/
theorem unique_of_nodup (hL : (L.map Prod.fst).Nodup) {x y : Option ω} (hx : (n, x) ∈ L) (hy : (n, y) ∈ L) : x = y := by
  induction L with
  | nil => cases hx
  | cons z L ih =>
    rw [List.map_cons, List.nodup_cons] at hL
    have hno : ∀ x, z.1 = n → (n, x) ∉ L := fun x hz hmem => hL.1 (hz ▸ List.mem_map_of_mem hmem)
    rcases List.mem_cons.1 hx with hzx | hx <;> rcases List.mem_cons.1 hy with hzy | hy
    · exact congrArg Prod.snd (hzx.trans hzy.symm)
    · exact absurd hy (hno y (congrArg Prod.fst hzx).symm)
    · exact absurd hx (hno x (congrArg Prod.fst hzy).symm)
    · exact ih hL.2 hx hy

omit [DecidableEq ω] in
theorem valueOf_eq_some_iff (hL : (L.map Prod.fst).Nodup) : valueOf L n = some w ↔ (n, some w) ∈ L := by
  unfold valueOf
  cases hfind : L.find? fun x => x.1 = n with
  | none =>
    refine iff_of_false (by simp) fun hmem => ?_
    simpa using List.find?_eq_none.1 hfind _ hmem
  | some x =>
    obtain ⟨m, u⟩ := x
    obtain rfl : m = n := by simpa using List.find?_some hfind
    have hx := List.mem_of_find?_eq_some hfind
    constructor
    · rintro rfl
      exact hx
    · intro hmem
      exact unique_of_nodup hL hx hmem

omit [DecidableEq ω] in
/-- a name is there if it has a value, where it is not there without one -/
theorem mem_names_iff (hL : (L.map Prod.fst).Nodup) (hbare : (n, none) ∉ L) :
    n ∈ L.map Prod.fst ↔ (valueOf L n).isSome := by
  rw [Option.isSome_iff_exists]
  simp only [valueOf_eq_some_iff hL]
  constructor
  · intro h
    obtain ⟨⟨m, w⟩, hx, rfl⟩ := List.mem_map.1 h
    cases w with
    | none => exact absurd hx hbare
    | some w => exact ⟨w, hx⟩
  · rintro ⟨w, hw⟩
    exact List.mem_map_of_mem (f := Prod.fst) hw

/-- the names after an assignment -/
theorem names_assign (hL : (L.map Prod.fst).Nodup) (hbare : (n, none) ∉ L) :
    (O.assign L (n, v)).map Prod.fst =
      if n ∉ L.map Prod.fst then L.map Prod.fst ++ [n]
      else if v = O.empty then (L.map Prod.fst).filter (· ≠ n) else L.map Prod.fst := by
  obtain ⟨hno, heq⟩ | ⟨l₁, w, l₂, rfl, hcase⟩ := assign_cases (O := O) L n v
  · have hn : n ∉ L.map Prod.fst := by
      rw [mem_names_iff hL hbare, Option.isSome_iff_exists]
      rintro ⟨w, hw⟩
      exact hno w ((valueOf_eq_some_iff hL).1 hw)
    rw [if_pos hn, heq]
    simp
  · have hmid := hL
    rw [List.map_append, List.map_cons, List.nodup_middle, List.nodup_cons, List.mem_append, not_or] at hmid
    have hne : ∀ l : List (Var κ ω), n ∉ l.map Prod.fst → ∀ x ∈ l.map Prod.fst, decide (x ≠ n) = true :=
      fun l hl x hx => decide_eq_true fun h => hl (h ▸ hx)
    rw [if_neg (by simp)]
    obtain ⟨hv, heq⟩ | ⟨hv, -, heq⟩ | ⟨hv, -, heq⟩ := hcase
    · rw [heq, if_pos hv, List.map_append, List.map_append, List.map_cons, List.filter_append,
        List.filter_cons_of_neg (by simp), List.filter_eq_self.2 (hne l₁ hmid.1.1), List.filter_eq_self.2 (hne l₂ hmid.1.2)]
    all_goals simp [heq, hv]

theorem nodup_assign (hL : (L.map Prod.fst).Nodup) (hbare : (n, none) ∉ L) :
    ((O.assign L (n, v)).map Prod.fst).Nodup := by
  rw [names_assign hL hbare]
  split
  · next hn => exact List.nodup_append.2 ⟨hL, List.nodup_singleton _, fun a ha b hb hab => hn (by
      rwa [← List.mem_singleton.1 hb, ← hab])⟩
  · split
    · exact hL.filter _
    · exact hL

/-- the value of an assigned name -/
theorem valueOf_assign (hL : (L.map Prod.fst).Nodup) (hbare : (n, none) ∉ L) :
    valueOf (O.assign L (n, v)) n = O.next n v (valueOf L n) := by
  have hnew := nodup_assign (O := O) (v := v) hL hbare
  obtain ⟨hno, heq⟩ | ⟨l₁, w, l₂, rfl, hcase⟩ := assign_cases (O := O) L n v
  · have hval : valueOf L n = none := Option.eq_none_iff_forall_ne_some.2 fun w hw => hno w ((valueOf_eq_some_iff hL).1 hw)
    rw [hval, VarOps.next, valueOf_eq_some_iff hnew, heq]
    simp
  · have hval : valueOf (l₁ ++ (n, some w) :: l₂) n = some w := (valueOf_eq_some_iff hL).2 (by simp)
    rw [hval, VarOps.next]
    obtain ⟨hv, heq⟩ | ⟨hv, hw, heq⟩ | ⟨hv, hw, heq⟩ := hcase
    · have hgone : n ∉ (O.assign (l₁ ++ (n, some w) :: l₂) (n, v)).map Prod.fst := by
        rw [names_assign hL hbare, if_neg (by simp), if_pos hv]
        simp
      rw [mem_names_iff hnew (mt bare_assign.1 hbare)] at hgone
      rw [if_pos hv]
      simpa using hgone
    · rw [if_neg hv, if_pos hw, valueOf_eq_some_iff hnew, heq]
      simp
    · rw [if_neg hv, if_neg hw, valueOf_eq_some_iff hnew, heq]
      simp

theorem valueOf_assign_of_ne (hL : (L.map Prod.fst).Nodup) (hbare : (n, none) ∉ L) (h : m ≠ n) :
    valueOf (O.assign L (n, v)) m = valueOf L m :=
  Option.ext fun w => by
    rw [valueOf_eq_some_iff (nodup_assign hL hbare), valueOf_eq_some_iff hL, mem_assign_of_ne h]

section Run

variable (hL : (L.map Prod.fst).Nodup) (hbare : ∀ n v, (n, v) ∈ ps → (n, none) ∉ L)
include hL hbare

theorem nodup_merge : ((O.merge L ps).map Prod.fst).Nodup := by
  induction ps using List.reverseRecOn with
  | nil => exact hL
  | append_singleton ps p ih =>
    rw [merge_concat]
    exact nodup_assign (ih fun n v hp => hbare n v (List.mem_append_left _ hp)) (mt bare_merge.1 (hbare p.1 p.2 (by simp)))

/-- **The value of a name after all assignments** is what its own ones make of it. -/
theorem value_merge (n : κ) : valueOf (O.merge L ps) n = (given ps n).foldr (O.next n) (valueOf L n) := by
  induction ps using List.reverseRecOn with
  | nil => rfl
  | append_singleton ps p ih =>
    obtain ⟨m, v⟩ := p
    have hfront : ∀ n v, (n, v) ∈ ps → (n, none) ∉ L := fun n v hp => hbare n v (List.mem_append_left _ hp)
    have hm : (m, none) ∉ O.merge L ps := mt bare_merge.1 (hbare m v (by simp))
    rw [merge_concat, given_concat]
    by_cases h : m = n
    · subst h
      rw [valueOf_assign (nodup_merge hL hfront) hm, ih hfront, if_pos rfl, List.foldr_cons]
    · rw [valueOf_assign_of_ne (nodup_merge hL hfront) hm (Ne.symm h), ih hfront, if_neg h]

end Run

end Merge

/-! ## Order -/

section Order

variable {O} {vars L M : List (Var κ ω)} {ps : List (κ × ω)} {n m : κ} {v : ω} {o : Option ω}

@[simp] theorem lastPut_nil : O.lastPut o [] n = 0 := rfl

@[simp] theorem lastPut_concat : O.lastPut o (ps ++ [(m, v)]) n =
    if m = n ∧ ¬ O.There o (given ps n) then ps.length + 1 else O.lastPut o ps n := by
  unfold VarOps.lastPut
  rw [List.length_append, List.length_singleton, List.range_succ, List.filter_append]
  have hfront : ((List.range ps.length).filter fun i =>
      ((ps ++ [(m, v)])[i]?.map Prod.fst = some n : Bool) && !decide (O.There o (given ((ps ++ [(m, v)]).take i) n))) =
      (List.range ps.length).filter fun i =>
        (ps[i]?.map Prod.fst = some n : Bool) && !decide (O.There o (given (ps.take i) n)) := by
    refine List.filter_congr fun i hi => ?_
    have hlt := List.mem_range.1 hi
    rw [List.getElem?_append_left hlt, List.take_append_of_le_length (Nat.le_of_lt hlt)]
  rw [hfront]
  by_cases hput : m = n ∧ ¬ O.There o (given ps n)
  · simp [hput]
  · rw [if_neg hput, List.filter_cons_of_neg (by simpa using hput)]
    simp

theorem lastPut_le : O.lastPut o ps n ≤ ps.length := by
  induction ps using List.reverseRecOn with
  | nil => rfl
  | append_singleton ps p ih =>
    obtain ⟨m, v⟩ := p
    rw [lastPut_concat, List.length_append, List.length_singleton]
    split <;> omega

/-- an assignment puts one name only -/
theorem eq_of_lastPut {o' : Option ω} (h : O.lastPut o ps n = O.lastPut o' ps m) (hput : 0 < O.lastPut o ps n) : n = m := by
  induction ps using List.reverseRecOn with
  | nil => cases hput
  | append_singleton ps p ih =>
    obtain ⟨k, v⟩ := p
    have hn : O.lastPut o ps n ≤ ps.length := lastPut_le
    have hm : O.lastPut o' ps m ≤ ps.length := lastPut_le
    rw [lastPut_concat, lastPut_concat] at h
    rw [lastPut_concat] at hput
    split at h <;> split at h
    · next hkn hkm => exact hkn.1.symm.trans hkm.1
    · omega
    · omega
    · next hno _ =>
      rw [if_neg hno] at hput
      exact ih h hput

/-- only whether the name was there says when it is put -/
theorem lastPut_congr {o' : Option ω} (h : o.isSome = o'.isSome) : O.lastPut o ps n = O.lastPut o' ps n := by
  have hthere : ∀ vs, O.There o vs = O.There o' vs := fun vs => by
    unfold VarOps.There
    rw [h]
  unfold VarOps.lastPut
  simp only [hthere]

/-- a name that was not there is put by the first value it is given -/
theorem given_of_lastPut (h : O.lastPut none ps n = 0) : given ps n = [] := by
  induction ps using List.reverseRecOn with
  | nil => rfl
  | append_singleton ps p ih =>
    obtain ⟨m, v⟩ := p
    rw [lastPut_concat] at h
    split at h
    · cases h
    · next hput =>
      have hnil := ih h
      rw [given_concat, if_neg, hnil]
      rintro rfl
      exact hput ⟨rfl, by simp [hnil]⟩

theorem lastPut_of_given (h : given ps n = []) : O.lastPut o ps n = 0 := by
  induction ps using List.reverseRecOn with
  | nil => rfl
  | append_singleton ps p ih =>
    obtain ⟨m, v⟩ := p
    have hm : m ≠ n := by
      rintro rfl
      simp at h
    rw [given_concat, if_neg hm] at h
    rw [lastPut_concat, if_neg fun hput => hm hput.1, ih h]

omit [DecidableEq ω] in
/-- different names stand in the order of their places -/
theorem pairwise_idxOf {l : List κ} (h : l.Nodup) : l.Pairwise fun a b => l.idxOf a < l.idxOf b := by
  rw [List.pairwise_iff_getElem]
  intro i j hi hj hij
  rwa [h.idxOf_getElem, h.idxOf_getElem]

/-- the order of the names: those that were never put stand as they stood, and the others follow as they were put last -/
def VarOps.Before (O : VarOps κ ω) (L : List (Var κ ω)) (ps : List (κ × ω)) (n m : κ) : Prop :=
  O.lastPut (valueOf L n) ps n < O.lastPut (valueOf L m) ps m ∨
    O.lastPut (valueOf L n) ps n = 0 ∧ O.lastPut (valueOf L m) ps m = 0 ∧
      (L.map Prod.fst).idxOf n < (L.map Prod.fst).idxOf m

variable (hL : (L.map Prod.fst).Nodup) (hbare : ∀ n v, (n, v) ∈ ps → (n, none) ∉ L)
include hL hbare

/-- **The order of the names after all assignments.** -/
theorem order_merge : ((O.merge L ps).map Prod.fst).Pairwise (O.Before L ps) := by
  induction ps using List.reverseRecOn with
  | nil =>
    exact (pairwise_idxOf hL).imp fun h => .inr ⟨rfl, rfl, h⟩
  | append_singleton ps p ih =>
    obtain ⟨k, v⟩ := p
    have hfront : ∀ n v, (n, v) ∈ ps → (n, none) ∉ L := fun n v hp => hbare n v (List.mem_append_left _ hp)
    have ih := ih hfront
    have hnodup := nodup_merge (O := O) hL hfront
    have hk : (k, none) ∉ O.merge L ps := mt bare_merge.1 (hbare k v (by simp))
    have hthere : k ∈ (O.merge L ps).map Prod.fst ↔ O.There (valueOf L k) (given ps k) := by
      rw [mem_names_iff hnodup hk, value_merge hL hfront, there_iff k]
    rw [merge_concat, names_assign hnodup hk]
    by_cases hmem : k ∈ (O.merge L ps).map Prod.fst
    · -- the name is there, so nothing is put
      have hsame : O.Before L (ps ++ [(k, v)]) = O.Before L ps := by
        funext n m
        unfold VarOps.Before
        have hput : ∀ a, O.lastPut (valueOf L a) (ps ++ [(k, v)]) a = O.lastPut (valueOf L a) ps a := by
          intro a
          rw [lastPut_concat, if_neg]
          rintro ⟨rfl, hno⟩
          exact hno (hthere.1 hmem)
        rw [hput, hput]
      rw [if_neg (not_not.2 hmem), hsame]
      split
      · exact ih.filter _
      · exact ih
    · -- the name is put behind all the others
      have hother : ∀ a ∈ (O.merge L ps).map Prod.fst,
          O.lastPut (valueOf L a) (ps ++ [(k, v)]) a = O.lastPut (valueOf L a) ps a := by
        intro a ha
        rw [lastPut_concat, if_neg]
        rintro ⟨rfl, -⟩
        exact hmem ha
      have hput : O.lastPut (valueOf L k) (ps ++ [(k, v)]) k = ps.length + 1 := by
        rw [lastPut_concat, if_pos ⟨rfl, mt hthere.2 hmem⟩]
      rw [if_pos hmem, List.pairwise_append]
      refine ⟨ih.imp_of_mem fun ha hb h => ?_, List.pairwise_singleton _ _, fun a ha b hb => .inl ?_⟩
      · unfold VarOps.Before
        rwa [hother _ ha, hother _ hb]
      · obtain rfl := List.mem_singleton.1 hb
        rw [hput, hother a ha]
        exact Nat.lt_succ_of_le lastPut_le

omit [DecidableEq κ] hL hbare in
/-- different members of a list that stands in the order of a relation are related one way or the other -/
theorem rel_or_rel {l : List κ} {R : κ → κ → Prop} (h : l.Pairwise R) (hn : n ∈ l) (hm : m ∈ l) (hne : n ≠ m) :
    R n m ∨ R m n := by
  obtain ⟨i, hi, rfl⟩ := List.getElem_of_mem hn
  obtain ⟨j, hj, rfl⟩ := List.getElem_of_mem hm
  rw [List.pairwise_iff_getElem] at h
  rcases Nat.lt_trichotomy i j with hij | rfl | hij
  · exact .inl (h i j hi hj hij)
  · exact absurd rfl hne
  · exact .inr (h j i hj hi hij)

/-- a name that is put when the same values are given again was put before -/
theorem lastPut_pos_of_again (hn : n ∈ (O.merge L ps).map Prod.fst)
    (hput : 0 < O.lastPut (valueOf (O.merge L ps) n) ps n) : 0 < O.lastPut (valueOf L n) ps n := by
  by_contra hno
  have hzero : O.lastPut (valueOf L n) ps n = 0 := by omega
  cases hval : valueOf L n with
  | none =>
    rw [hval] at hzero
    rw [lastPut_of_given (given_of_lastPut hzero)] at hput
    exact absurd hput (lt_irrefl 0)
  | some w =>
    cases hgiven : given ps n with
    | nil =>
      rw [lastPut_of_given hgiven] at hput
      exact absurd hput (lt_irrefl 0)
    | cons v vs =>
      have hv : (n, v) ∈ ps := mem_given.1 (hgiven ▸ List.mem_cons_self)
      rw [mem_names_iff (nodup_merge hL hbare) (mt bare_merge.1 (hbare n v hv))] at hn
      rw [lastPut_congr (hn.trans (congrArg Option.isSome hval).symm), hzero] at hput
      exact absurd hput (lt_irrefl 0)

/-- **The names stand as they stood after the same assignments again** exactly if those that are put later again were put
later before. -/
theorem names_again_iff
    (hperm : ((O.merge (O.merge L ps) ps).map Prod.fst).Perm ((O.merge L ps).map Prod.fst)) :
    (O.merge (O.merge L ps) ps).map Prod.fst = (O.merge L ps).map Prod.fst ↔
      ∀ n ∈ (O.merge L ps).map Prod.fst, ∀ m ∈ (O.merge L ps).map Prod.fst,
        O.lastPut (valueOf (O.merge L ps) n) ps n < O.lastPut (valueOf (O.merge L ps) m) ps m →
          O.lastPut (valueOf L n) ps n < O.lastPut (valueOf L m) ps m := by
  have hnodup := nodup_merge (O := O) hL hbare
  have hbare' : ∀ n v, (n, v) ∈ ps → (n, none) ∉ O.merge L ps := fun n v hp => mt bare_merge.1 (hbare n v hp)
  have hfirst := order_merge (O := O) hL hbare
  have hagain := order_merge (O := O) hnodup hbare'
  constructor
  · intro heq n hn m hm hput
    rw [heq] at hagain
    have hne : n ≠ m := by
      rintro rfl
      exact absurd hput (lt_irrefl _)
    rcases rel_or_rel (hfirst.and hagain) hn hm hne with ⟨hbefore, -⟩ | ⟨-, hbefore⟩
    · have hpos := lastPut_pos_of_again hL hbare hm (by omega)
      rcases hbefore with hlt | ⟨-, hzero, -⟩ <;> omega
    · rcases hbefore with hlt | ⟨hzero, -, -⟩ <;> omega
  · intro horder
    have hsame : ((O.merge L ps).map Prod.fst).Pairwise (O.Before (O.merge L ps) ps) := by
      refine (hfirst.and (pairwise_idxOf hnodup)).imp_of_mem fun {a b} ha hb ⟨hbefore, hidx⟩ => ?_
      rcases Nat.lt_trichotomy (O.lastPut (valueOf (O.merge L ps) a) ps a) (O.lastPut (valueOf (O.merge L ps) b) ps b)
        with hlt | heq | hgt
      · exact .inl hlt
      · rcases Nat.eq_zero_or_pos (O.lastPut (valueOf (O.merge L ps) a) ps a) with hzero | hpos
        · exact .inr ⟨hzero, heq ▸ hzero, hidx⟩
        · rw [eq_of_lastPut heq hpos] at hidx
          exact absurd hidx (lt_irrefl _)
      · have hlt := horder b hb a ha hgt
        rcases hbefore with hbefore | ⟨hzero, -, -⟩ <;> omega
    refine hperm.eq_of_pairwise (fun a b _ _ hab hba => ?_) hagain hsame
    unfold VarOps.Before at hab hba
    omega

end Order

/-! ## Merging as it has to be -/

section Merged

variable {O} {vars : List (Var κ ω)} {ps : List (κ × ω)} {n : κ} {v : ω}

omit [DecidableEq κ] [DecidableEq ω] in
/-- variables of the same names in the same order, one each, are the same if their values are -/
theorem eq_of_names {L M : List (Var κ ω)} (hM : (M.map Prod.fst).Nodup) (hnames : L.map Prod.fst = M.map Prod.fst)
    (hsub : ∀ x ∈ L, x ∈ M) : L = M := by
  induction L generalizing M with
  | nil => simpa using hnames.symm
  | cons x L ih =>
    cases M with
    | nil => cases hnames
    | cons y M =>
      obtain ⟨hxy, hrest⟩ := List.cons.inj hnames
      have hx : x = y := by
        refine Prod.ext hxy ?_
        exact unique_of_nodup hM (n := x.1) (hsub x (by simp)) (by simp [hxy])
      subst hx
      rw [List.map_cons, List.nodup_cons, ← hrest] at hM
      refine congrArg _ (ih (hrest ▸ hM.2) hrest fun z hz => ?_)
      rcases List.mem_cons.1 (hsub z (List.mem_cons_of_mem _ hz)) with rfl | hz'
      · exact absurd (List.mem_map_of_mem hz) hM.1
      · exact hz'

/-- what an assigned name has to have in the end -/
theorem left_of_last (hlast : last ps n = some v) : O.left (given ps n) = if v = O.empty then none else some v := by
  rw [VarOps.left, ← last_eq_head, hlast]
  by_cases hv : v = O.empty <;> simp [hv]

variable (hvars : (vars.map Prod.fst).Nodup)
include hvars

section Bare

variable (hbare : ∀ n v, (n, v) ∈ ps → (n, none) ∉ vars)
include hbare

/-- each assigned name has what it has to exactly if its values fit -/
theorem first_iff : (∀ n, FitsVar O n (valueOf vars n) (given ps n)) ↔
    ∀ n v, (n, v) ∈ ps → valueOf (O.merge vars ps) n = O.left (given ps n) := by
  simp only [fitsVar_iff, value_merge hvars hbare]
  constructor
  · intro h n v hv
    refine (h n).resolve_left fun hnil => ?_
    have := mem_given.2 hv
    rw [hnil] at this
    cases this
  · intro h n
    cases hgiven : given ps n with
    | nil => exact .inl rfl
    | cons v vs => exact .inr (hgiven ▸ h n v (mem_given.1 (hgiven ▸ List.mem_cons_self)))

/-- what the property says of the values of the assigned names -/
theorem values_iff : (∀ n v, (n, v) ∈ ps → valueOf (O.merge vars ps) n = O.left (given ps n)) ↔
    (∀ n v, last ps n = some v → v ≠ O.empty → (n, some v) ∈ O.merge vars ps) ∧
      ∀ n, last ps n = some O.empty → ∀ x ∈ O.merge vars ps, x.1 ≠ n := by
  have hnodup := nodup_merge (O := O) hvars hbare
  have hgone : ∀ n v, (n, v) ∈ ps → (valueOf (O.merge vars ps) n = none ↔ ∀ x ∈ O.merge vars ps, x.1 ≠ n) := by
    intro n v hv
    rw [← Option.not_isSome_iff_eq_none, ← mem_names_iff hnodup (mt bare_merge.1 (hbare n v hv))]
    simp only [List.mem_map, not_exists, not_and, ne_eq]
  constructor
  · intro h
    refine ⟨fun n v hlast hne => ?_, fun n hlast => ?_⟩
    · have hval := h n v (mem_of_last hlast)
      rw [left_of_last hlast, if_neg hne] at hval
      exact (valueOf_eq_some_iff hnodup).1 hval
    · have hval := h n _ (mem_of_last hlast)
      rw [left_of_last hlast, if_pos rfl] at hval
      exact (hgone n _ (mem_of_last hlast)).1 hval
  · rintro ⟨hassigned, hemptied⟩ n v hv
    obtain ⟨u, hlast⟩ := last_isSome_of_mem hv
    rw [left_of_last hlast]
    by_cases hu : u = O.empty
    · subst hu
      rw [if_pos rfl]
      exact (hgone n v hv).2 (hemptied n hlast)
    · rw [if_neg hu, valueOf_eq_some_iff hnodup]
      exact hassigned n u hlast hu

/-- **The same assignments again change nothing** exactly if each name gets its value again and the names stay in order. -/
theorem again_iff (hfirst : ∀ n v, (n, v) ∈ ps → valueOf (O.merge vars ps) n = O.left (given ps n)) :
    O.merge (O.merge vars ps) ps = O.merge vars ps ↔
      (∀ n, FitsVar O n (O.left (given ps n)) (given ps n)) ∧
        ∀ n m, O.left (given ps n) ≠ none → O.left (given ps m) ≠ none →
          O.lastPut (O.left (given ps n)) ps n < O.lastPut (O.left (given ps m)) ps m →
            O.lastPut (valueOf vars n) ps n < O.lastPut (valueOf vars m) ps m := by
  have hnodup := nodup_merge (O := O) hvars hbare
  have hbare' : ∀ n v, (n, v) ∈ ps → (n, none) ∉ O.merge vars ps := fun n v hp => mt bare_merge.1 (hbare n v hp)
  have hnodup' := nodup_merge (O := O) hnodup hbare'
  have hleft : ∀ n, given ps n ≠ [] → valueOf (O.merge vars ps) n = O.left (given ps n) := by
    intro n hne
    obtain ⟨v, hv⟩ := List.exists_mem_of_ne_nil _ hne
    exact hfirst n v (mem_given.1 hv)
  have hthere : ∀ n, given ps n ≠ [] → (n ∈ (O.merge vars ps).map Prod.fst ↔ O.left (given ps n) ≠ none) := by
    intro n hne
    obtain ⟨v, hv⟩ := List.exists_mem_of_ne_nil _ hne
    rw [mem_names_iff hnodup (hbare' n v (mem_given.1 hv)), hleft n hne, Option.isSome_iff_ne_none]
  -- the values
  have hvalues : (∀ n, FitsVar O n (O.left (given ps n)) (given ps n)) ↔
      ∀ n, valueOf (O.merge (O.merge vars ps) ps) n = valueOf (O.merge vars ps) n := by
    refine forall_congr' fun n => ?_
    rw [fitsVar_iff, value_merge hnodup hbare']
    by_cases hgiven : given ps n = []
    · simp [hgiven]
    · rw [hleft n hgiven, or_iff_right hgiven]
  -- the names
  have hnames : (∀ n, valueOf (O.merge (O.merge vars ps) ps) n = valueOf (O.merge vars ps) n) →
      ((O.merge (O.merge vars ps) ps).map Prod.fst = (O.merge vars ps).map Prod.fst ↔
        ∀ n m, O.left (given ps n) ≠ none → O.left (given ps m) ≠ none →
          O.lastPut (O.left (given ps n)) ps n < O.lastPut (O.left (given ps m)) ps m →
            O.lastPut (valueOf vars n) ps n < O.lastPut (valueOf vars m) ps m) := by
    intro hsame
    have hmem : ∀ x, x ∈ O.merge (O.merge vars ps) ps ↔ x ∈ O.merge vars ps := by
      rintro ⟨n, _ | w⟩
      · exact bare_merge
      · rw [← valueOf_eq_some_iff hnodup', ← valueOf_eq_some_iff hnodup, hsame]
    have hperm : ((O.merge (O.merge vars ps) ps).map Prod.fst).Perm ((O.merge vars ps).map Prod.fst) :=
      (List.perm_ext_iff_of_nodup hnodup' hnodup).2 fun n => by simp only [List.mem_map, hmem]
    rw [names_again_iff hvars hbare hperm]
    constructor
    · intro h n m hn hm hput
      have hne : ∀ a, O.left (given ps a) ≠ none → given ps a ≠ [] := fun a ha hnil => ha (by simp [hnil, VarOps.left])
      refine h n ((hthere n (hne n hn)).2 hn) m ((hthere m (hne m hm)).2 hm) ?_
      rwa [hleft n (hne n hn), hleft m (hne m hm)]
    · intro h n hn m hm hput
      have hm' : given ps m ≠ [] := by
        intro hnil
        rw [lastPut_of_given hnil] at hput
        exact Nat.not_lt_zero _ hput
      by_cases hn' : given ps n = []
      · -- a name that is not assigned stands where it stood
        rw [lastPut_of_given hn']
        exact lastPut_pos_of_again hvars hbare hm (by omega)
      · rw [hleft n hn', hleft m hm'] at hput
        exact h n m ((hthere n hn').1 hn) ((hthere m hm').1 hm) hput
  rw [hvalues]
  constructor
  · intro h
    have hsame : ∀ n, valueOf (O.merge (O.merge vars ps) ps) n = valueOf (O.merge vars ps) n := fun n => by rw [h]
    exact ⟨hsame, (hnames hsame).1 (by rw [h])⟩
  · rintro ⟨hsame, horder⟩
    refine eq_of_names hnodup ((hnames hsame).2 horder) fun x hx => ?_
    obtain ⟨n, _ | w⟩ := x
    · exact bare_merge.1 hx
    · rwa [← valueOf_eq_some_iff hnodup', hsame, valueOf_eq_some_iff hnodup] at hx

end Bare

omit hvars in
/-- no assigned name is there without a value where the assignments are merged as they have to be -/
theorem Merged.bare (h : Merged O vars ps (O.merge vars ps)) (hv : (n, v) ∈ ps) : (n, none) ∉ vars := by
  intro hn
  have hmem : (n, none) ∈ O.merge vars ps := bare_merge.2 hn
  obtain ⟨u, hlast⟩ := last_isSome_of_mem hv
  by_cases hu : u = O.empty
  · exact h.emptied n (hu ▸ hlast) _ hmem rfl
  · cases unique_of_nodup h.nodup hmem (h.assigned n u hlast hu)

/-- **The assignments are merged as they have to be exactly if they fit.** -/
theorem merged_iff : Merged O vars ps (O.merge vars ps) ↔ Fits O vars ps := by
  constructor
  · intro h
    have hbare : ∀ n v, (n, v) ∈ ps → (n, none) ∉ vars := fun n v => h.bare
    have hvalues := (values_iff hvars hbare).2 ⟨h.assigned, h.emptied⟩
    obtain ⟨hagain, horder⟩ := (again_iff hvars hbare hvalues).1 h.again
    exact ⟨hbare, (first_iff hvars hbare).2 hvalues, hagain, horder⟩
  · rintro ⟨hbare, hfirst, hagain, horder⟩
    have hvalues := (first_iff hvars hbare).1 hfirst
    obtain ⟨hassigned, hemptied⟩ := (values_iff hvars hbare).1 hvalues
    exact ⟨hassigned, hemptied, merge_others, nodup_merge hvars hbare, (again_iff hvars hbare hvalues).2 ⟨hagain, horder⟩⟩

end Merged

/-! ## Checking assignments -/

section Decide

variable {vars : List (Var κ ω)} {ps : List (κ × ω)}

instance decidableRefused (n : κ) (o : Option ω) : ∀ vs v, Decidable (O.Refused n o vs v)
  | [], v =>
    match o with
    | none => isFalse (by rintro ⟨w, hw, -⟩; cases hw)
    | some w => decidable_of_iff (v = O.whole n w) ⟨fun h => ⟨w, rfl, h⟩, by rintro ⟨_, ⟨⟩, h⟩; exact h⟩
  | w :: ws, v =>
    have := decidableRefused n o ws w
    inferInstanceAs (Decidable (_ ∨ _))

instance (n : κ) (o : Option ω) : ∀ vs, Decidable (FitsVar O n o vs)
  | [] => isTrue ⟨nofun, nofun⟩
  | v :: vs => decidable_of_iff ((v = O.empty → ¬ O.There o (v :: vs)) ∧ (v ≠ O.empty → ¬ O.Refused n o vs v))
      ⟨fun h => ⟨fun hv => h.1 (Option.some.inj hv), by rintro _ _ ⟨⟩; exact h.2⟩,
        fun h => ⟨fun hv => h.emptied (congrArg some hv), h.assigned v vs rfl⟩⟩

variable {O} in
/-- only the assigned names have to be looked at -/
theorem fits_iff : Fits O vars ps ↔
    (∀ p ∈ ps, (p.1, none) ∉ vars ∧ FitsVar O p.1 (valueOf vars p.1) (given ps p.1) ∧
      FitsVar O p.1 (O.left (given ps p.1)) (given ps p.1)) ∧
    ∀ p ∈ ps, ∀ q ∈ ps, O.left (given ps p.1) ≠ none → O.left (given ps q.1) ≠ none →
      O.lastPut (O.left (given ps p.1)) ps p.1 < O.lastPut (O.left (given ps q.1)) ps q.1 →
        O.lastPut (valueOf vars p.1) ps p.1 < O.lastPut (valueOf vars q.1) ps q.1 := by
  have hnil : ∀ n, (¬ ∃ p ∈ ps, p.1 = n) → given ps n = [] := by
    intro n hn
    refine List.eq_nil_iff_forall_not_mem.2 fun v hv => ?_
    exact hn ⟨_, mem_given.1 hv, rfl⟩
  constructor
  · rintro ⟨hbare, hfirst, hagain, horder⟩
    exact ⟨fun p hp => ⟨hbare p.1 p.2 hp, hfirst p.1, hagain p.1⟩, fun p _ q _ => horder p.1 q.1⟩
  · rintro ⟨hnames, horder⟩
    refine ⟨fun n v hp => (hnames _ hp).1, fun n => ?_, fun n => ?_, fun n m hn hm => ?_⟩
    · by_cases hn : ∃ p ∈ ps, p.1 = n
      · obtain ⟨p, hp, rfl⟩ := hn
        exact (hnames p hp).2.1
      · rw [hnil n hn]
        exact ⟨nofun, nofun⟩
    · by_cases hn : ∃ p ∈ ps, p.1 = n
      · obtain ⟨p, hp, rfl⟩ := hn
        exact (hnames p hp).2.2
      · rw [hnil n hn]
        exact ⟨nofun, nofun⟩
    · have hmem : ∀ a, O.left (given ps a) ≠ none → ∃ p ∈ ps, p.1 = a := by
        intro a ha
        by_contra hno
        exact ha (by rw [hnil a hno]; rfl)
      obtain ⟨p, hp, rfl⟩ := hmem n hn
      obtain ⟨q, hq, rfl⟩ := hmem m hm
      exact horder p hp q hq hn hm

instance : Decidable (Fits O vars ps) := decidable_of_iff _ fits_iff.symm

end Decide

end Nanocl.Objects
