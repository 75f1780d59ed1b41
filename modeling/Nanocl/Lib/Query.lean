/-
Queries over a list of rows, as a query builder produces them: a where clause that grows by `filter` (AND with the
whole clause built so far) and `orFilter` (OR with the whole clause built so far), an order, a limit and an offset.

A clause is kept as the predicate "the clause is TRUE on this row". SQL clauses have a third value, but a clause built
from atoms by AND and OR alone is TRUE exactly when the same combination of "the atom is TRUE" is.
- `Where.sat_filters`, `Where.sat_orFilters`: what a chain of calls accepts.
- `Query.pairwise_run`: the rows of a query come in its order.
- `insertionSort_split`: rows of a class that come before all the others are sorted on their own.
- `Query.run_congr`: a query whose clause accepts only rows of a class reads nothing but the rows of that class.

`lexLe` is the order by several keys, the first one first.
-/
import Mathlib.Data.List.Sort

namespace Nanocl.Lib

variable {α : Type*}

/-- a where clause under construction; `none` is no clause at all -/
abbrev Where (α : Type*) := Option (α → Bool)

/-- the rows a clause accepts -/
def Where.sat : Where α → α → Bool
  | none, _ => true
  | some p, r => p r

def Where.filter (w : Where α) (p : α → Bool) : Where α :=
  match w with
  | none => some p
  | some q => some fun r => q r && p r

def Where.orFilter (w : Where α) (p : α → Bool) : Where α :=
  match w with
  | none => some p
  | some q => some fun r => q r || p r

@[simp] theorem Where.sat_none (r : α) : Where.sat none r = true := rfl

@[simp] theorem Where.sat_some (p : α → Bool) (r : α) : Where.sat (some p) r = p r := rfl

@[simp] theorem Where.sat_filter (w : Where α) (p : α → Bool) (r : α) : (w.filter p).sat r = (w.sat r && p r) := by
  cases w <;> simp [Where.filter]

@[simp] theorem Where.isSome_filter (w : Where α) (p : α → Bool) : (w.filter p).isSome = true := by
  cases w <;> rfl

theorem Where.sat_orFilter {w : Where α} (hw : w.isSome = true) (p : α → Bool) (r : α) :
    (w.orFilter p).sat r = (w.sat r || p r) := by
  cases w with
  | none => cases hw
  | some q => rfl

@[simp] theorem Where.isSome_orFilter (w : Where α) (p : α → Bool) : (w.orFilter p).isSome = true := by
  cases w <;> rfl

/-- a chain of `filter` calls is a conjunction -/
theorem Where.sat_filters (w : Where α) (ps : List (α → Bool)) (r : α) :
    (ps.foldl Where.filter w).sat r = (w.sat r && ps.all fun p => p r) := by
  induction ps generalizing w with
  | nil => simp
  | cons p ps ih => simp [ih, Bool.and_assoc]

/-- a chain of `orFilter` calls on a clause is a disjunction with the whole clause -/
theorem Where.sat_orFilters {w : Where α} (hw : w.isSome = true) (ps : List (α → Bool)) (r : α) :
    (ps.foldl Where.orFilter w).sat r = (w.sat r || ps.any fun p => p r) := by
  induction ps generalizing w with
  | nil => simp
  | cons p ps ih =>
    rw [List.foldl_cons, ih (Where.isSome_orFilter w p), Where.sat_orFilter hw]
    simp [Bool.or_assoc]

/-- on no clause at all the first of them replaces the clause that accepts everything -/
theorem Where.sat_orFilters_none {ps : List (α → Bool)} (h : ps ≠ []) (r : α) :
    (ps.foldl Where.orFilter none).sat r = ps.any fun p => p r := by
  cases ps with
  | nil => exact absurd rfl h
  | cons p ps => exact Where.sat_orFilters (w := some p) rfl ps r

/-! ## Sorting -/

/-- rows of a class that come before all the others are sorted on their own -/
theorem insertionSort_split {r : α → α → Prop} [DecidableRel r] {c : α → Bool} {l : List α}
    (h : ∀ a ∈ l, ∀ b ∈ l, c a = true → c b = false → r a b ∧ ¬ r b a) :
    l.insertionSort r = (l.filter c).insertionSort r ++ (l.filter fun a => !c a).insertionSort r := by
  have hbefore (a : α) (s t : List α) (ht : ∀ b ∈ t, r a b) : (s ++ t).orderedInsert r a = s.orderedInsert r a ++ t := by
    induction s with
    | nil =>
      cases t with
      | nil => rfl
      | cons b t => exact List.orderedInsert_cons_of_le r t (ht b (List.mem_cons_self ..))
    | cons b s ih =>
      by_cases hab : r a b
      · simp [hab]
      · simp [hab, ih]
  have hafter (a : α) (s t : List α) (hs : ∀ b ∈ s, ¬ r a b) : (s ++ t).orderedInsert r a = s ++ t.orderedInsert r a := by
    induction s with
    | nil => rfl
    | cons b s ih =>
      simp [hs b (List.mem_cons_self ..), ih fun x hx => hs x (List.mem_cons_of_mem b hx)]
  induction l with
  | nil => rfl
  | cons a l ih =>
    have hl := ih fun x hx y hy => h x (List.mem_cons_of_mem a hx) y (List.mem_cons_of_mem a hy)
    rw [List.insertionSort_cons, hl]
    cases hc : c a with
    | true =>
      rw [hbefore a _ _ fun b hb => ?_, List.filter_cons_of_pos hc, List.filter_cons_of_neg (by simp [hc]),
        List.insertionSort_cons]
      obtain ⟨hb, hcb⟩ := List.mem_filter.1 ((List.mem_insertionSort r).1 hb)
      exact (h a (List.mem_cons_self ..) b (List.mem_cons_of_mem a hb) hc (by simpa using hcb)).1
    | false =>
      rw [hafter a _ _ fun b hb => ?_, List.filter_cons_of_neg (by simp [hc]), List.filter_cons_of_pos (by simp [hc]),
        List.insertionSort_cons]
      obtain ⟨hb, hcb⟩ := List.mem_filter.1 ((List.mem_insertionSort r).1 hb)
      exact (h b (List.mem_cons_of_mem a hb) a (List.mem_cons_self ..) hcb hc).2

/-! ## Running a query -/

/-- a complete query; `le a b` says that row a is returned before row b -/
structure Query (α : Type*) where
  clause : Where α
  le : α → α → Bool
  limit : Option ℕ
  offset : ℕ

/-- the rows a query returns -/
def Query.run (q : Query α) (rows : List α) : List α :=
  let sorted := ((rows.filter q.clause.sat).insertionSort (fun a b => q.le a b = true)).drop q.offset
  match q.limit with
  | none => sorted
  | some n => sorted.take n

theorem Query.mem_of_mem_run {q : Query α} {rows : List α} {r : α} (h : r ∈ q.run rows) : r ∈ rows ∧ q.clause.sat r := by
  have hs : r ∈ (rows.filter q.clause.sat).insertionSort (fun a b => q.le a b = true) := by
    unfold Query.run at h
    split at h
    · exact List.mem_of_mem_drop h
    · exact List.mem_of_mem_drop (List.mem_of_mem_take h)
  simpa using (List.perm_insertionSort _ _).mem_iff.1 hs

/-- the rows of a query are some of those that its clause accepts, once each -/
theorem Query.run_subperm (q : Query α) (rows : List α) : (q.run rows).Subperm (rows.filter q.clause.sat) := by
  refine (List.Sublist.subperm ?_).trans (List.perm_insertionSort (fun a b => q.le a b = true) _).subperm
  unfold Query.run
  split
  · exact List.drop_sublist _ _
  · exact (List.take_sublist _ _).trans (List.drop_sublist _ _)

theorem Query.nodup_run {β : Type*} {f : α → β} (q : Query α) {rows : List α} (h : (rows.map f).Nodup) :
    ((q.run rows).map f).Nodup := by
  obtain ⟨l, hl, hsub⟩ := q.run_subperm rows
  have hacc : ((rows.filter q.clause.sat).map f).Nodup := h.sublist (List.filter_sublist.map f)
  exact (hl.map f).nodup_iff.1 (hacc.sublist (hsub.map f))

/-- a query with a limit that skips nothing returns every accepted row if there are no more of them -/
theorem Query.run_perm_of_le (q : Query α) {rows : List α} {n : ℕ} (hl : q.limit = some n) (ho : q.offset = 0)
    (h : (rows.filter q.clause.sat).length ≤ n) : (q.run rows).Perm (rows.filter q.clause.sat) := by
  simp only [Query.run, hl, ho, List.drop_zero]
  rw [List.take_of_length_le (by simpa using h)]
  exact List.perm_insertionSort _ _

/-- the rows of a query are sorted, where its order is total and transitive -/
theorem Query.pairwise_run (q : Query α) (htotal : ∀ a b, q.le a b = true ∨ q.le b a = true)
    (htrans : ∀ a b c, q.le a b = true → q.le b c = true → q.le a c = true) (rows : List α) :
    (q.run rows).Pairwise fun a b => q.le a b = true := by
  have : Std.Total fun a b => q.le a b = true := ⟨htotal⟩
  have : IsTrans α fun a b => q.le a b = true := ⟨htrans⟩
  have hs := (List.pairwise_insertionSort (fun a b => q.le a b = true) (rows.filter q.clause.sat)).sublist
    (List.drop_sublist q.offset _)
  unfold Query.run
  split
  · exact hs
  · exact hs.sublist (List.take_sublist _ _)

/-- a query without a clause that skips nothing returns a short sorted table as it is -/
theorem Query.run_eq_self {q : Query α} (hc : q.clause = none) (ho : q.offset = 0) {n : ℕ} (hl : q.limit = some n)
    {rows : List α} (hn : rows.length ≤ n) (h : rows.Pairwise fun a b => q.le a b = true) : q.run rows = rows := by
  have hf : rows.filter q.clause.sat = rows := List.filter_eq_self.2 fun r _ => by rw [hc]; rfl
  simp only [Query.run, hf, hl, ho, List.drop_zero, h.insertionSort_eq, List.take_of_length_le hn]

/-- **Locality.** If the clause accepts rows of the class `c` only, then two tables with the same rows of that class
answer the query alike. -/
theorem Query.run_congr (q : Query α) (c : α → Bool) (hc : ∀ r, q.clause.sat r = true → c r = true) {s t : List α}
    (h : s.filter c = t.filter c) : q.run s = q.run t := by
  have hf : ∀ l : List α, l.filter q.clause.sat = (l.filter c).filter q.clause.sat := by
    intro l
    rw [List.filter_filter]
    refine List.filter_congr fun r _ => ?_
    cases hr : q.clause.sat r with
    | false => simp
    | true => simp [hc r hr]
  unfold Query.run
  rw [hf s, hf t, h]

/-! ## Several keys -/

/-- the order by the first key, among equals by the second, and so on -/
def lexLe : List (α → α → Bool) → α → α → Bool
  | [], _, _ => true
  | le :: les, a, b => le a b && (!le b a || lexLe les a b)

/-- equals in every key come in any order -/
theorem lexLe_of_forall {les : List (α → α → Bool)} {a b : α} (h : ∀ le ∈ les, le a b = true) : lexLe les a b = true := by
  induction les with
  | nil => rfl
  | cons le les ih =>
    simp only [lexLe, h le (List.mem_cons_self ..), ih fun l hl => h l (List.mem_cons_of_mem _ hl), Bool.or_true,
      Bool.and_true]

/-- and only they come in both -/
theorem forall_of_lexLe {les : List (α → α → Bool)} {a b : α} (hab : lexLe les a b = true)
    (hba : lexLe les b a = true) : ∀ le ∈ les, le a b = true ∧ le b a = true := by
  induction les with
  | nil => intro le hle; cases hle
  | cons le les ih =>
    simp only [lexLe, Bool.and_eq_true, Bool.or_eq_true, Bool.not_eq_true'] at hab hba
    have hrest : lexLe les a b = true ∧ lexLe les b a = true := by
      refine ⟨hab.2.resolve_left ?_, hba.2.resolve_left ?_⟩
      · simp [hba.1]
      · simp [hab.1]
    intro l hl
    rcases List.mem_cons.1 hl with rfl | hl
    · exact ⟨hab.1, hba.1⟩
    · exact ih hrest.1 hrest.2 l hl

end Nanocl.Lib
