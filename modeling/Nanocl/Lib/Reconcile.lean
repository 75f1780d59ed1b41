/-
Bringing stored values to declared ones. Each declaration is about one key; the declarations are taken one after another,
and each turns the value under its key into another one, in whatever way (`step`). What a declaration asks for is a
predicate on the value under its key.

- `reconcile_apply`: a key has what the declarations about it make of its value, one after the other.
- `reconcile_meets_iff`: where no two declarations are about one key, all are met at the end exactly if each is met by what
  it makes of the value that was there at first.
-/
import Mathlib.Data.List.Basic
import Mathlib.Logic.Function.Basic

namespace Nanocl.Lib

/-- declarations and what they do to the value under their key -/
structure Reconciler (κ D V : Type*) where
  key : D → κ
  step : V → D → V

namespace Reconciler

variable {κ D V : Type*} [DecidableEq κ] (R : Reconciler κ D V)

/-- one declaration -/
def one (s : κ → V) (d : D) : κ → V := Function.update s (R.key d) (R.step (s (R.key d)) d)

/-- all declarations in turn -/
def reconcile (s : κ → V) (ds : List D) : κ → V := ds.foldl R.one s

@[simp] theorem one_self (s : κ → V) (d : D) : R.one s d (R.key d) = R.step (s (R.key d)) d := Function.update_self ..

theorem one_of_ne (s : κ → V) {d : D} {k : κ} (h : R.key d ≠ k) : R.one s d k = s k := Function.update_of_ne h.symm ..

/-- **A key has what the declarations about it make of its value.** -/
theorem reconcile_apply (s : κ → V) (ds : List D) (k : κ) :
    R.reconcile s ds k = (ds.filter fun d => R.key d = k).foldl R.step (s k) := by
  induction ds generalizing s with
  | nil => rfl
  | cons d ds ih =>
    change R.reconcile (R.one s d) ds k = _
    rw [ih]
    by_cases h : R.key d = k
    · subst h
      simp
    · rw [List.filter_cons_of_neg (by simpa using h), one_of_ne R s h]

/-- a key that one declaration is about has what this makes of its value -/
theorem reconcile_of_nodup {ds : List D} (h : (ds.map R.key).Nodup) {d : D} (hd : d ∈ ds) (s : κ → V) :
    R.reconcile s ds (R.key d) = R.step (s (R.key d)) d := by
  have hone : (ds.filter fun d' => R.key d' = R.key d) = [d] := by
    induction ds with
    | nil => cases hd
    | cons d' ds ih =>
      rw [List.map_cons, List.nodup_cons] at h
      rcases List.mem_cons.1 hd with rfl | hd
      · rw [List.filter_cons_of_pos (by simp), List.filter_eq_nil_iff.2]
        intro e he hkey
        refine h.1 ?_
        rw [← of_decide_eq_true hkey]
        exact List.mem_map_of_mem he
      · have hne : R.key d' ≠ R.key d := by
          intro heq
          refine h.1 ?_
          rw [heq]
          exact List.mem_map_of_mem hd
        rw [List.filter_cons_of_neg (by simpa using hne), ih h.2 hd]
  rw [reconcile_apply, hone]
  rfl

/-- **All declarations are met at the end** exactly if each is met by what it makes of the value that was there at first,
where no two are about one key. -/
theorem reconcile_meets_iff (meets : V → D → Prop) {ds : List D} (h : (ds.map R.key).Nodup) (s : κ → V) :
    (∀ d ∈ ds, meets (R.reconcile s ds (R.key d)) d) ↔ ∀ d ∈ ds, meets (R.step (s (R.key d)) d) d := by
  refine forall₂_congr fun d hd => ?_
  rw [R.reconcile_of_nodup h hd]

end Reconciler

end Nanocl.Lib
