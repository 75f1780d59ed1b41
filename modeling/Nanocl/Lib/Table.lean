/-
Tables with a primary key, as a relational database keeps them: rows in the order of their insertion, no two of which
bear the same key. The key of a row never changes, so `update` takes the proof that its change leaves it alone.

- `find_eq_some`: a key finds the one row that bears it.
- `insert_eq_some`: an insertion that is accepted adds its row at the end; one whose key is taken is refused.
- `find_insert`, `find_update`, `find_deleteWhere`: what a write does to the row of each key.
-/
import Mathlib.Data.List.Nodup

namespace Nanocl.Lib

variable {ρ κ : Type*}

structure Table (key : ρ → κ) where
  rows : List ρ
  nodup : (rows.map key).Nodup

namespace Table

variable {key : ρ → κ}

@[ext] theorem ext {t t' : Table key} (h : t.rows = t'.rows) : t = t' := by
  cases t
  cases t'
  simp_all

def empty : Table key := ⟨[], List.nodup_nil⟩

instance : Inhabited (Table key) := ⟨empty⟩

/-- `DELETE .. WHERE p` -/
def deleteWhere (t : Table key) (p : ρ → Bool) : Table key where
  rows := t.rows.filter fun r => !p r
  nodup := t.nodup.sublist (List.filter_sublist.map key)

@[simp] theorem mem_deleteWhere {t : Table key} {p : ρ → Bool} {r : ρ} :
    r ∈ (t.deleteWhere p).rows ↔ r ∈ t.rows ∧ p r = false := by
  simp [deleteWhere]

theorem deleteWhere_of_forall {t : Table key} {p : ρ → Bool} (h : ∀ r ∈ t.rows, p r = false) : t.deleteWhere p = t := by
  ext1
  exact List.filter_eq_self.2 fun r hr => by simp [h r hr]

theorem key_inj {t : Table key} {r r' : ρ} (hr : r ∈ t.rows) (hr' : r' ∈ t.rows) (h : key r = key r') : r = r' :=
  List.inj_on_of_nodup_map t.nodup hr hr' h

variable [DecidableEq κ]

/-- the row of a key -/
def find (t : Table key) (k : κ) : Option ρ := t.rows.find? fun r => key r = k

theorem find_eq_none {t : Table key} {k : κ} : t.find k = none ↔ ∀ r ∈ t.rows, key r ≠ k := by
  simp [find, List.find?_eq_none]

theorem find_eq_some {t : Table key} {k : κ} {r : ρ} : t.find k = some r ↔ r ∈ t.rows ∧ key r = k := by
  constructor
  · intro h
    exact ⟨List.mem_of_find?_eq_some h, by simpa using List.find?_some h⟩
  · rintro ⟨hr, rfl⟩
    cases h : t.find (key r) with
    | none => exact absurd rfl (find_eq_none.1 h r hr)
    | some r' =>
      have hk : key r' = key r := by simpa using List.find?_some h
      rw [key_inj (List.mem_of_find?_eq_some h) hr hk]

theorem key_of_find {t : Table key} {k : κ} {r : ρ} (h : t.find k = some r) : key r = k := (find_eq_some.1 h).2

theorem find_of_mem {t : Table key} {r : ρ} (h : r ∈ t.rows) : t.find (key r) = some r := find_eq_some.2 ⟨h, rfl⟩

/-- `INSERT`: refused where the key is taken -/
def insert (t : Table key) (r : ρ) : Option (Table key) :=
  if h : t.find (key r) = none then
    some ⟨t.rows ++ [r], by
      rw [List.map_append, List.map_singleton, List.nodup_append]
      refine ⟨t.nodup, List.nodup_singleton _, fun a ha b hb hab => ?_⟩
      obtain ⟨r', hr', rfl⟩ := List.mem_map.1 ha
      exact find_eq_none.1 h r' hr' (hab.trans (List.mem_singleton.1 hb))⟩
  else none

theorem insert_eq_some {t t' : Table key} {r : ρ} :
    t.insert r = some t' ↔ t.find (key r) = none ∧ t'.rows = t.rows ++ [r] := by
  unfold insert
  split_ifs with h
  · rw [Option.some_inj, Table.ext_iff]
    exact ⟨fun heq => ⟨h, heq.symm⟩, fun heq => heq.2.symm⟩
  · simp [h]

theorem ne_of_insert {t t' : Table key} {r : ρ} (h : t.insert r = some t') : t' ≠ t := by
  rintro rfl
  have hlen := congrArg List.length (insert_eq_some.1 h).2
  simp at hlen

theorem insert_of_find {t : Table key} {r : ρ} (h : t.find (key r) = none) : ∃ t', t.insert r = some t' :=
  ⟨_, dif_pos h⟩

theorem insert_eq_none {t : Table key} {r : ρ} : t.insert r = none ↔ t.find (key r) ≠ none := by
  unfold insert
  split_ifs with h <;> simp [h]

theorem mem_insert {t t' : Table key} {r r' : ρ} (h : t.insert r = some t') : r' ∈ t'.rows ↔ r' ∈ t.rows ∨ r' = r := by
  simp [(insert_eq_some.1 h).2]

theorem find_insert {t t' : Table key} {r : ρ} (h : t.insert r = some t') (k : κ) :
    t'.find k = if key r = k then some r else t.find k := by
  obtain ⟨hfree, hrows⟩ := insert_eq_some.1 h
  split_ifs with hk
  · exact find_eq_some.2 ⟨by simp [hrows], hk⟩
  · simp [find, hrows, List.find?_append, hk]

theorem find_insert_self {t t' : Table key} {r : ρ} (h : t.insert r = some t') : t'.find (key r) = some r := by
  rw [find_insert h, if_pos rfl]

/-- a key that finds a row finds the same one after an insertion -/
theorem find_insert_of_find {t t' : Table key} {r r' : ρ} {k : κ} (h : t.insert r = some t') (hk : t.find k = some r') :
    t'.find k = some r' := by
  rw [find_insert h, if_neg, hk]
  rintro rfl
  simp [(insert_eq_some.1 h).1] at hk

/-- `UPDATE .. WHERE key = k` -/
def update (t : Table key) (k : κ) (f : ρ → ρ) (hf : ∀ r, key (f r) = key r) : Table key where
  rows := t.rows.map fun r => if key r = k then f r else r
  nodup := by
    have h : (t.rows.map fun r => if key r = k then f r else r).map key = t.rows.map key := by
      rw [List.map_map]
      refine List.map_congr_left fun r _ => ?_
      simp only [Function.comp_apply]
      split_ifs
      · exact hf r
      · rfl
    rw [h]
    exact t.nodup

theorem mem_update {t : Table key} {k : κ} {f : ρ → ρ} {hf : ∀ r, key (f r) = key r} {r : ρ} :
    r ∈ (t.update k f hf).rows ↔ ∃ r' ∈ t.rows, (if key r' = k then f r' else r') = r := by
  simp [update]

theorem find_update (t : Table key) (k k' : κ) (f : ρ → ρ) (hf : ∀ r, key (f r) = key r) :
    (t.update k f hf).find k' = (t.find k').map fun r => if k' = k then f r else r := by
  cases h : t.find k' with
  | none =>
    refine find_eq_none.2 fun r hr hk => ?_
    obtain ⟨r', hr', rfl⟩ := mem_update.1 hr
    refine find_eq_none.1 h r' hr' ?_
    split_ifs at hk
    · exact (hf r').symm.trans hk
    · exact hk
  | some r =>
    obtain ⟨hr, rfl⟩ := find_eq_some.1 h
    refine find_eq_some.2 ⟨mem_update.2 ⟨r, hr, rfl⟩, ?_⟩
    split_ifs
    · exact hf r
    · rfl

theorem find_deleteWhere (t : Table key) (p : ρ → Bool) (k : κ) :
    (t.deleteWhere p).find k = (t.find k).filter fun r => !p r := by
  cases h : t.find k with
  | none => exact find_eq_none.2 fun r hr => find_eq_none.1 h r (mem_deleteWhere.1 hr).1
  | some r =>
    obtain ⟨hr, rfl⟩ := find_eq_some.1 h
    cases hp : p r with
    | false => exact (find_of_mem (mem_deleteWhere.2 ⟨hr, hp⟩)).trans (by rw [Option.filter_some, hp]; rfl)
    | true =>
      simp only [Option.filter_some, hp, Bool.not_true, Bool.false_eq_true, if_false]
      refine find_eq_none.2 fun r' hr' hk => ?_
      obtain ⟨hr', hp'⟩ := mem_deleteWhere.1 hr'
      rw [key_inj hr' hr hk, hp] at hp'
      cases hp'

/-- `DELETE .. WHERE key = k` -/
def delete (t : Table key) (k : κ) : Table key := t.deleteWhere fun r => key r = k

theorem find_delete (t : Table key) (k k' : κ) : (t.delete k).find k' = if k' = k then none else t.find k' := by
  rw [delete, find_deleteWhere]
  cases h : t.find k' with
  | none => simp
  | some r =>
    obtain rfl := key_of_find h
    by_cases hk : key r = k <;> simp [hk]

end Table

end Nanocl.Lib
