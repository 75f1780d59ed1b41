/-
Two parties that keep the same records. One holds a set of records; the other stores at most one record under each name,
which the record tells. They agree if the records held are those that are stored.

An operation concerns one name: the holder takes one more record, gives one up or does nothing (`Touch`), and the store has
another record under the name or the same.
- `Mirrors.touch_iff`: when the two agree after it, for each of the three.
-/
import Mathlib.Data.Set.Basic
import Mathlib.Logic.Function.Basic

namespace Nanocl.Lib

variable {ρ ν : Type*} {name : ρ → ν}

/-- the records held are those that are stored -/
def Mirrors (name : ρ → ν) (held : Set ρ) (stored : ν → Option ρ) : Prop := ∀ r, r ∈ held ↔ stored (name r) = some r

/-- what the holder does to its records -/
inductive Touch (ρ : Type*) where
  | keep
  | hold (r : ρ)
  | release (r : ρ)

def Touch.on (held : Set ρ) : Touch ρ → Set ρ
  | .keep => held
  | .hold r => insert r held
  | .release r => held \ {r}

/-- the operation is about this name -/
def Touch.About (name : ρ → ν) (n : ν) : Touch ρ → Prop
  | .keep => True
  | .hold r | .release r => name r = n

/-- what has to be stored under the name, from what was stored there -/
def Touch.Agrees (old new : Option ρ) : Touch ρ → Prop
  | .keep => new = old
  | .hold r => new = some r ∧ (old = none ∨ old = some r)
  | .release r => (old = some r → new = none) ∧ (old ≠ some r → new = old)

/-- the holder takes a record, if there is one -/
def Touch.holds : Option ρ → Touch ρ
  | none => .keep
  | some r => .hold r

theorem Touch.about_holds {n : ν} {o : Option ρ} (h : ∀ r ∈ o, name r = n) : (Touch.holds o).About name n := by
  cases o with
  | none => trivial
  | some r => exact h r rfl

/-- a record that is taken and stored replaces none but itself -/
theorem Touch.holds_agrees_self {old new : Option ρ} : (Touch.holds new).Agrees old new ↔ ∀ r ∈ old, new = some r := by
  cases new with
  | none => exact eq_comm.trans (Option.eq_none_iff_forall_not_mem.trans (by simp))
  | some r =>
    cases old with
    | none => simp [Touch.holds, Touch.Agrees]
    | some r' => simp [Touch.holds, Touch.Agrees, eq_comm]

/-- a record that is taken and not stored has been held before -/
theorem Touch.holds_agrees_old {old taken : Option ρ} : (Touch.holds taken).Agrees old old ↔ ∀ r ∈ taken, old = some r := by
  cases taken with
  | none => simp [Touch.holds, Touch.Agrees]
  | some r =>
    simp only [Touch.holds, Touch.Agrees, Option.mem_some_iff, forall_eq']
    exact ⟨And.left, fun h => ⟨h, .inr h⟩⟩

theorem Mirrors.congr {held held' : Set ρ} {stored stored' : ν → Option ρ} (hheld : held' = held)
    (hstored : stored' = stored) : Mirrors name held' stored' ↔ Mirrors name held stored := by
  rw [hheld, hstored]

/-- what is held tells what is stored -/
theorem Mirrors.iff_eq {held : Set ρ} {stored stored' : ν → Option ρ} (h : Mirrors name held stored)
    (hnamed : ∀ n, ∀ r ∈ stored n, name r = n) (hnamed' : ∀ n, ∀ r ∈ stored' n, name r = n) :
    Mirrors name held stored' ↔ stored' = stored := by
  constructor
  · intro h'
    funext n
    refine Option.ext fun r => ?_
    by_cases hr : name r = n
    · subst hr
      exact (h' r).symm.trans (h r)
    · exact iff_of_false (fun hmem => hr (hnamed' n r hmem)) fun hmem => hr (hnamed n r hmem)
  · intro heq
    rw [heq]
    exact h

/-- **When the two agree after an operation** on one name: exactly if what is stored under the name is what the holder's
part of it asks for. -/
theorem Mirrors.touch_iff [DecidableEq ν] {held : Set ρ} {stored : ν → Option ρ} (h : Mirrors name held stored) {n : ν}
    {t : Touch ρ} (ht : t.About name n) {new : Option ρ} (hold : ∀ r ∈ stored n, name r = n) (hnew : ∀ r ∈ new, name r = n) :
    Mirrors name (t.on held) (Function.update stored n new) ↔ t.Agrees (stored n) new := by
  -- records of other names are held and stored as before
  have hothers : ∀ r, name r ≠ n → (r ∈ t.on held ↔ Function.update stored n new (name r) = some r) := by
    intro r hr
    rw [Function.update_of_ne hr, ← h r]
    cases t with
    | keep => exact Iff.rfl
    | hold r' =>
      have hne : r ≠ r' := fun heq => hr (heq ▸ ht)
      exact ⟨fun hmem => hmem.resolve_left hne, .inr⟩
    | release r' =>
      have hne : r ≠ r' := fun heq => hr (heq ▸ ht)
      exact ⟨And.left, fun hmem => ⟨hmem, hne⟩⟩
  have hown : Mirrors name (t.on held) (Function.update stored n new) ↔
      ∀ r, name r = n → (r ∈ t.on held ↔ new = some r) := by
    constructor
    · intro hall r hr
      rw [hall r, hr, Function.update_self]
    · intro hall r
      by_cases hr : name r = n
      · rw [hall r hr, hr, Function.update_self]
      · exact hothers r hr
  have hmem : ∀ r, name r = n → (r ∈ held ↔ stored n = some r) := by
    intro r hr
    rw [h r, hr]
  rw [hown]
  cases t with
  | keep =>
    constructor
    · intro hall
      refine Option.ext fun r => ?_
      by_cases hr : name r = n
      · exact (hall r hr).symm.trans (hmem r hr)
      · exact iff_of_false (fun h => hr (hnew r h)) (fun h => hr (hold r h))
    · intro heq r hr
      change new = stored n at heq
      rw [heq]
      exact hmem r hr
  | hold r' =>
    have hr' : name r' = n := ht
    constructor
    · intro hall
      have hnew' : new = some r' := (hall r' hr').1 (.inl rfl)
      refine ⟨hnew', ?_⟩
      cases hstored : stored n with
      | none => exact .inl rfl
      | some r =>
        have hr : name r = n := hold r hstored
        have hnewr : new = some r := (hall r hr).1 (.inr ((hmem r hr).2 hstored))
        exact .inr (hnewr.symm.trans hnew')
    · intro hagrees r hr
      obtain ⟨hnew', hstored⟩ := hagrees
      rw [hnew', Option.some.injEq]
      constructor
      · intro hmem'
        rcases hmem' with rfl | hheld
        · rfl
        · have hr₂ := (hmem r hr).1 hheld
          rcases hstored with hnone | hsome
          · rw [hnone] at hr₂
            cases hr₂
          · exact Option.some.inj (hsome.symm.trans hr₂)
      · intro heq
        exact .inl heq.symm
  | release r' =>
    constructor
    · intro hall
      constructor
      · intro hsome
        refine Option.eq_none_iff_forall_ne_some.2 fun r hr => ?_
        obtain ⟨hheld, hne⟩ := (hall r (hnew r hr)).2 hr
        exact hne (Option.some.inj (((hmem r (hnew r hr)).1 hheld).symm.trans hsome))
      · intro hother
        refine Option.ext fun r => ?_
        by_cases hr : name r = n
        · refine (hall r hr).symm.trans ((and_iff_left_of_imp fun hheld heq => hother ?_).trans (hmem r hr))
          rw [← show r = r' from heq]
          exact (hmem r hr).1 hheld
        · exact iff_of_false (fun h => hr (hnew r h)) (fun h => hr (hold r h))
    · intro hagrees r hr
      obtain ⟨hreleased, hkept⟩ := hagrees
      change r ∈ held ∧ r ≠ r' ↔ new = some r
      rw [hmem r hr]
      by_cases hsome : stored n = some r'
      · rw [hreleased hsome, hsome]
        exact iff_of_false (fun h => h.2 (Option.some.inj h.1).symm) (fun h => by cases h)
      · rw [hkept hsome]
        exact and_iff_left_of_imp fun hstored heq => hsome (heq ▸ hstored)

end Nanocl.Lib
