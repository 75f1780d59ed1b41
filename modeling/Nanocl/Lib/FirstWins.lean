/-
A pass over a list in which the first item of each key acts on the value of its key, and the later ones of that key are
skipped.

- `passes_eq`: the pass, written as the loop that remembers the keys it has seen, is `applyFirsts`.
- `guarded_perm_iff`: a pass that stops at the first item that is not `p` does the same in every order of the list
  exactly if the items of one key act alike, and, where some item is not `p`, none acts at all.
- `guarded_forall_iff`: what holds of the values after a pass in every order is what each item alone makes hold.
-/
import Mathlib.Data.List.Perm.Basic
import Mathlib.Data.List.TakeWhile
import Mathlib.Logic.Function.Basic

namespace Nanocl.Lib

variable {ι K V : Type*} [DecidableEq K] (key : ι → Option K) (act : ι → V → V)

/-- the first item of a key -/
def first (l : List ι) (k : K) : Option ι := l.find? fun c => key c = some k

/-- the values once the first item of each key has acted -/
def applyFirsts (l : List ι) (v : K → V) (k : K) : V :=
  match first key l k with
  | none => v k
  | some c => act c (v k)

/-- the same as a loop: a key that was seen is skipped -/
def passes : List ι → List K → (K → V) → K → V
  | [], _, v => v
  | c :: l, seen, v =>
    match key c with
    | none => passes l seen v
    | some k => if k ∈ seen then passes l seen v else passes l (k :: seen) (Function.update v k (act c (v k)))

theorem first_cons_of_ne {c : ι} {l : List ι} {k : K} (h : key c ≠ some k) : first key (c :: l) k = first key l k := by
  simp [first, h]

theorem first_cons_of_eq {c : ι} {l : List ι} {k : K} (h : key c = some k) : first key (c :: l) k = some c := by
  simp [first, h]

theorem first_eq_some {l : List ι} {k : K} {c : ι} (h : first key l k = some c) : c ∈ l ∧ key c = some k :=
  ⟨List.mem_of_find?_eq_some h, by simpa using List.find?_some h⟩

theorem first_eq_none {l : List ι} {k : K} : first key l k = none ↔ ∀ c ∈ l, key c ≠ some k := by
  simp [first]

theorem applyFirsts_cons_of_ne {c : ι} {l : List ι} {v : K → V} {k : K} (h : key c ≠ some k) :
    applyFirsts key act (c :: l) v k = applyFirsts key act l v k := by
  simp only [applyFirsts, first_cons_of_ne key h]

theorem applyFirsts_cons_of_eq {c : ι} {l : List ι} {v : K → V} {k : K} (h : key c = some k) :
    applyFirsts key act (c :: l) v k = act c (v k) := by
  simp only [applyFirsts, first_cons_of_eq key h]

/-- the values of other keys are not looked at -/
theorem applyFirsts_congr {l : List ι} {v w : K → V} {k : K} (h : v k = w k) :
    applyFirsts key act l v k = applyFirsts key act l w k := by
  simp only [applyFirsts, h]

/-- a part of the values that the items act on alone can be looked at alone -/
theorem applyFirsts_map {W : Type*} (f : V → W) (act' : ι → W → W) (h : ∀ c x, f (act c x) = act' c (f x)) (l : List ι)
    (v : K → V) (k : K) : f (applyFirsts key act l v k) = applyFirsts key act' l (fun k => f (v k)) k := by
  unfold applyFirsts
  cases first key l k with
  | none => rfl
  | some c => exact h c (v k)

/-- the loop applies the first item of each key it has not seen -/
theorem passes_eq (l : List ι) (seen : List K) (v : K → V) (k : K) :
    passes key act l seen v k = if k ∈ seen then v k else applyFirsts key act l v k := by
  induction l generalizing seen v with
  | nil => simp [passes, applyFirsts, first]
  | cons c l ih =>
    cases hc : key c with
    | none => simp only [passes, hc, ih, applyFirsts_cons_of_ne key act (show key c ≠ some k by simp [hc])]
    | some k' =>
      simp only [passes, hc]
      by_cases hseen : k' ∈ seen
      · rw [if_pos hseen, ih]
        by_cases hk : k ∈ seen
        · rw [if_pos hk, if_pos hk]
        · have hne : key c ≠ some k := fun h => hk (Option.some.inj (hc.symm.trans h) ▸ hseen)
          rw [if_neg hk, if_neg hk, applyFirsts_cons_of_ne key act hne]
      · rw [if_neg hseen, ih]
        by_cases hk : k = k'
        · subst hk
          simp [hseen, applyFirsts_cons_of_eq key act hc]
        · have hne : key c ≠ some k := fun h => hk (Option.some.inj (hc.symm.trans h)).symm
          simp only [List.mem_cons, hk, false_or, applyFirsts_cons_of_ne key act hne, Function.update_of_ne hk]
          rw [applyFirsts_congr key act (Function.update_of_ne hk _ _)]

/-! ## Orders -/

/-- items of one key act alike -/
def ActAlike (l : List ι) (v : K → V) : Prop :=
  ∀ c ∈ l, ∀ c' ∈ l, ∀ k, key c = some k → key c' = some k → act c (v k) = act c' (v k)

/-- no item acts -/
def ActNone (l : List ι) (v : K → V) : Prop := ∀ c ∈ l, ∀ k, key c = some k → act c (v k) = v k

variable {key act}

theorem ActNone.applyFirsts {l : List ι} {v : K → V} (h : ActNone key act l v) : applyFirsts key act l v = v := by
  funext k
  unfold Lib.applyFirsts
  cases hf : first key l k with
  | none => rfl
  | some c =>
    obtain ⟨hc, hk⟩ := first_eq_some key hf
    exact h c hc k hk

/-- an item can be moved to the front -/
theorem exists_perm_cons {l : List ι} {c : ι} (h : c ∈ l) : ∃ l' : List ι, (c :: l').Perm l := by
  obtain ⟨s, t, rfl⟩ := List.append_of_mem h
  exact ⟨s ++ t, List.perm_middle.symm⟩

theorem ActAlike.perm {l l' : List ι} {v : K → V} (h : ActAlike key act l v) (hp : l'.Perm l) :
    Lib.applyFirsts key act l' v = Lib.applyFirsts key act l v := by
  funext k
  unfold Lib.applyFirsts
  cases hf' : first key l' k with
  | none =>
    have hf : first key l k = none := (first_eq_none key).2 fun c hc => (first_eq_none key).1 hf' c (hp.mem_iff.2 hc)
    rw [hf]
  | some c' =>
    obtain ⟨hc', hk'⟩ := first_eq_some key hf'
    cases hf : first key l k with
    | none => exact absurd hk' ((first_eq_none key).1 hf c' (hp.mem_iff.1 hc'))
    | some c =>
      obtain ⟨hc, hk⟩ := first_eq_some key hf
      exact h c' (hp.mem_iff.1 hc') c hc k hk' hk

variable (key act) (p : ι → Bool)

/-- **Independence of the order**, for a pass that stops at the first item that is not `p`. -/
theorem guarded_perm_iff (l : List ι) (v : K → V) :
    (∀ l₁ l₂ : List ι, l₁.Perm l → l₂.Perm l →
      applyFirsts key act (l₁.takeWhile p) v = applyFirsts key act (l₂.takeWhile p) v) ↔
    ActAlike key act (l.filter p) v ∧ ((∃ c ∈ l, p c = false) → ActNone key act (l.filter p) v) := by
  -- with c in front, the pass gives what c makes of the value of its key
  have hfront : ∀ c ∈ l.filter p, ∃ l' : List ι, (c :: l').Perm l ∧
      ∀ k, key c = some k → applyFirsts key act ((c :: l').takeWhile p) v k = act c (v k) := by
    intro c hc
    obtain ⟨hl, hp⟩ := List.mem_filter.1 hc
    obtain ⟨l', hperm⟩ := exists_perm_cons hl
    refine ⟨l', hperm, fun k hk => ?_⟩
    rw [List.takeWhile_cons_of_pos hp, applyFirsts_cons_of_eq key act hk]
  constructor
  · intro h
    refine ⟨fun c hc c' hc' k hk hk' => ?_, fun ⟨b, hb, hpb⟩ c hc k hk => ?_⟩
    · obtain ⟨l₁, hp₁, h₁⟩ := hfront c hc
      obtain ⟨l₂, hp₂, h₂⟩ := hfront c' hc'
      rw [← h₁ k hk, ← h₂ k hk', h _ _ hp₁ hp₂]
    · obtain ⟨l₁, hp₁, h₁⟩ := hfront c hc
      obtain ⟨l₂, hp₂⟩ := exists_perm_cons hb
      rw [← h₁ k hk, h _ _ hp₁ hp₂, List.takeWhile_cons_of_neg (by simp [hpb])]
      rfl
  · intro ⟨halike, hnone⟩ l₁ l₂ hp₁ hp₂
    by_cases hb : ∃ c ∈ l, p c = false
    · have hstay : ∀ l' : List ι, l'.Perm l → applyFirsts key act (l'.takeWhile p) v = v := by
        intro l' hp'
        refine ActNone.applyFirsts fun c hc k hk => hnone hb c (List.mem_filter.2 ⟨?_, ?_⟩) k hk
        · exact hp'.mem_iff.1 ((List.takeWhile_prefix p).subset hc)
        · exact List.mem_takeWhile_imp hc
      rw [hstay l₁ hp₁, hstay l₂ hp₂]
    · have hall : ∀ c ∈ l, p c = true := by
        intro c hc
        by_contra hn
        exact hb ⟨c, hc, by simpa using hn⟩
      have hwhole : ∀ l' : List ι, l'.Perm l → l'.takeWhile p = l' := by
        intro l' hp'
        exact List.takeWhile_eq_self_iff.2 fun c hc => hall c (hp'.mem_iff.1 hc)
      have hfilter : l.filter p = l := List.filter_eq_self.2 hall
      rw [hfilter] at halike
      rw [hwhole l₁ hp₁, hwhole l₂ hp₂, halike.perm hp₁, halike.perm hp₂]

/-- **What holds after a pass in every order** is what each item alone makes hold. -/
theorem guarded_forall_iff (l : List ι) (v : K → V) (Q : K → V → Prop) (hv : ∀ k, Q k (v k)) :
    (∀ l' : List ι, l'.Perm l → ∀ k, Q k (applyFirsts key act (l'.takeWhile p) v k)) ↔
      ∀ c ∈ l.filter p, ∀ k, key c = some k → Q k (act c (v k)) := by
  constructor
  · intro h c hc k hk
    obtain ⟨hl, hp⟩ := List.mem_filter.1 hc
    obtain ⟨l', hperm⟩ := exists_perm_cons hl
    have := h _ hperm k
    rwa [List.takeWhile_cons_of_pos hp, applyFirsts_cons_of_eq key act hk] at this
  · intro h l' hp' k
    unfold Lib.applyFirsts
    cases hf : first key (l'.takeWhile p) k with
    | none => exact hv k
    | some c =>
      obtain ⟨hc, hk⟩ := first_eq_some key hf
      refine h c (List.mem_filter.2 ⟨?_, List.mem_takeWhile_imp hc⟩) k hk
      exact hp'.mem_iff.1 ((List.takeWhile_prefix p).subset hc)

end Nanocl.Lib
