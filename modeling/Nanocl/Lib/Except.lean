/-
Computations that return a value or an error: how `bind` runs, and the two rules for the loops over lists.
- `foldlM_inv`: what every step of a fold keeps holds at its end, if the fold returns.
- `foldlM_isOk_iff`: a fold whose steps return whatever the state is returns exactly if each of its steps does.
- `mapM_eq_ok_iff`: a map over a list returns exactly if it returns on each element.
-/
import Mathlib.Data.List.Forall2

namespace Nanocl.Lib

universe u v

variable {ε : Type u} {α β γ : Type v}

@[simp] theorem Except.pure_eq_ok (a : α) : (pure a : Except ε α) = .ok a := rfl

@[simp] theorem Except.throw_eq_error (e : ε) : (throw e : Except ε α) = .error e := rfl

@[simp] theorem Except.ok_bind (a : α) (f : α → Except ε β) : (Except.ok a >>= f) = f a := rfl

@[simp] theorem Except.error_bind (e : ε) (f : α → Except ε β) : (Except.error e >>= f) = .error e := rfl

theorem Except.bind_eq_ok_iff {x : Except ε α} {f : α → Except ε β} {b : β} :
    x >>= f = .ok b ↔ ∃ a, x = .ok a ∧ f a = .ok b := by
  cases x with
  | error e => simp
  | ok a => simp

theorem Except.map_eq_ok_iff {x : Except ε α} {f : α → β} {b : β} : x.map f = .ok b ↔ ∃ a, x = .ok a ∧ f a = b := by
  cases x with
  | error e => simp [Except.map]
  | ok a => simp [Except.map]

/-- what every step keeps holds at the end -/
theorem foldlM_inv {f : β → α → Except ε β} (I : β → Prop) {l : List α}
    (hstep : ∀ b, ∀ a ∈ l, ∀ b', f b a = .ok b' → I b → I b') {b b' : β} (h : l.foldlM f b = .ok b') (hb : I b) :
    I b' := by
  induction l generalizing b with
  | nil =>
    rw [List.foldlM_nil, Except.pure_eq_ok, Except.ok.injEq] at h
    exact h ▸ hb
  | cons a l ih =>
    rw [List.foldlM_cons, Except.bind_eq_ok_iff] at h
    obtain ⟨c, hc, h⟩ := h
    exact ih (fun b a ha => hstep b a (List.mem_cons_of_mem _ ha)) h (hstep b a (List.mem_cons_self ..) c hc hb)

/-- a fold whose step on `a` returns exactly if `P a` does, in every state -/
theorem foldlM_isOk_iff {f : β → α → Except ε β} {P : α → Prop} (hf : ∀ b a, (∃ b', f b a = .ok b') ↔ P a) {l : List α}
    (b : β) : (∃ b', l.foldlM f b = .ok b') ↔ ∀ a ∈ l, P a := by
  induction l generalizing b with
  | nil => exact iff_of_true ⟨b, rfl⟩ fun a ha => absurd ha List.not_mem_nil
  | cons a l ih =>
    simp only [List.foldlM_cons, Except.bind_eq_ok_iff, List.forall_mem_cons]
    constructor
    · rintro ⟨b', c, hc, h⟩
      exact ⟨(hf b a).1 ⟨c, hc⟩, (ih c).1 ⟨b', h⟩⟩
    · rintro ⟨ha, hl⟩
      obtain ⟨c, hc⟩ := (hf b a).2 ha
      obtain ⟨b', h⟩ := (ih c).2 hl
      exact ⟨b', c, hc, h⟩

theorem mapM_eq_ok_iff {f : α → Except ε β} {l : List α} {bs : List β} :
    l.mapM f = .ok bs ↔ List.Forall₂ (fun a b => f a = .ok b) l bs := by
  induction l generalizing bs with
  | nil => cases bs <;> simp
  | cons a l ih =>
    simp only [List.mapM_cons, Except.bind_eq_ok_iff, Except.pure_eq_ok, Except.ok.injEq, List.forall₂_cons_left_iff]
    constructor
    · rintro ⟨b, hb, bs', h, rfl⟩
      exact ⟨b, bs', hb, ih.1 h, rfl⟩
    · rintro ⟨b, bs', hb, h, rfl⟩
      exact ⟨b, hb, bs', ih.2 h, rfl⟩

/-- each result of a map comes from an element -/
theorem exists_of_mem_mapM {f : α → Except ε β} {l : List α} {bs : List β} (h : l.mapM f = .ok bs) {b : β}
    (hb : b ∈ bs) : ∃ a ∈ l, f a = .ok b := by
  obtain ⟨i, hi, rfl⟩ := List.mem_iff_getElem.1 hb
  have h2 := List.forall₂_iff_get.1 (mapM_eq_ok_iff.1 h)
  have hi' : i < l.length := h2.1 ▸ hi
  exact ⟨l[i], List.getElem_mem hi', h2.2 i hi' hi⟩

/-- each element of a map has its result -/
theorem exists_mem_of_mapM {f : α → Except ε β} {l : List α} {bs : List β} (h : l.mapM f = .ok bs) {a : α}
    (ha : a ∈ l) : ∃ b ∈ bs, f a = .ok b := by
  obtain ⟨i, hi, rfl⟩ := List.mem_iff_getElem.1 ha
  have h2 := List.forall₂_iff_get.1 (mapM_eq_ok_iff.1 h)
  have hi' : i < bs.length := h2.1 ▸ hi
  exact ⟨bs[i], List.getElem_mem hi', h2.2 i hi hi'⟩

/-- a map returns exactly if it does on every element -/
theorem mapM_isOk_iff {f : α → Except ε β} {l : List α} : (∃ bs, l.mapM f = .ok bs) ↔ ∀ a ∈ l, ∃ b, f a = .ok b := by
  constructor
  · rintro ⟨bs, h⟩ a ha
    obtain ⟨b, -, hb⟩ := exists_mem_of_mapM h ha
    exact ⟨b, hb⟩
  · intro h
    induction l with
    | nil => exact ⟨[], rfl⟩
    | cons a l ih =>
      obtain ⟨b, hb⟩ := h a (List.mem_cons_self ..)
      obtain ⟨bs, hbs⟩ := ih fun c hc => h c (List.mem_cons_of_mem _ hc)
      exact ⟨b :: bs, by simp [hb, hbs]⟩

theorem mapM_congr {f g : α → Except ε β} {l : List α} (h : ∀ a ∈ l, f a = g a) : l.mapM f = l.mapM g := by
  induction l with
  | nil => rfl
  | cons a l ih =>
    rw [List.mapM_cons, List.mapM_cons, h a (List.mem_cons_self ..), ih fun b hb => h b (List.mem_cons_of_mem _ hb)]

end Nanocl.Lib
