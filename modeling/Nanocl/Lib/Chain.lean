/-
Chains of items: a key finds an item, and an item may name the key of another one, its parent. This is how an image of a
copy-on-write format refers to its backing file.

- `OnChain`: the items met on the way up from a key.
- `Backed`: the way ends, and every item on it is there.
- `Backed.transfer`: a chain whose items are still found, and are there, is backed still.
-/
import Mathlib.Logic.Basic

namespace Nanocl.Lib

variable {κ ι : Type*}

/-- the items met on the way up from a key -/
inductive OnChain (find : κ → Option ι) (parent : ι → Option κ) : κ → ι → Prop
  | here {k : κ} {i : ι} (h : find k = some i) : OnChain find parent k i
  | up {k p : κ} {i j : ι} (h : find k = some i) (hp : parent i = some p) (hj : OnChain find parent p j) :
    OnChain find parent k j

/-- the way up from a key ends, and every item on it is there -/
inductive Backed (find : κ → Option ι) (parent : ι → Option κ) (there : ι → Prop) : κ → Prop
  | intro {k : κ} {i : ι} (h : find k = some i) (ht : there i)
    (hp : ∀ p, parent i = some p → Backed find parent there p) : Backed find parent there k

variable {find find' : κ → Option ι} {parent : ι → Option κ} {there there' : ι → Prop} {k : κ}

theorem OnChain.exists_find {j : ι} (h : OnChain find parent k j) : ∃ k', find k' = some j := by
  induction h with
  | here h => exact ⟨_, h⟩
  | up _ _ _ ih => exact ih

/-- an item of the chain is the first one, or the parent of another one -/
theorem OnChain.first_or_parent {j : ι} (h : OnChain find parent k j) :
    find k = some j ∨ ∃ k' i p, find k' = some i ∧ parent i = some p ∧ find p = some j := by
  induction h with
  | here h => exact .inl h
  | up h hp _ ih => exact .inr (ih.elim (fun hj => ⟨_, _, _, h, hp, hj⟩) id)

theorem OnChain.mono (hfind : ∀ k i, find k = some i → find' k = some i) {j : ι} (h : OnChain find parent k j) :
    OnChain find' parent k j := by
  induction h with
  | here h => exact .here (hfind _ _ h)
  | up h hp _ ih => exact .up (hfind _ _ h) hp ih

theorem Backed.of_onChain (h : Backed find parent there k) {j : ι} (hj : OnChain find parent k j) : there j := by
  induction h with
  | intro h ht _ ih =>
    cases hj with
    | here hk =>
      obtain rfl := Option.some.inj (h.symm.trans hk)
      exact ht
    | up hk hp hj =>
      obtain rfl := Option.some.inj (h.symm.trans hk)
      exact ih _ hp hj

theorem Backed.transfer (h : Backed find parent there k)
    (hfind : ∀ k' i, find k' = some i → OnChain find parent k i → find' k' = some i)
    (hthere : ∀ i, OnChain find parent k i → there' i) : Backed find' parent there' k := by
  induction h with
  | intro h _ _ ih =>
    refine .intro (hfind _ _ h (.here h)) (hthere _ (.here h)) fun p hp => ih p hp (fun k' i hk hi => ?_) fun i hi => ?_
    · exact hfind k' i hk (.up h hp hi)
    · exact hthere i (.up h hp hi)

end Nanocl.Lib
