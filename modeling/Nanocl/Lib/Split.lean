/-
Lists cut at an element: at every occurrence (`List.splitOn`), and at the first one (`cutAt`).

- `splitOn_eq_iff`: the parts of a list, as the lists without the separator that it joins.
- `splitOn_pair`, `splitOn_triple`: the lists of two and of three parts.
- `splitOn_append`: what has no separator goes to the last part.
- `append_cons_inj_of_last`: a list has one last occurrence of an element.
- `toString_nat_inj`, `notMem_toString`: a number between separators can be read.
- `splitOn_map`, `cutAt_map`: a map that keeps the separator, and makes no other, keeps the cuts.
-/
import Mathlib.Data.List.TakeWhile

namespace Nanocl.Lib

variable {α β : Type*} [DecidableEq α] [DecidableEq β]

/-- what is between two separators has none -/
theorem notMem_of_mem_splitOn {a : α} {xs l : List α} (h : l ∈ xs.splitOn a) : a ∉ l := by
  induction xs generalizing l with
  | nil =>
    obtain rfl := List.mem_singleton.1 h
    exact List.not_mem_nil
  | cons x xs ih =>
    rw [List.splitOn_cons_eq_if_modifyHead] at h
    split at h
    · rcases List.mem_cons.1 h with rfl | h
      · exact List.not_mem_nil
      · exact ih h
    · next hx =>
      obtain ⟨y, ys, hxs⟩ := List.exists_cons_of_ne_nil (List.splitOn_ne_nil a xs)
      rw [hxs] at h ih
      rcases List.mem_cons.1 h with rfl | h
      · have hy := ih List.mem_cons_self
        have hne : a ≠ x := fun heq => hx (beq_iff_eq.2 heq.symm)
        simp [hy, hne]
      · exact ih (List.mem_cons_of_mem _ h)

/-- **The parts of a list** are the lists without the separator that join to it. -/
theorem splitOn_eq_iff {a : α} {xs : List α} {ls : List (List α)} :
    xs.splitOn a = ls ↔ ls ≠ [] ∧ (∀ l ∈ ls, a ∉ l) ∧ [a].intercalate ls = xs := by
  constructor
  · rintro rfl
    exact ⟨List.splitOn_ne_nil a xs, fun l hl => notMem_of_mem_splitOn hl, List.intercalate_splitOn a⟩
  · rintro ⟨hne, hls, rfl⟩
    exact List.splitOn_intercalate a hls hne

theorem splitOn_pair {a : α} {xs l r : List α} : xs.splitOn a = [l, r] ↔ a ∉ l ∧ a ∉ r ∧ l ++ a :: r = xs := by
  simp [splitOn_eq_iff, List.intercalate, and_assoc]

theorem splitOn_triple {a : α} {xs l m r : List α} :
    xs.splitOn a = [l, m, r] ↔ a ∉ l ∧ a ∉ m ∧ a ∉ r ∧ l ++ a :: m ++ a :: r = xs := by
  simp [splitOn_eq_iff, List.intercalate, and_assoc]

omit [DecidableEq α] in
theorem intercalate_concat (sep : List α) (init : List (List α)) (last r : List α) :
    sep.intercalate (init ++ [last ++ r]) = sep.intercalate (init ++ [last]) ++ r := by
  induction init with
  | nil => simp [List.intercalate]
  | cons l init ih =>
    cases init with
    | nil => simp [List.intercalate]
    | cons m init =>
      simp only [List.intercalate, List.cons_append, List.intersperse_cons_cons, List.flatten_cons, List.append_assoc] at ih ⊢
      rw [ih]

/-- the parts of a list, the last one apart -/
theorem exists_splitOn_concat (a : α) (xs : List α) : ∃ init last, xs.splitOn a = init ++ [last] :=
  ⟨_, _, (List.dropLast_concat_getLast (List.splitOn_ne_nil a xs)).symm⟩

/-- what is appended without a separator goes to the last part -/
theorem splitOn_append {a : α} {xs r last : List α} {init : List (List α)} (h : xs.splitOn a = init ++ [last])
    (hr : a ∉ r) : (xs ++ r).splitOn a = init ++ [last ++ r] := by
  obtain ⟨-, hparts, hjoin⟩ := splitOn_eq_iff.1 h
  refine splitOn_eq_iff.2 ⟨by simp, fun l hl => ?_, by rw [intercalate_concat, hjoin]⟩
  rcases List.mem_append.1 hl with hl | hl
  · exact hparts l (List.mem_append_left _ hl)
  · obtain rfl := List.mem_singleton.1 hl
    have hlast := hparts last (by simp)
    simp [hlast, hr]

/-- a list with its last part cut off is cut off there -/
theorem eq_append_of_splitOn {a : α} {xs l r : List α} {init : List (List α)} (h : xs.splitOn a = init ++ [l ++ r]) :
    ∃ k, xs = k ++ r ∧ k.splitOn a = init ++ [l] := by
  obtain ⟨-, hparts, hjoin⟩ := splitOn_eq_iff.1 h
  refine ⟨[a].intercalate (init ++ [l]), by rw [← hjoin, intercalate_concat], ?_⟩
  refine splitOn_eq_iff.2 ⟨by simp, fun m hm => ?_, rfl⟩
  rcases List.mem_append.1 hm with hm | hm
  · exact hparts m (List.mem_append_left _ hm)
  · obtain rfl := List.mem_singleton.1 hm
    have hlast := hparts (m ++ r) (by simp)
    exact fun hmem => hlast (List.mem_append_left _ hmem)

/-- the elements of the last part are elements of the list -/
theorem mem_of_mem_last {a x : α} {xs last : List α} {init : List (List α)} (h : xs.splitOn a = init ++ [last])
    (hx : x ∈ last) : x ∈ xs := by
  obtain ⟨k, rfl, -⟩ := eq_append_of_splitOn (l := []) (r := last) (by simpa using h)
  exact List.mem_append_right _ hx

/-- there is one part more than there are separators -/
theorem length_splitOn (a : α) (xs : List α) : (xs.splitOn a).length = xs.count a + 1 := by
  induction xs with
  | nil => rfl
  | cons x xs ih =>
    rw [List.splitOn_cons_eq_if_modifyHead, List.count_cons]
    split
    · rw [List.length_cons, ih]
    · rw [List.length_modifyHead, ih, Nat.add_zero]

variable {f : α → β} {a : α} {b : β}

theorem splitOn_map (hf : ∀ x, f x = b ↔ x = a) (xs : List α) :
    (xs.map f).splitOn b = (xs.splitOn a).map (List.map f) := by
  induction xs with
  | nil => rfl
  | cons x xs ih =>
    obtain ⟨l, ls, hxs⟩ := List.exists_cons_of_ne_nil (List.splitOn_ne_nil a xs)
    rw [List.map_cons, List.splitOn_cons_eq_if_modifyHead, List.splitOn_cons_eq_if_modifyHead, ih, hxs]
    by_cases hx : x = a
    · simp [hx, (hf a).2 rfl]
    · have hfx : f x ≠ b := fun h => hx ((hf x).1 h)
      simp [hx, hfx]

/-! ## The first occurrence -/

/-- what is before the first occurrence, and what is behind it if there is one -/
def cutAt (a : α) (xs : List α) : List α × Option (List α) := (xs.takeWhile (· ≠ a), (xs.dropWhile (· ≠ a)).tail?)

theorem cutAt_cons (a x : α) (xs : List α) :
    cutAt a (x :: xs) = if x = a then ([], some xs) else (x :: (cutAt a xs).1, (cutAt a xs).2) := by
  by_cases h : x = a <;> simp [cutAt, h]

theorem cutAt_append {a : α} {l : List α} (hl : a ∉ l) (r : List α) : cutAt a (l ++ a :: r) = (l, some r) := by
  induction l with
  | nil => rw [List.nil_append, cutAt_cons, if_pos rfl]
  | cons x l ih =>
    rw [List.mem_cons, not_or] at hl
    rw [List.cons_append, cutAt_cons, if_neg (Ne.symm hl.1), ih hl.2]

theorem cutAt_of_notMem {a : α} {xs : List α} (h : a ∉ xs) : cutAt a xs = (xs, none) := by
  induction xs with
  | nil => rfl
  | cons x xs ih =>
    rw [List.mem_cons, not_or] at h
    rw [cutAt_cons, if_neg (Ne.symm h.1), ih h.2]

theorem notMem_of_cutAt {a : α} {xs : List α} (h : (cutAt a xs).2 = none) : a ∉ xs := by
  intro hmem
  obtain ⟨l, r, rfl, hl⟩ := List.eq_append_cons_of_mem hmem
  rw [cutAt_append hl] at h
  cases h

theorem cutAt_eq_some {xs l r : List α} (h : cutAt a xs = (l, some r)) : l ++ a :: r = xs := by
  induction xs generalizing l with
  | nil => cases h
  | cons x xs ih =>
    rw [cutAt_cons] at h
    split_ifs at h with hx
    · obtain ⟨rfl, hr⟩ := Prod.mk.inj h
      rw [hx, Option.some.inj hr, List.nil_append]
    · obtain ⟨rfl, hr⟩ := Prod.mk.inj h
      rw [List.cons_append, ih (Prod.ext rfl hr)]

theorem cutAt_map (hf : ∀ x, f x = b ↔ x = a) (xs : List α) :
    cutAt b (xs.map f) = ((cutAt a xs).1.map f, (cutAt a xs).2.map (List.map f)) := by
  have hp : ((fun y => decide (y ≠ b)) ∘ f) = fun x => decide (x ≠ a) := by
    funext x
    simp [hf x]
  unfold cutAt
  rw [List.takeWhile_map, List.dropWhile_map, hp]
  cases xs.dropWhile (fun x => decide (x ≠ a)) <;> rfl

/-! ## The last occurrence -/

theorem append_cons_inj_of_last {a : α} {k l x y : List α} (hx : a ∉ x) (hy : a ∉ y) (h : k ++ a :: x = l ++ a :: y) :
    k = l ∧ x = y := by
  have hcut := congrArg (fun zs => cutAt a zs.reverse) h
  simp only [List.reverse_append, List.reverse_cons, List.append_assoc, List.singleton_append] at hcut
  rw [cutAt_append (by simpa using hx), cutAt_append (by simpa using hy)] at hcut
  obtain ⟨hafter, hbefore⟩ := Prod.mk.inj hcut
  exact ⟨List.reverse_inj.1 (Option.some.inj hbefore), List.reverse_inj.1 hafter⟩

/-! ## Numbers -/

theorem isDigit_of_mem_toString {n : ℕ} {c : Char} (h : c ∈ (toString n).toList) : c.isDigit = true :=
  Nat.isDigit_of_mem_toDigits (Nat.succ_pos 9) (Nat.le_refl 10) (by simpa using h)

/-- a character that is no digit does not occur in a number -/
theorem notMem_toString {c : Char} (hc : c.isDigit = false) (n : ℕ) : c ∉ (toString n).toList := by
  intro h
  rw [isDigit_of_mem_toString h] at hc
  cases hc

/-- the text of a number tells it -/
theorem toString_nat_inj {i j : ℕ} (h : toString i = toString j) : i = j := by
  have hdigits : Nat.toDigits 10 i = Nat.toDigits 10 j := by simpa using congrArg String.toList h
  rw [← Nat.ofDigitChars_ten_toDigits (n := i), hdigits, Nat.ofDigitChars_ten_toDigits]

end Nanocl.Lib
