/-
Files that are written one after another: a later write of a path replaces the earlier one.

- `foldl_put`: what is there after a list of writes.
- `flatMap_survivors`: what one write contributes, if no other write contributes anything.
-/
import Mathlib.Data.List.Basic

namespace Nanocl.Lib

variable {κ α β : Type*} [DecidableEq κ]

/-- write a file -/
def put (files : List (κ × α)) (w : κ × α) : List (κ × α) := files.filter (fun f => f.1 ≠ w.1) ++ [w]

/-- the writes that no later one replaces -/
def survivors : List (κ × α) → List (κ × α)
  | [] => []
  | w :: ws => if w.1 ∈ ws.map Prod.fst then survivors ws else w :: survivors ws

theorem mem_of_mem_survivors {ws : List (κ × α)} {w : κ × α} (h : w ∈ survivors ws) : w ∈ ws := by
  induction ws with
  | nil => cases h
  | cons v ws ih =>
    rw [survivors] at h
    split at h
    · exact List.mem_cons_of_mem v (ih h)
    · rcases List.mem_cons.1 h with rfl | h
      · exact List.mem_cons_self
      · exact List.mem_cons_of_mem v (ih h)

theorem foldl_put (ws files : List (κ × α)) :
    ws.foldl put files = files.filter (fun f => f.1 ∉ ws.map Prod.fst) ++ survivors ws := by
  induction ws generalizing files with
  | nil => simp [survivors]
  | cons w ws ih =>
    have hfiles : (files.filter fun f => f.1 ≠ w.1).filter (fun f => f.1 ∉ ws.map Prod.fst) =
        files.filter fun f => f.1 ∉ (w :: ws).map Prod.fst := by
      rw [List.filter_filter]
      refine List.filter_congr fun f _ => ?_
      by_cases hf : f.1 = w.1
      · simp [hf]
      · simp [hf]
    rw [List.foldl_cons, ih, put, List.filter_append, hfiles, survivors, List.append_assoc]
    by_cases hw : w.1 ∈ ws.map Prod.fst
    · simp [hw]
    · simp [hw]

/-- what the write of one file contributes, if the others contribute nothing -/
theorem flatMap_survivors {g : κ × α → List β} {pre suf : List (κ × α)} {w : κ × α} (hpre : ∀ v ∈ pre, g v = [])
    (hsuf : ∀ v ∈ suf, g v = []) :
    (survivors (pre ++ w :: suf)).flatMap g = if w.1 ∈ suf.map Prod.fst then [] else g w := by
  have hrest : (survivors suf).flatMap g = [] := List.flatMap_eq_nil_iff.2 fun v hv => hsuf v (mem_of_mem_survivors hv)
  induction pre with
  | nil =>
    rw [List.nil_append, survivors]
    split
    · exact hrest
    · rw [List.flatMap_cons, hrest, List.append_nil]
  | cons v pre ih =>
    have ih := ih fun u hu => hpre u (List.mem_cons_of_mem v hu)
    rw [List.cons_append, survivors]
    split
    · exact ih
    · rw [List.flatMap_cons, hpre v List.mem_cons_self, List.nil_append, ih]

/-- what the chosen elements contribute -/
theorem flatMap_filter_eq {p : α → Bool} {g : α → List β} (l : List α) :
    (l.filter p).flatMap g = l.flatMap fun a => if p a then g a else [] := by
  induction l with
  | nil => rfl
  | cons a l ih =>
    by_cases hp : p a
    · simp [hp, ih]
    · simp [hp, ih]

end Nanocl.Lib
