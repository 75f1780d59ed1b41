/-
The lines of a text, as `str::lines` gives them, and the text that writes lines back.

- `lines_cons`: a line that is written is the first one.
- `lines_unlines`: what is written line by line is read so, unless a line has a break in it.
- `lines_unlines_chomp`: a carriage return at the end of a written line is not read.
- `rawLines_unlines`, `unlines_rawLines`: the texts in which every line is ended are those that are written line by line.
- `unlines_inj`: lines without line feeds are written differently.
-/
import Nanocl.Lib.Split
import Mathlib.Data.List.Basic

namespace Nanocl.Lib

/-- a line without the carriage return in front of its line feed -/
def stripCr (l : List Char) : List Char := if l.getLast? = some '\r' then l.dropLast else l

/-- the lines of a text; what follows the last line feed is one unless it is empty -/
def linesOf (content : List Char) : List (List Char) :=
  let parts := content.splitOn '\n'
  parts.dropLast.map stripCr ++ (parts.getLast?.filter (· ≠ [])).toList

def lines (content : String) : List String := (linesOf content.toList).map String.ofList

/-- each line with a line feed behind it -/
def unlines : List String → String
  | [] => ""
  | l :: ls => l ++ "\n" ++ unlines ls

@[simp] theorem lines_empty : lines "" = [] := rfl

theorem linesOf_append {l : List Char} (hl : '\n' ∉ l) (rest : List Char) :
    linesOf (l ++ '\n' :: rest) = stripCr l :: linesOf rest := by
  unfold linesOf
  rw [List.splitOn_append_cons_self_of_not_mem hl]
  obtain ⟨x, xs, h⟩ := List.exists_cons_of_ne_nil (List.splitOn_ne_nil '\n' rest)
  rw [h]
  rfl

/-- a line without a line feed that does not end in a carriage return -/
structure IsLine (l : String) : Prop where
  feed : '\n' ∉ l.toList
  carriage : l.toList.getLast? ≠ some '\r'

theorem lines_cons {l : String} (hl : IsLine l) (rest : String) : lines (l ++ "\n" ++ rest) = l :: lines rest := by
  have htext : (l ++ "\n" ++ rest).toList = l.toList ++ '\n' :: rest.toList := by simp
  unfold lines
  rw [htext, linesOf_append hl.feed, List.map_cons, stripCr, if_neg hl.carriage, String.ofList_toList]

/-- **Lines are read as they are written.** -/
theorem lines_unlines {ls : List String} (h : ∀ l ∈ ls, IsLine l) : lines (unlines ls) = ls := by
  induction ls with
  | nil => rfl
  | cons l ls ih =>
    rw [unlines, lines_cons (h l List.mem_cons_self), ih fun l hl => h l (List.mem_cons_of_mem _ hl)]

/-- no line has a line feed in it -/
theorem feed_of_mem_lines {l content : String} (h : l ∈ lines content) : '\n' ∉ l.toList := by
  obtain ⟨cs, hcs, rfl⟩ := List.mem_map.1 h
  rw [String.toList_ofList]
  rcases List.mem_append.1 hcs with hcs | hcs
  · obtain ⟨part, hpart, rfl⟩ := List.mem_map.1 hcs
    have hno := notMem_of_mem_splitOn (List.dropLast_subset _ hpart)
    unfold stripCr
    split
    · exact fun hmem => hno (List.dropLast_subset _ hmem)
    · exact hno
  · have hlast := (Option.mem_filter_iff.1 (Option.mem_toList.1 hcs)).1
    exact notMem_of_mem_splitOn (List.mem_of_getLast? hlast)

/-! ## Carriage returns -/

/-- a line as it is read after it was written -/
def chomp (l : String) : String := String.ofList (stripCr l.toList)

theorem chomp_eq_self {l : String} : chomp l = l ↔ l.toList.getLast? ≠ some '\r' := by
  have hl : chomp l = l ↔ stripCr l.toList = l.toList := by
    constructor
    · intro h
      have := congrArg String.toList h
      rwa [chomp, String.toList_ofList] at this
    · intro h
      rw [chomp, h, String.ofList_toList]
  rw [hl]
  unfold stripCr
  split_ifs with h
  · refine iff_of_false (fun he => ?_) fun hn => hn h
    have hne : l.toList ≠ [] := by
      intro h0
      rw [h0] at h
      cases h
    have := congrArg List.length he
    have hpos := List.length_pos_iff.2 hne
    rw [List.length_dropLast] at this
    omega
  · exact iff_of_true rfl h

/-- **Written lines** are read without the carriage returns at their ends. -/
theorem lines_unlines_chomp {ls : List String} (h : ∀ l ∈ ls, '\n' ∉ l.toList) : lines (unlines ls) = ls.map chomp := by
  induction ls with
  | nil => rfl
  | cons l ls ih =>
    have htext : (l ++ "\n" ++ unlines ls).toList = l.toList ++ '\n' :: (unlines ls).toList := by simp
    rw [unlines, lines, htext, linesOf_append (h l List.mem_cons_self), List.map_cons, List.map_cons, ← chomp,
      ← lines, ih fun l hl => h l (List.mem_cons_of_mem _ hl)]

/-- every written line ends in a line feed, and there are no others -/
theorem splitOn_unlines {ls : List String} (h : ∀ l ∈ ls, '\n' ∉ l.toList) :
    (unlines ls).toList.splitOn '\n' = ls.map String.toList ++ [[]] := by
  induction ls with
  | nil => rfl
  | cons l ls ih =>
    have htext : (l ++ "\n" ++ unlines ls).toList = l.toList ++ '\n' :: (unlines ls).toList := by simp
    rw [unlines, htext, List.splitOn_append_cons_self_of_not_mem (h l List.mem_cons_self),
      ih fun l hl => h l (List.mem_cons_of_mem _ hl)]
    rfl

theorem unlines_inj {ls ls' : List String} (h : ∀ l ∈ ls, '\n' ∉ l.toList) (h' : ∀ l ∈ ls', '\n' ∉ l.toList) :
    unlines ls = unlines ls' ↔ ls = ls' := by
  constructor
  · intro heq
    have hsplit := congrArg (fun t : String => t.toList.splitOn '\n') heq
    simp only [splitOn_unlines h, splitOn_unlines h'] at hsplit
    have hmap := List.append_cancel_right hsplit
    exact List.map_injective_iff.2 (fun a b hab => String.toList_inj.1 hab) hmap
  · rintro rfl
    rfl

theorem unlines_append (ls ls' : List String) : unlines (ls ++ ls') = unlines ls ++ unlines ls' := by
  induction ls with
  | nil => rw [List.nil_append, unlines, String.empty_append]
  | cons l ls ih => rw [List.cons_append, unlines, unlines, ih, ← String.append_assoc]

/-! ## Lines with their carriage returns -/

/-- what is between the line feeds; what follows the last one is a line unless it is empty -/
def rawLines (content : String) : List String :=
  let parts := content.toList.splitOn '\n'
  (parts.dropLast ++ (parts.getLast?.filter (· ≠ [])).toList).map String.ofList

/-- every line is ended by a line feed -/
def Terminated (content : String) : Prop := content = "" ∨ content.toList.getLast? = some '\n'

theorem terminated_unlines (ls : List String) : Terminated (unlines ls) := by
  induction ls with
  | nil => exact .inl rfl
  | cons l ls ih =>
    right
    rw [unlines, String.toList_append, List.getLast?_append]
    obtain h | h := ih
    · rw [h]
      simp
    · rw [h]
      rfl

theorem rawLines_unlines {ls : List String} (h : ∀ l ∈ ls, '\n' ∉ l.toList) : rawLines (unlines ls) = ls := by
  unfold rawLines
  rw [splitOn_unlines h]
  simp

theorem feed_of_mem_rawLines {l content : String} (h : l ∈ rawLines content) : '\n' ∉ l.toList := by
  obtain ⟨cs, hcs, rfl⟩ := List.mem_map.1 h
  rw [String.toList_ofList]
  obtain hcs | hcs := List.mem_append.1 hcs
  · exact notMem_of_mem_splitOn (List.dropLast_subset _ hcs)
  · exact notMem_of_mem_splitOn (List.mem_of_getLast? (Option.mem_filter_iff.1 (Option.mem_toList.1 hcs)).1)

theorem toList_unlines (ls : List String) : (unlines ls).toList = ls.flatMap fun l => l.toList ++ ['\n'] := by
  induction ls with
  | nil => rfl
  | cons l ls ih => simp [unlines, ih]

/-- the parts of a list, each but the last with the separator behind it -/
theorem intercalate_eq_flatMap {α : Type} (a : α) (ls : List (List α)) (l : List α) :
    [a].intercalate (ls ++ [l]) = ls.flatMap (fun x => x ++ [a]) ++ l := by
  induction ls with
  | nil => simp
  | cons x ls ih =>
    have hcons : [a].intercalate (x :: (ls ++ [l])) = x ++ [a] ++ [a].intercalate (ls ++ [l]) := by
      cases ls <;> simp [List.intercalate]
    rw [List.cons_append, hcons, ih, List.flatMap_cons, List.append_assoc (x ++ [a])]

/-- **A text in which every line is ended** is written line by line. -/
theorem unlines_rawLines {content : String} (h : Terminated content) : unlines (rawLines content) = content := by
  obtain ⟨ls, l, hparts⟩ : ∃ ls l, content.toList.splitOn '\n' = ls ++ [l] :=
    ⟨_, _, (List.dropLast_append_getLast (List.splitOn_ne_nil '\n' _)).symm⟩
  have htext : content.toList = ls.flatMap (fun x => x ++ ['\n']) ++ l := by
    rw [← intercalate_eq_flatMap, ← hparts, List.intercalate_splitOn]
  have hl : l = [] := by
    by_contra hne
    obtain h | h := h
    · rw [h] at htext
      exact hne (List.append_eq_nil_iff.1 htext.symm).2
    · rw [htext, List.getLast?_append_of_ne_nil _ hne] at h
      have hmem : l ∈ content.toList.splitOn '\n' := by simp [hparts]
      exact notMem_of_mem_splitOn hmem (List.mem_of_getLast? h)
  rw [← String.toList_inj, toList_unlines, rawLines, hparts, htext, hl]
  simp [List.flatMap_map]

/-- without carriage returns at their ends, the lines are those that are read -/
theorem lines_eq_rawLines {content : String} (h : ∀ l ∈ rawLines content, l.toList.getLast? ≠ some '\r') :
    lines content = rawLines content := by
  unfold lines linesOf rawLines
  have hstrip : ∀ l ∈ (content.toList.splitOn '\n').dropLast, stripCr l = l := by
    intro l hl
    have hmem : String.ofList l ∈ rawLines content := List.mem_map_of_mem (List.mem_append_left _ hl)
    exact if_neg (by simpa using h _ hmem)
  dsimp only
  rw [List.map_congr_left hstrip, List.map_id']

end Nanocl.Lib
