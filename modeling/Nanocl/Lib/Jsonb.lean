/-
JSON values in a database: containment (`@>`) and the test for a key (`?`), on values whose fields may be stored in any
order.

- `contains_path`: an object with one text at a path of keys is contained in the values that have the text there.
- `contains_obj`, `contains_list`, `contains_str`: what is stored for a value contains a pattern, by the fields and the
  items of the value as it was written.
-/
import Mathlib.Algebra.Field.Rat
import Mathlib.Data.List.Forall2
import Nanocl.Lib.Serde

namespace Nanocl.Lib.Json

/-- the value of a number, however it is written -/
def number : Json → Option ℚ
  | .int n => some n
  | .float mantissa exponent => some ((mantissa : ℚ) * 10 ^ exponent)
  | _ => none

def field (fields : List (String × Json)) (key : String) : Option Json :=
  (fields.find? fun f => f.1 = key).map Prod.snd

mutual

/-- containment below the top level -/
def deepContains : Json → Json → Bool
  | .obj a, .obj b => fieldsIn a b
  | .arr a, .arr b => itemsIn a b
  | .null, .null => true
  | .bool a, .bool b => a == b
  | .str a, .str b => a == b
  | .int n, b => b.number == some (n : ℚ)
  | .float mantissa exponent, b => b.number == some ((mantissa : ℚ) * 10 ^ exponent)
  | _, _ => false

/-- every field of the right object is contained in the left one -/
def fieldsIn (a : List (String × Json)) : List (String × Json) → Bool
  | [] => true
  | (k, v) :: b => (match field a k with | none => false | some u => deepContains u v) && fieldsIn a b

/-- every item of the right array is contained in an item of the left one -/
def itemsIn (a : List Json) : List Json → Bool
  | [] => true
  | v :: b => a.any (fun u => deepContains u v) && itemsIn a b

end

def isScalar : Json → Bool
  | .arr _ | .obj _ => false
  | _ => true

/-- `a @> b`; at the top level an array also contains the scalars among its items -/
def contains : Json → Json → Bool
  | .arr a, b => if b.isScalar then a.any (fun u => deepContains u b) else deepContains (.arr a) b
  | a, b => deepContains a b

/-- `a ? key` -/
def hasKey : Json → String → Bool
  | .obj fields, k => (field fields k).isSome
  | .arr items, k => items.any fun v => match v with | .str s => s == k | _ => false
  | .str s, k => s == k
  | _, _ => false

theorem field_eq_lookup (fields : List (String × Json)) (name : String) : field fields name = fields.lookup name := by
  induction fields with
  | nil => rfl
  | cons p fields ih =>
    obtain ⟨name', value⟩ := p
    rw [List.lookup_cons]
    by_cases h : name' = name
    · simp [field, h]
    · have hne : (name == name') = false := beq_eq_false_iff_ne.2 (Ne.symm h)
      rw [hne, ← ih]
      simp [field, h]

/-! ## Paths -/

/-- the value at a path of keys -/
def valueAt (j : Json) : List String → Option Json
  | [] => some j
  | key :: path =>
    match j with
    | .obj fields => (field fields key).bind fun u => u.valueAt path
    | _ => none

/-- the object with one text, at a path of keys -/
def path (keys : List String) (text : String) : Json := keys.foldr (fun key j => .obj [(key, j)]) (.str text)

theorem deepContains_path (j : Json) (keys : List String) (text : String) :
    j.deepContains (path keys text) = true ↔ j.valueAt keys = some (.str text) := by
  induction keys generalizing j with
  | nil => cases j <;> simp [path, deepContains, valueAt, number]
  | cons key keys ih =>
    have hcons : path (key :: keys) text = .obj [(key, path keys text)] := rfl
    rw [hcons]
    cases j with
    | obj fields =>
      simp only [deepContains, fieldsIn, valueAt, Bool.and_true]
      cases field fields key with
      | none => simp
      | some u => simpa using ih u
    | null | bool | int | float | str | arr => simp [deepContains, valueAt, number]

/-- a value contains an object with one text exactly if it has the text at the path -/
theorem contains_path (j : Json) (key : String) (keys : List String) (text : String) :
    j.contains (path (key :: keys) text) = true ↔ j.valueAt (key :: keys) = some (.str text) := by
  rw [← deepContains_path]
  cases j <;> rfl

/-! ## Patterns in what is stored -/

section Patterns

variable {P : Json → Prop} {p j : Json}

theorem deepContains_obj (fields : List (String × Json)) (name : String) (p : Json) :
    deepContains (.obj fields) (.obj [(name, p)]) =
      match fields.lookup name with
      | none => false
      | some i => i.deepContains p := by
  rw [deepContains, fieldsIn, fieldsIn, Bool.and_true, field_eq_lookup]

/-- an object with a field, in whatever order its fields are stored -/
theorem contains_obj {fields : List (String × Json)} {name : String} (h : Same (.obj fields) j)
    (hnodup : (fields.map Prod.fst).Nodup)
    (hP : ∀ i i', fields.lookup name = some i → Same i i' → (i'.deepContains p = true ↔ P i)) :
    j.deepContains (.obj [(name, p)]) = true ↔ ∃ i, fields.lookup name = some i ∧ P i := by
  cases j with
  | obj fields' =>
    have hrel := h.lookup hnodup name
    rw [deepContains_obj]
    generalize fields.lookup name = value at hrel hP
    generalize fields'.lookup name = value' at hrel
    cases hrel with
    | none => simp
    | some hsame => simpa using hP _ _ rfl hsame
  | _ => cases h

/-- an array with an item -/
theorem contains_list {α : Type} {encode : α → Json} {Q : α → Prop} {items : List α}
    (h : Same (.arr (items.map encode)) j)
    (hQ : ∀ a ∈ items, ∀ i, Same (encode a) i → (i.deepContains p = true ↔ Q a)) :
    j.deepContains (.arr [p]) = true ↔ ∃ a ∈ items, Q a := by
  cases h with
  | @arr _ values hsame =>
    simp only [deepContains, itemsIn, Bool.and_true, List.any_eq_true]
    induction items generalizing values with
    | nil =>
      cases hsame
      simp
    | cons a items ih =>
      obtain ⟨i, values, hi, hrest, rfl⟩ := List.forall₂_cons_left_iff.1 hsame
      have hitems := ih (fun b hb => hQ b (List.mem_cons_of_mem _ hb)) hrest
      simp only [List.exists_mem_cons_iff, hQ a List.mem_cons_self i hi, hitems]

theorem contains_str {i : Json} (h : Same i j) (s : String) : j.deepContains (.str s) = true ↔ i = .str s := by
  cases h <;> simp [deepContains, number]

end Patterns

end Nanocl.Lib.Json
