/-
Formats of values as JSON, put together from formats of their parts.

A `Codec` writes a value and reads it back, from whatever it is written as: the fields of an object may come in any order,
as in a store that sorts them (`Json.Same`). A `Record` is the format of a structure, field by field; an object is read by
it only if it has no other field and none twice, and a list if it has the fields in their order. An untagged choice writes
the chosen value and reads with the first codec that accepts.

- `Json.Same.lookup`: the same object has the same fields.
- `Record.codec`: the format of a structure is a codec.
- `Record.refuses_of_needs`: a structure with a field that another one lacks does not read it.
- `Codec.orElse`: an untagged choice is a codec if no value of a later variant is read by an earlier one.
- `Codec.tagged`: an internally tagged choice is a codec if what a variant holds is read without the tag.
- `readStruct_present`: the fields of an object are read as they were written, whatever is made of them.
-/
import Mathlib.Algebra.Group.Int.Defs
import Mathlib.Data.List.Forall2
import Mathlib.Data.List.Nodup
import Mathlib.Data.List.Perm.Basic
import Mathlib.Data.Option.Basic

namespace Nanocl.Lib

/-- JSON values; a number with a fraction or an exponent is not an integer -/
inductive Json where
  | null
  | bool (b : Bool)
  | int (n : Int)
  | float (mantissa exponent : Int)
  | str (s : String)
  | arr (items : List Json)
  | obj (fields : List (String × Json))

namespace Json

/-- `Value::is_null` -/
def isNull : Json → Bool
  | .null => true
  | _ => false

theorem isNull_iff {j : Json} : j.isNull = true ↔ j = .null := by
  cases j <;> simp [isNull]

/-! ## The same value with the fields in another order -/

inductive Same : Json → Json → Prop where
  | null : Same .null .null
  | bool (b : Bool) : Same (.bool b) (.bool b)
  | int (n : Int) : Same (.int n) (.int n)
  | float (m e : Int) : Same (.float m e) (.float m e)
  | str (s : String) : Same (.str s) (.str s)
  | arr {xs ys : List Json} : List.Forall₂ Same xs ys → Same (.arr xs) (.arr ys)
  | obj {xs ys zs : List (String × Json)} : xs.map Prod.fst = ys.map Prod.fst →
      List.Forall₂ Same (xs.map Prod.snd) (ys.map Prod.snd) → ys.Perm zs → Same (.obj xs) (.obj zs)

mutual

theorem Same.refl : (j : Json) → Same j j
  | .null => .null
  | .bool b => .bool b
  | .int n => .int n
  | .float m e => .float m e
  | .str s => .str s
  | .arr xs => .arr (Same.refl_items xs)
  | .obj xs => .obj rfl (Same.refl_fields xs) (.refl _)

theorem Same.refl_items : (xs : List Json) → List.Forall₂ Same xs xs
  | [] => .nil
  | x :: xs => .cons (Same.refl x) (Same.refl_items xs)

theorem Same.refl_fields : (xs : List (String × Json)) → List.Forall₂ Same (xs.map Prod.snd) (xs.map Prod.snd)
  | [] => .nil
  | (_, x) :: xs => .cons (Same.refl x) (Same.refl_fields xs)

end

/-- fields in another order are found by their names -/
theorem lookup_perm {xs ys : List (String × Json)} (h : xs.Perm ys) (hxs : (xs.map Prod.fst).Nodup) (n : String) :
    xs.lookup n = ys.lookup n := by
  induction h with
  | nil => rfl
  | cons x _ ih =>
    rw [List.map_cons, List.nodup_cons] at hxs
    obtain ⟨m, j⟩ := x
    rw [List.lookup_cons, List.lookup_cons, ih hxs.2]
  | swap x y l =>
    rw [List.map_cons, List.map_cons, List.nodup_cons] at hxs
    obtain ⟨m, j⟩ := x
    obtain ⟨k, i⟩ := y
    have hne : k ≠ m := fun h => hxs.1 (by simp [h])
    rw [List.lookup_cons, List.lookup_cons, List.lookup_cons, List.lookup_cons]
    by_cases hm : n = m
    · subst hm
      rw [beq_self_eq_true, beq_eq_false_iff_ne.2 hne.symm]
    · rw [beq_eq_false_iff_ne.2 hm]
  | trans hab _ ih₁ ih₂ => rw [ih₁ hxs, ih₂ ((hab.map Prod.fst).nodup_iff.1 hxs)]

/-- **The same object has the same fields.** -/
theorem Same.lookup {xs ys : List (String × Json)} (h : Same (.obj xs) (.obj ys)) (hxs : (xs.map Prod.fst).Nodup)
    (n : String) : Option.Rel Same (xs.lookup n) (ys.lookup n) := by
  obtain _ | _ | _ | _ | _ | _ | @⟨_, mid, _, hnames, hvalues, hperm⟩ := h
  rw [← lookup_perm hperm (hnames ▸ hxs)]
  clear hperm hxs
  induction xs generalizing mid with
  | nil => cases mid with
    | nil => exact .none
    | cons => cases hnames
  | cons x xs ih => cases mid with
    | nil => cases hnames
    | cons y mid =>
      obtain ⟨hname, hnames⟩ := List.cons.inj hnames
      obtain ⟨hvalue, hvalues⟩ := List.forall₂_cons.1 hvalues
      rw [List.lookup_cons, List.lookup_cons, hname]
      split
      · exact .some hvalue
      · exact ih hnames hvalues

/-- the same object has the same names -/
theorem Same.names {xs ys : List (String × Json)} (h : Same (.obj xs) (.obj ys)) :
    (xs.map Prod.fst).Perm (ys.map Prod.fst) := by
  obtain _ | _ | _ | _ | _ | _ | @⟨_, mid, _, hnames, hvalues, hperm⟩ := h
  exact hnames ▸ hperm.map Prod.fst

/-- one field is taken out of an object, the others are still the same -/
theorem Same.take {n : String} {i : Json} {xs zs : List (String × Json)} (h : Same (.obj ((n, i) :: xs)) (.obj zs))
    (hxs : n ∉ xs.map Prod.fst) : ∃ k, zs.filter (·.1 = n) = [(n, k)] ∧ Same i k ∧
      Same (.obj xs) (.obj (zs.filter (·.1 ≠ n))) := by
  obtain _ | _ | _ | _ | _ | _ | @⟨_, mid, _, hnames, hvalues, hperm⟩ := h
  cases mid with
  | nil => cases hnames
  | cons p mid =>
    obtain ⟨m, k⟩ := p
    obtain ⟨rfl, hmid⟩ := List.cons.inj hnames
    have hother : ∀ q ∈ mid, q.1 ≠ n := fun q hq heq => hxs (hmid ▸ heq ▸ List.mem_map_of_mem hq)
    have hone : ((n, k) :: mid).filter (·.1 = n) = [(n, k)] := by
      rw [List.filter_cons_of_pos (by simp), List.filter_eq_nil_iff.2 fun q hq => by simpa using hother q hq]
    have hrest : ((n, k) :: mid).filter (·.1 ≠ n) = mid := by
      rw [List.filter_cons_of_neg (by simp), List.filter_eq_self.2 fun q hq => by simpa using hother q hq]
    have hpermOne := hperm.filter (·.1 = n)
    have hpermRest := hperm.filter (·.1 ≠ n)
    rw [hone] at hpermOne
    rw [hrest] at hpermRest
    obtain ⟨hvalue, hvalues⟩ := List.forall₂_cons.1 hvalues
    exact ⟨k, List.perm_singleton.1 hpermOne.symm, hvalue, .obj hmid hvalues hpermRest⟩

/-- an object with one field -/
theorem Same.single {n : String} {i j : Json} (h : Same (.obj [(n, i)]) j) : ∃ k, j = .obj [(n, k)] ∧ Same i k := by
  obtain _ | _ | _ | _ | _ | _ | @⟨_, mid, zs, hnames, hvalues, hperm⟩ := h
  cases mid with
  | nil => cases hnames
  | cons p mid =>
    obtain ⟨m, k⟩ := p
    obtain ⟨rfl, hmid⟩ := List.cons.inj hnames
    obtain rfl : mid = [] := by simpa using hmid.symm
    obtain rfl := List.perm_singleton.1 hperm.symm
    exact ⟨k, rfl, (List.forall₂_cons.1 hvalues).1⟩

end Json

open Json

/-! ## Codecs -/

/-- a format: what is written is read, in whatever order its fields come, and nothing is written as `null` -/
structure Codec (α : Type) where
  encode : α → Json
  decode : Json → Option α
  decode_encode : ∀ a j, Same (encode a) j → decode j = some a
  encode_ne_null : ∀ a, encode a ≠ .null

namespace Codec

variable {α β : Type}

theorem decode_encode_self (c : Codec α) (a : α) : c.decode (c.encode a) = some a :=
  c.decode_encode a _ (Same.refl _)

def text : Codec String where
  encode := .str
  decode
    | .str s => some s
    | _ => none
  decode_encode := by
    rintro s _ ⟨⟩
    rfl
  encode_ne_null _ h := by cases h

def bool : Codec Bool where
  encode := .bool
  decode
    | .bool b => some b
    | _ => none
  decode_encode := by
    rintro b _ ⟨⟩
    rfl
  encode_ne_null _ h := by cases h

def u16 : Codec UInt16 where
  encode n := .int n.toNat
  decode
    | .int n => if 0 ≤ n ∧ n < 2 ^ 16 then some (UInt16.ofNat n.toNat) else none
    | _ => none
  decode_encode := by
    rintro n _ ⟨⟩
    have := n.toNat_lt
    simp only [Int.toNat_natCast, UInt16.ofNat_toNat]
    exact if_pos (by omega)
  encode_ne_null _ h := by cases h

def u64 : Codec UInt64 where
  encode n := .int n.toNat
  decode
    | .int n => if 0 ≤ n ∧ n < 2 ^ 64 then some (UInt64.ofNat n.toNat) else none
    | _ => none
  decode_encode := by
    rintro n _ ⟨⟩
    have := n.toNat_lt
    simp only [Int.toNat_natCast, UInt64.ofNat_toNat]
    exact if_pos (by omega)
  encode_ne_null _ h := by cases h

def i64 : Codec Int64 where
  encode n := .int n.toInt
  decode
    | .int n => if -2 ^ 63 ≤ n ∧ n < 2 ^ 63 then some (Int64.ofInt n) else none
    | _ => none
  decode_encode := by
    rintro n _ ⟨⟩
    have hrange : -2 ^ 63 ≤ n.toInt ∧ n.toInt < 2 ^ 63 := ⟨n.le_toInt, n.toInt_lt⟩
    show (if _ then _ else _) = _
    rw [if_pos hrange, Int64.ofInt_toInt]
  encode_ne_null _ h := by cases h

/-- a list is read item by item -/
def readItems (read : Json → Option α) : Json → Option (List α)
  | .arr js => js.mapM read
  | _ => none

theorem readItems_write {write : α → Json} {read : Json → Option α} :
    ∀ {l : List α}, (∀ a ∈ l, read (write a) = some a) → readItems read (.arr (l.map write)) = some l
  | [], _ => rfl
  | a :: l, h => by
    have hl : (l.map write).mapM read = some l := readItems_write fun b hb => h b (List.mem_cons_of_mem _ hb)
    rw [readItems, List.map_cons, List.mapM_cons, h a List.mem_cons_self, hl]
    rfl

theorem mapM_of_same (c : Codec α) : ∀ (as : List α) (js : List Json),
    List.Forall₂ Same (as.map c.encode) js → js.mapM c.decode = some as
  | [], _, .nil => rfl
  | a :: as, _, .cons h hs => by
    rw [List.mapM_cons, c.decode_encode a _ h, mapM_of_same c as _ hs]
    rfl

def list (c : Codec α) : Codec (List α) where
  encode as := .arr (as.map c.encode)
  decode := readItems c.decode
  decode_encode := by
    rintro as _ ⟨⟩
    exact c.mapM_of_same as _ ‹_›
  encode_ne_null _ h := by cases h

/-- an untagged choice: the first variant that accepts is read -/
def orElse (c : Codec α) (d : Codec β) (h : ∀ b j, Same (d.encode b) j → c.decode j = none) : Codec (α ⊕ β) where
  encode
    | .inl a => c.encode a
    | .inr b => d.encode b
  decode j := ((c.decode j).map .inl).or ((d.decode j).map .inr)
  decode_encode := by
    rintro (a | b) j hj
    · rw [c.decode_encode a j hj]
      rfl
    · rw [h b j hj, d.decode_encode b j hj]
      rfl
  encode_ne_null := by
    rintro (a | b)
    · exact c.encode_ne_null a
    · exact d.encode_ne_null b

/-- the format of a type that is the same as another one -/
def map (c : Codec α) (f : α → β) (of : β → α) (h : ∀ b, f (of b) = b) : Codec β where
  encode b := c.encode (of b)
  decode j := (c.decode j).map f
  decode_encode b j hj := by rw [c.decode_encode _ j hj, Option.map_some, h]
  encode_ne_null b := c.encode_ne_null _

/-- the name of a variant, alone or as the only field of an object with what it holds -/
def variantOf : Json → Option (String × Option Json)
  | .str s => some (s, none)
  | .obj [(s, j)] => some (s, some j)
  | _ => none

/-- nothing is held by the variant -/
def isUnit : Option Json → Bool
  | none => true
  | some .null => true
  | some _ => false

/-- an enumeration of names -/
def variants (name : α → String) (ofName : String → Option α) (h : ∀ a, ofName (name a) = some a) : Codec α where
  encode a := .str (name a)
  decode j := (variantOf j).bind fun v => if isUnit v.2 then ofName v.1 else none
  decode_encode := by
    rintro a _ ⟨⟩
    exact h a
  encode_ne_null _ h := by cases h

/-- the text under the name `tag`, and the value without it: the other fields of an object, or the items after the
first of a list -/
def untag (tag : String) : Json → Option (String × Json)
  | .obj kvs =>
    match kvs.filter (·.1 = tag) with
    | [(_, .str name)] => some (name, .obj (kvs.filter (·.1 ≠ tag)))
    | _ => none
  | .arr (.str name :: js) => some (name, .arr js)
  | _ => none

/-- an internally tagged choice: one of the fields has the name of the variant, and the others are what it holds -/
def tagged (tag : String) (name : α → String) (content : α → List (String × Json)) (read : String → Json → Option α)
    (htag : ∀ a, tag ∉ (content a).map Prod.fst)
    (hread : ∀ a j, Same (.obj (content a)) j → read (name a) j = some a) : Codec α where
  encode a := .obj ((tag, .str (name a)) :: content a)
  decode j := (untag tag j).bind fun v => read v.1 v.2
  decode_encode := by
    intro a j hj
    cases j with
    | obj kvs =>
      obtain ⟨k, hone, hname, hrest⟩ := hj.take (htag a)
      cases hname
      simp only [untag, hone, Option.bind_some]
      exact hread a _ hrest
    | _ => cases hj
  encode_ne_null _ h := by cases h

end Codec

/-! ## Fields -/

/-- a field of a structure: what is written for it, if anything, and what is read if it is there or not -/
structure Field (α : Type) where
  name : String
  write : α → Option Json
  read : Option Json → Option α
  read_write : ∀ a o, Option.Rel Same (write a) o → read o = some a

namespace Field

variable {α : Type}

def required (name : String) (c : Codec α) : Field α where
  name
  write a := some (c.encode a)
  read o := o.bind c.decode
  read_write := by
    rintro a _ ⟨h⟩
    exact c.decode_encode a _ h

@[simp] theorem required_name (name : String) (c : Codec α) : (required name c).name = name := rfl

/-- what is read of a field that may be missing or `null` -/
def readOption (read : Json → Option α) : Option Json → Option (Option α)
  | none => some none
  | some .null => some none
  | some j => (read j).map some

def writeOption (write : α → Json) (o : Option α) : Json := (o.map write).getD .null

theorem readOption_of_ne_null {read : Json → Option α} {j : Json} (h : j ≠ .null) :
    readOption read (some j) = (read j).map some := by
  unfold readOption
  split
  · cases ‹_ = none›
  · exact absurd (Option.some.inj ‹_›) h
  · cases ‹some j = _›
    rfl

/-- nothing but `None` is written as `null` -/
theorem readOption_write {write : α → Json} {read : Json → Option α} {o : Option α}
    (h : ∀ a, o = some a → write a ≠ .null ∧ read (write a) = some a) :
    readOption read (some (writeOption write o)) = some o := by
  cases o with
  | none => rfl
  | some a =>
    obtain ⟨hne, hread⟩ := h a rfl
    change readOption read (some (write a)) = _
    rw [readOption_of_ne_null hne, hread]
    rfl

theorem readOption_some (c : Codec α) (a : α) {j : Json} (h : Same (c.encode a) j) :
    readOption c.decode (some j) = some (some a) := by
  have hj : j ≠ .null := by
    rintro rfl
    generalize hnull : c.encode a = n at h
    cases h
    exact c.encode_ne_null a hnull
  rw [readOption_of_ne_null hj, c.decode_encode a _ h]
  rfl

/-- a field that is not written if it is `None` -/
def skipped (name : String) (c : Codec α) : Field (Option α) where
  name
  write o := o.map c.encode
  read := readOption c.decode
  read_write := by
    rintro (_ | a) _ h
    · cases h
      rfl
    · cases h
      exact readOption_some c a ‹_›

/-- a field that is written as `null` if it is `None` -/
def nullable (name : String) (c : Codec α) : Field (Option α) where
  name
  write o := some (writeOption c.encode o)
  read := readOption c.decode
  read_write := by
    rintro (_ | a) _ ⟨h⟩
    · cases h
      rfl
    · exact readOption_some c a h

@[simp] theorem skipped_name (name : String) (c : Codec α) : (skipped name c).name = name := rfl

@[simp] theorem nullable_name (name : String) (c : Codec α) : (nullable name c).name = name := rfl

/-- the field with what is written for it -/
def entry (f : Field α) (a : α) : String × Option Json := (f.name, f.write a)

/-- what is read of the field -/
def get (f : Field α) (fields : String → Option Json) : Option α := f.read (fields f.name)

end Field

/-! ## Fields of an object

A structure is also a list of fields. This is for one of which a field is not read as it was written. -/

section

variable {α : Type}

/-- the fields that are written -/
def present (fields : List (String × Option Json)) : List (String × Json) :=
  fields.filterMap fun f => f.2.map fun j => (f.1, j)

theorem present_names_sublist (fields : List (String × Option Json)) :
    ((present fields).map Prod.fst).Sublist (fields.map Prod.fst) := by
  induction fields with
  | nil => exact .slnil
  | cons f fields ih =>
    obtain ⟨n, _ | j⟩ := f
    · exact ih.cons n
    · exact ih.cons_cons n

theorem lookup_present {fields : List (String × Option Json)} (h : (fields.map Prod.fst).Nodup) {n : String}
    {o : Option Json} (hmem : (n, o) ∈ fields) : (present fields).lookup n = o := by
  induction fields with
  | nil => cases hmem
  | cons f fields ih =>
    obtain ⟨hn, hnodup⟩ := List.nodup_cons.1 h
    cases hmem with
    | head =>
      cases o with
      | none =>
        refine List.lookup_eq_none_iff.2 fun p hp => bne_iff_ne.2 fun heq => hn ?_
        exact heq ▸ (present_names_sublist fields).subset (List.mem_map_of_mem hp)
      | some j => exact List.lookup_cons_self
    | tail _ hmem =>
      have hne : n ≠ f.1 := fun heq => hn (heq ▸ List.mem_map_of_mem hmem)
      obtain ⟨m, _ | j⟩ := f
      · exact ih hnodup hmem
      · refine Eq.trans ?_ (ih hnodup hmem)
        show List.lookup n ((m, j) :: present fields) = _
        rw [List.lookup_cons, beq_eq_false_iff_ne.2 hne]

/-- a structure is read from an object that has no other field and none twice, or from a list of all its fields -/
def readStruct (names : List String) (read : (String → Option Json) → Option α) : Json → Option α
  | .obj kvs =>
    if (kvs.map Prod.fst).Nodup ∧ ∀ n ∈ kvs.map Prod.fst, n ∈ names then read (kvs.lookup ·) else none
  | .arr js => if js.length = names.length then read ((names.zip js).lookup ·) else none
  | _ => none

theorem readStruct_obj_present (read : (String → Option Json) → Option α) {fields : List (String × Option Json)}
    (h : (fields.map Prod.fst).Nodup) :
    readStruct (fields.map Prod.fst) read (.obj (present fields)) = read ((present fields).lookup ·) :=
  if_pos ⟨h.sublist (present_names_sublist fields), fun _ hn => (present_names_sublist fields).subset hn⟩

/-- **A structure that is written is read** from its fields, each as it was written. -/
theorem readStruct_present (read : (String → Option Json) → Option α) {fields : List (String × Option Json)}
    (h : (fields.map Prod.fst).Nodup) {j : Json} (hj : Same (.obj (present fields)) j) :
    ∃ get, readStruct (fields.map Prod.fst) read j = read get ∧ ∀ f ∈ fields, Option.Rel Same f.2 (get f.1) := by
  cases j with
  | obj kvs =>
    have hsub := present_names_sublist fields
    have hall : (kvs.map Prod.fst).Nodup ∧ ∀ n ∈ kvs.map Prod.fst, n ∈ fields.map Prod.fst :=
      ⟨hj.names.nodup_iff.1 (h.sublist hsub), fun n hn => hsub.subset (hj.names.mem_iff.2 hn)⟩
    refine ⟨(kvs.lookup ·), if_pos hall, fun f hf => ?_⟩
    have hfield := hj.lookup (h.sublist hsub) f.1
    rwa [lookup_present h hf] at hfield
  | _ => cases hj

/-- a field that was written is read -/
theorem Field.get_of_entry (f : Field α) (a : α) {get : String → Option Json}
    (h : Option.Rel Same (f.entry a).2 (get (f.entry a).1)) : f.get get = some a := f.read_write a _ h

end

/-! ## Structures -/

/-- the format of a structure: its fields under their names, from an object or in the order of a list -/
structure Record (α : Type) where
  names : List String
  write : α → List (String × Json)
  read : List (String × Json) → Option α
  readSeq : List Json → Option α
  write_names : ∀ a, ((write a).map Prod.fst).Sublist names
  read_write : ∀ a kvs, (∀ n ∈ names, Option.Rel Same ((write a).lookup n) (kvs.lookup n)) → read kvs = some a

namespace Record

variable {α β : Type}

def nil : Record Unit where
  names := []
  write _ := []
  read _ := some ()
  readSeq
    | [] => some ()
    | _ => none
  write_names _ := .slnil
  read_write _ _ _ := rfl

@[simp] theorem nil_names : nil.names = [] := rfl

theorem lookup_eq_none {n : String} {kvs : List (String × Json)} (h : n ∉ kvs.map Prod.fst) : kvs.lookup n = none := by
  rw [List.lookup_eq_none_iff]
  intro p hp
  exact bne_iff_ne.2 fun heq => h (List.mem_map.2 ⟨p, hp, heq.symm⟩)

def cons (f : Field α) (r : Record β) (h : f.name ∉ r.names := by simp) : Record (α × β) where
  names := f.name :: r.names
  write p := ((f.write p.1).map fun j => (f.name, j)).toList ++ r.write p.2
  read kvs := do some (← f.read (kvs.lookup f.name), ← r.read kvs)
  readSeq
    | j :: js => do some (← f.read (some j), ← r.readSeq js)
    | [] => none
  write_names p := by
    cases f.write p.1 with
    | none => exact (r.write_names p.2).cons _
    | some j => exact (r.write_names p.2).cons_cons _
  read_write p kvs hkvs := by
    have hown : (((f.write p.1).map fun j => (f.name, j)).toList ++ r.write p.2).lookup f.name = f.write p.1 := by
      cases f.write p.1 with
      | none => exact lookup_eq_none fun hmem => h ((r.write_names p.2).subset hmem)
      | some j => simp
    have hrest : ∀ n ∈ r.names, (((f.write p.1).map fun j => (f.name, j)).toList ++ r.write p.2).lookup n =
        (r.write p.2).lookup n := by
      intro n hn
      have hne : n ≠ f.name := fun heq => h (heq ▸ hn)
      cases f.write p.1 with
      | none => rfl
      | some j => rw [Option.map_some, Option.toList_some, List.singleton_append, List.lookup_cons, beq_eq_false_iff_ne.2 hne]
    have hf := f.read_write p.1 (kvs.lookup f.name) (hown ▸ hkvs f.name List.mem_cons_self)
    have hr := r.read_write p.2 kvs fun n hn => hrest n hn ▸ hkvs n (List.mem_cons_of_mem _ hn)
    rw [hf, hr]
    rfl

def map (r : Record α) (f : α → β) (of : β → α) (h : ∀ b, f (of b) = b) : Record β where
  names := r.names
  write b := r.write (of b)
  read kvs := (r.read kvs).map f
  readSeq js := (r.readSeq js).map f
  write_names b := r.write_names _
  read_write b kvs hkvs := by rw [r.read_write _ kvs hkvs, Option.map_some, h]

/-- what is written under a name -/
theorem lookup_cons (f : Field α) (r : Record β) (h : f.name ∉ r.names) (p : α × β) (n : String) :
    ((cons f r h).write p).lookup n = if n = f.name then f.write p.1 else (r.write p.2).lookup n := by
  change (((f.write p.1).map fun j => (f.name, j)).toList ++ r.write p.2).lookup n = _
  split_ifs with hn
  · subst hn
    cases f.write p.1 with
    | none => exact lookup_eq_none fun hmem => h ((r.write_names p.2).subset hmem)
    | some j => simp
  · cases f.write p.1 with
    | none => rfl
    | some j => rw [Option.map_some, Option.toList_some, List.singleton_append, List.lookup_cons, beq_eq_false_iff_ne.2 hn]

@[simp] theorem cons_names (f : Field α) (r : Record β) (h) : (cons f r h).names = f.name :: r.names := rfl

theorem lookup_map (r : Record α) (f : α → β) (of : β → α) (h : ∀ b, f (of b) = b) (b : β) (n : String) :
    ((r.map f of h).write b).lookup n = (r.write (of b)).lookup n := rfl

@[simp] theorem map_names (r : Record α) (f : α → β) (of : β → α) (h) : (r.map f of h).names = r.names := rfl

/-- **The format of a structure**, which refuses fields that it does not have. -/
def codec (r : Record α) (hnames : r.names.Nodup := by simp) : Codec α where
  encode a := .obj (r.write a)
  decode
    | .obj kvs => if (kvs.map Prod.fst).Nodup ∧ ∀ n ∈ kvs.map Prod.fst, n ∈ r.names then r.read kvs else none
    | .arr js => r.readSeq js
    | _ => none
  decode_encode a j hj := by
    cases j with
    | obj kvs =>
      have hnodup := hnames.sublist (r.write_names a)
      have hall : (kvs.map Prod.fst).Nodup ∧ ∀ n ∈ kvs.map Prod.fst, n ∈ r.names :=
        ⟨hj.names.nodup_iff.1 hnodup, fun n hn => (r.write_names a).subset (hj.names.mem_iff.2 hn)⟩
      show (if _ then _ else _) = _
      rw [if_pos hall]
      exact r.read_write a kvs fun n _ => hj.lookup hnodup n
    | _ => cases hj
  encode_ne_null _ h := by cases h

/-! ### Refusals -/

/-- the structure is not read without this field -/
def Needs (r : Record α) (n : String) : Prop := ∀ kvs, kvs.lookup n = none → r.read kvs = none

theorem needs_required (c : Codec α) (n : String) (r : Record β) (h) : (cons (.required n c) r h).Needs n := by
  intro kvs hkvs
  simp [cons, Field.required, hkvs]

theorem Needs.cons {r : Record β} {n : String} (hr : r.Needs n) (f : Field α) (h) : (cons f r h).Needs n := by
  intro kvs hkvs
  simp [Record.cons, hr kvs hkvs]

theorem Needs.map {r : Record α} {n : String} (hr : r.Needs n) (f : α → β) (of : β → α) (h) :
    (r.map f of h).Needs n := by
  intro kvs hkvs
  simp [Record.map, hr kvs hkvs]

/-- **A structure is not read as one that needs a field it lacks.** -/
theorem refuses_of_needs {r : Record α} {s : Record β} {n : String} (hr : r.Needs n) (hs : n ∉ s.names) (hrn) (hsn) (b : β)
    (j : Json) (hj : Same ((s.codec hsn).encode b) j) : (r.codec hrn).decode j = none := by
  cases j with
  | obj kvs =>
    have hmiss : kvs.lookup n = none :=
      lookup_eq_none fun hmem => hs ((s.write_names b).subset (hj.names.mem_iff.2 hmem))
    show (if _ then _ else _) = _
    rw [hr kvs hmiss, ite_self]
  | _ => cases hj

end Record

end Nanocl.Lib
