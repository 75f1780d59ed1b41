/-
How a filter reaches the daemon (`nanocl_stubs/src/generic.rs`, `utils/query_string.rs`). A client writes it as JSON into
the query of its request, and the daemon reads it back before it compiles it. The conditions of a where clause are
flattened: they stand beside its field `or`, each under the name of its column.

- `filter_arrives_iff`: a filter is read as it was sent exactly if none of its conditions is about a column `or`.
- `readFilter_or`: with one about such a column the request is refused.
-/
import Nanocl.Store.Listing

namespace Nanocl.Transport

open Nanocl.Lib Nanocl.Lib.Codec Nanocl.Lib.Field

/-! ## Clauses -/

/-- `Serialize for GenericClause`: a variant is an object with one field, or its name where it holds nothing -/
def writeClause : GenericClause → Json
  | .eq v => .obj [("eq", text.encode v)]
  | .ne v => .obj [("ne", text.encode v)]
  | .gt v => .obj [("gt", text.encode v)]
  | .lt v => .obj [("lt", text.encode v)]
  | .ge v => .obj [("ge", text.encode v)]
  | .le v => .obj [("le", text.encode v)]
  | .like v => .obj [("like", text.encode v)]
  | .notLike v => .obj [("not-like", text.encode v)]
  | .isIn items => .obj [("in", text.list.encode items)]
  | .notIn items => .obj [("not-in", text.list.encode items)]
  | .isNull => .str "is-null"
  | .isNotNull => .str "is-not-null"
  | .contains v => .obj [("contains", v)]
  | .hasKey key => .obj [("has-key", text.encode key)]

/-- the variant of a name, with what it holds -/
def readVariant (name : String) (o : Option Json) : Option GenericClause :=
  match name with
  | "eq" => (o.bind text.decode).map .eq
  | "ne" => (o.bind text.decode).map .ne
  | "gt" => (o.bind text.decode).map .gt
  | "lt" => (o.bind text.decode).map .lt
  | "ge" => (o.bind text.decode).map .ge
  | "le" => (o.bind text.decode).map .le
  | "like" => (o.bind text.decode).map .like
  | "not-like" => (o.bind text.decode).map .notLike
  | "in" => (o.bind text.list.decode).map .isIn
  | "not-in" => (o.bind text.list.decode).map .notIn
  | "is-null" => if isUnit o then some .isNull else none
  | "is-not-null" => if isUnit o then some .isNotNull else none
  | "contains" => o.map .contains
  | "has-key" => (o.bind text.decode).map .hasKey
  | _ => none

/-- `Deserialize for GenericClause` -/
def readClause (j : Json) : Option GenericClause := (variantOf j).bind fun v => readVariant v.1 v.2

theorem readClause_write (clause : GenericClause) : readClause (writeClause clause) = some clause := by
  cases clause with
  | isIn items => exact congrArg (Option.map GenericClause.isIn) (text.list.decode_encode_self items)
  | notIn items => exact congrArg (Option.map GenericClause.notIn) (text.list.decode_encode_self items)
  | _ => rfl

/-! ## Where clauses -/

def writeConditions (c : Conditions) : List (String × Json) := c.map fun p => (p.1, writeClause p.2)

/-- `Deserialize for HashMap`: the last one of a key counts -/
def readConditions (fields : List (String × Json)) : Option Conditions :=
  fields.foldlM (fun c f => (readClause f.2).map (c.insert f.1)) []

def readGroup : Json → Option Conditions
  | .obj fields => readConditions fields
  | _ => none

/-- a field of a structure: it may be missing, and is refused if it is there twice -/
def readField {α : Type} (name : String) (read : Json → Option α) (fields : List (String × Json)) : Option (Option α) :=
  match fields.filter (·.1 = name) with
  | [] => some none
  | [(_, j)] => readOption read (some j)
  | _ => none

def writeGroups (groups : List Conditions) : Json := .arr (groups.map fun g => .obj (writeConditions g))

/-- the fields of a where clause: the conditions are flattened -/
def whereFields (w : GenericWhere) : List (String × Json) :=
  writeConditions w.conditions ++ [("or", writeOption writeGroups w.or)]

/-- `Serialize for GenericWhere` -/
def writeWhere (w : GenericWhere) : Json := .obj (whereFields w)

/-- `Deserialize for GenericWhere`: what is not the field `or` is a condition -/
def readWhere : Json → Option GenericWhere
  | .obj fields => do
    let or ← readField "or" (readItems readGroup) fields
    let conditions ← readConditions (fields.filter (·.1 ≠ "or"))
    return ⟨conditions, or⟩
  | _ => none

/-! ## Filters -/

/-- `Serialize for usize` -/
def writeNumber (n : ℕ) : Json := u64.encode (UInt64.ofNat n)

/-- `Deserialize for usize` -/
def readNumber (j : Json) : Option ℕ := (u64.decode j).map UInt64.toNat

/-- `Serialize for GenericFilter` -/
def writeFilter (f : GenericFilter) : Json :=
  .obj [("where", writeOption writeWhere f.clause), ("limit", writeOption writeNumber f.limit),
    ("offset", writeOption writeNumber f.offset), ("order_by", writeOption text.list.encode f.orderBy)]

/-- `Deserialize for GenericFilter`: other fields are ignored, and a list has the fields in their order -/
def readFilter : Json → Option GenericFilter
  | .obj fields => do
    let clause ← readField "where" readWhere fields
    let limit ← readField "limit" readNumber fields
    let offset ← readField "offset" readNumber fields
    let orderBy ← readField "order_by" text.list.decode fields
    return ⟨clause, limit, offset, orderBy⟩
  | .arr [clause, limit, offset, orderBy] => do
    let clause ← readOption readWhere (some clause)
    let limit ← readOption readNumber (some limit)
    let offset ← readOption readNumber (some offset)
    let orderBy ← readOption text.list.decode (some orderBy)
    return ⟨clause, limit, offset, orderBy⟩
  | _ => none

/-- the filter is one that the program can have: its maps have each key once, and its numbers are of 64 bits -/
structure Built (f : GenericFilter) : Prop where
  conditions : ∀ w, f.clause = some w → (w.conditions.map Prod.fst).Nodup
  groups : ∀ w, f.clause = some w → ∀ groups, w.or = some groups → ∀ g ∈ groups, (g.map Prod.fst).Nodup
  limit : ∀ n, f.limit = some n → n < 2 ^ 64
  offset : ∀ n, f.offset = some n → n < 2 ^ 64

/-! ## Round trips -/

theorem foldlM_conditions {c : Conditions} (acc : Conditions) (h : ((acc ++ c).map Prod.fst).Nodup) :
    (writeConditions c).foldlM (fun c f => (readClause f.2).map (c.insert f.1)) acc = some (acc ++ c) := by
  induction c generalizing acc with
  | nil => simp [writeConditions]
  | cons p c ih =>
    obtain ⟨key, clause⟩ := p
    have hsplit : acc ++ (key, clause) :: c = (acc ++ [(key, clause)]) ++ c := by simp
    have hnew : ¬ acc.any (fun p => p.1 = key) = true := by
      intro hany
      obtain ⟨q, hq, hqk⟩ := List.any_eq_true.1 hany
      rw [List.map_append, List.map_cons] at h
      have hdisjoint := (List.nodup_append.1 h).2.2 q.1 (List.mem_map_of_mem hq) key List.mem_cons_self
      exact hdisjoint (of_decide_eq_true hqk)
    have hinsert : acc.insert key clause = acc ++ [(key, clause)] := if_neg hnew
    rw [hsplit] at h ⊢
    rw [← ih (acc ++ [(key, clause)]) h, ← hinsert]
    change (writeConditions ((key, clause) :: c)).foldlM _ acc = _
    rw [writeConditions, List.map_cons, List.foldlM_cons, readClause_write]
    rfl

theorem readConditions_write {c : Conditions} (h : (c.map Prod.fst).Nodup) :
    readConditions (writeConditions c) = some c := foldlM_conditions [] h

theorem names_writeConditions (c : Conditions) : (writeConditions c).map Prod.fst = c.map Prod.fst := by
  unfold writeConditions
  rw [List.map_map]
  rfl

theorem readNumber_write {n : ℕ} (h : n < 2 ^ 64) : readNumber (writeNumber n) = some n := by
  rw [readNumber, writeNumber, u64.decode_encode_self, Option.map_some, UInt64.toNat_ofNat_of_lt' h]

/-- a field that stands once is read -/
theorem readField_of_filter {α : Type} {name : String} {read : Json → Option α} {fields : List (String × Json)} {j : Json}
    (h : fields.filter (·.1 = name) = [(name, j)]) : readField name read fields = readOption read (some j) := by
  unfold readField
  rw [h]

theorem readGroups_write {groups : List Conditions} (h : ∀ g ∈ groups, (g.map Prod.fst).Nodup) :
    readItems readGroup (writeGroups groups) = some groups :=
  readItems_write fun g hg => readConditions_write (h g hg)

/-- the fields under the name `or` -/
theorem filter_or (w : GenericWhere) : (whereFields w).filter (·.1 = "or") =
    (writeConditions w.conditions).filter (·.1 = "or") ++ [("or", writeOption writeGroups w.or)] := by
  rw [whereFields, List.filter_append]
  rfl

theorem readWhere_write {w : GenericWhere} (hc : (w.conditions.map Prod.fst).Nodup)
    (hg : ∀ groups, w.or = some groups → ∀ g ∈ groups, (g.map Prod.fst).Nodup)
    (hor : "or" ∉ w.conditions.map Prod.fst) : readWhere (writeWhere w) = some w := by
  have hnone : ∀ f ∈ writeConditions w.conditions, f.1 ≠ "or" := by
    intro f hf heq
    apply hor
    rw [← names_writeConditions, ← heq]
    exact List.mem_map_of_mem hf
  have hfield : readField "or" (readItems readGroup) (whereFields w) = some w.or := by
    rw [readField_of_filter (j := writeOption writeGroups w.or)]
    · apply readOption_write
      intro groups hgroups
      exact ⟨(fun h => by cases h), readGroups_write (hg groups hgroups)⟩
    · rw [filter_or, List.filter_eq_nil_iff.2 fun f hf => by simpa using hnone f hf]
      rfl
  have hrest : (whereFields w).filter (·.1 ≠ "or") = writeConditions w.conditions := by
    rw [whereFields, List.filter_append, List.filter_eq_self.2 fun f hf => by simpa using hnone f hf]
    simp
  rw [writeWhere, readWhere, hfield, hrest, readConditions_write hc]
  rfl

/-- a condition on a column `or` is taken for the groups, and they for a second one -/
theorem readWhere_or {w : GenericWhere} (hor : "or" ∈ w.conditions.map Prod.fst) : readWhere (writeWhere w) = none := by
  obtain ⟨p, hp, hkey⟩ := List.mem_map.1 hor
  have hmem : ("or", writeClause p.2) ∈ (writeConditions w.conditions).filter (·.1 = "or") := by
    refine List.mem_filter.2 ⟨?_, by simp⟩
    rw [← hkey]
    exact List.mem_map_of_mem hp
  have hfield : readField "or" (readItems readGroup) (whereFields w) = none := by
    unfold readField
    rw [filter_or]
    cases hl : (writeConditions w.conditions).filter (·.1 = "or") with
    | nil =>
      rw [hl] at hmem
      cases hmem
    | cons f l =>
      cases l with
      | nil => rfl
      | cons g l => rfl
  rw [writeWhere, readWhere, hfield]
  rfl

/-- the fields of a filter have different names -/
theorem readFilter_write (f : GenericFilter) : readFilter (writeFilter f) = do
    let clause ← readOption readWhere (some (writeOption writeWhere f.clause))
    let limit ← readOption readNumber (some (writeOption writeNumber f.limit))
    let offset ← readOption readNumber (some (writeOption writeNumber f.offset))
    let orderBy ← readOption text.list.decode (some (writeOption text.list.encode f.orderBy))
    return ⟨clause, limit, offset, orderBy⟩ := rfl

theorem writeWhere_ne_null (w : GenericWhere) : writeWhere w ≠ .null := by
  intro h
  cases h

/-- a request with a condition on a column `or` is refused -/
theorem readFilter_or {f : GenericFilter} {w : GenericWhere} (hw : f.clause = some w)
    (hor : "or" ∈ w.conditions.map Prod.fst) : readFilter (writeFilter f) = none := by
  have hclause : readOption readWhere (some (writeOption writeWhere f.clause)) = none := by
    rw [hw]
    change readOption readWhere (some (writeWhere w)) = none
    rw [readOption_of_ne_null (writeWhere_ne_null w), readWhere_or hor]
    rfl
  rw [readFilter_write, hclause]
  rfl

/-- a filter is read as it was written exactly if none of its conditions is about a column `or` -/
theorem readFilter_iff (f : GenericFilter) (hf : Built f) :
    readFilter (writeFilter f) = some f ↔ ∀ w, f.clause = some w → "or" ∉ w.conditions.map Prod.fst := by
  constructor
  · intro h w hw hor
    rw [readFilter_or hw hor] at h
    cases h
  · intro hor
    have hclause : readOption readWhere (some (writeOption writeWhere f.clause)) = some f.clause := by
      apply readOption_write
      intro w hw
      exact ⟨writeWhere_ne_null w, readWhere_write (hf.conditions w hw) (hf.groups w hw) (hor w hw)⟩
    have hlimit : readOption readNumber (some (writeOption writeNumber f.limit)) = some f.limit := by
      apply readOption_write
      intro n hn
      exact ⟨(fun h => by cases h), readNumber_write (hf.limit n hn)⟩
    have hoffset : readOption readNumber (some (writeOption writeNumber f.offset)) = some f.offset := by
      apply readOption_write
      intro n hn
      exact ⟨(fun h => by cases h), readNumber_write (hf.offset n hn)⟩
    have horder : readOption text.list.decode (some (writeOption text.list.encode f.orderBy)) = some f.orderBy := by
      apply readOption_write
      intro l _
      exact ⟨text.list.encode_ne_null l, text.list.decode_encode_self l⟩
    rw [readFilter_write, hclause, hlimit, hoffset, horder]
    rfl

/-! ## Queries -/

/-- the query of a request; the text of its filter is the JSON value it stands for -/
structure GenericListQueryNsp where
  filter : Option Json
  nsp : Option String

/-- `TryFrom<GenericFilterNsp> for GenericListQueryNsp` -/
def toQuery (q : Listing.GenericFilterNsp) : GenericListQueryNsp := ⟨q.filter.map writeFilter, q.nsp⟩

/-- `parse_qs_nsp_filter`; `none` is a bad request -/
def parseQsNspFilter (q : GenericListQueryNsp) : Option Listing.GenericFilterNsp :=
  match q.filter with
  | none => some ⟨none, q.nsp⟩
  | some j => (readFilter j).map fun f => ⟨some f, q.nsp⟩

/-- **A filter arrives as it was sent** exactly if none of its conditions is about a column `or`. -/
theorem filter_arrives_iff (q : Listing.GenericFilterNsp) (hq : ∀ f, q.filter = some f → Built f) :
    parseQsNspFilter (toQuery q) = some q ↔
      ∀ f w, q.filter = some f → f.clause = some w → "or" ∉ w.conditions.map Prod.fst := by
  obtain ⟨filter, nsp⟩ := q
  cases filter with
  | none => exact iff_of_true rfl fun f w hf => by cases hf
  | some f =>
    have hparse : parseQsNspFilter (toQuery ⟨some f, nsp⟩) = some ⟨some f, nsp⟩ ↔
        readFilter (writeFilter f) = some f := by
      change (readFilter (writeFilter f)).map _ = _ ↔ _
      cases readFilter (writeFilter f) with
      | none => exact iff_of_false (fun h => by cases h) fun h => by cases h
      | some g => simp [toQuery]
    rw [hparse, readFilter_iff f (hq f rfl)]
    constructor
    · intro h f' w hf' hw
      obtain rfl := Option.some.inj hf'
      exact h w hw
    · intro h w hw
      exact h f w rfl hw

/-- a filter on a column `or`, the others being free -/
def orFilter : Listing.GenericFilterNsp := ⟨some ⟨some ⟨[("or", .eq "web")], none⟩, some 10, none, none⟩, some "global"⟩

theorem or_filter_refused : parseQsNspFilter (toQuery orFilter) ≠ some orFilter := by
  have hbuilt : ∀ f, orFilter.filter = some f → Built f := by
    intro f hf
    obtain rfl := Option.some.inj hf
    refine ⟨fun w hw => ?_, fun w hw groups hgroups => ?_, fun n hn => ?_, fun n hn => ?_⟩
    · obtain rfl := Option.some.inj hw
      exact List.nodup_singleton _
    · obtain rfl := Option.some.inj hw
      cases hgroups
    · obtain rfl := Option.some.inj hn
      decide
    · cases hn
  rw [ne_eq, filter_arrives_iff orFilter hbuilt]
  intro h
  exact h _ _ rfl rfl List.mem_cons_self

end Nanocl.Transport
