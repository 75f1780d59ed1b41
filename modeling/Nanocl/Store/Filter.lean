/-
The filter compiler of the daemon (`bin/nanocld/src/models/mod.rs`): a `GenericFilter` that a client sends, or that
the daemon builds, becomes the where clause, the order, the limit and the offset of a query.

The conditions of a filter are compiled into a chain of `filter` calls, each `or` group into one conjunction that is
attached with `or_filter`. Where a clause does not fit the type of its column the conditions skip it; in an `or` group
the compiler panics. The query runs in a blocking closure, so a panic reaches the caller as an error of the join.

Behaviour of code outside the repository (chrono, uuid, the order and the `LIKE` of the database) is a parameter
(`Externals`).
-/
import Nanocl.Lib.Except
import Nanocl.Lib.Jsonb
import Nanocl.Lib.Query
import Mathlib.Tactic

namespace Nanocl

open Nanocl.Lib

/-! ## Filters -/

inductive GenericClause where
  | eq (v : String)
  | ne (v : String)
  | gt (v : String)
  | lt (v : String)
  | ge (v : String)
  | le (v : String)
  | like (v : String)
  | notLike (v : String)
  | isIn (items : List String)
  | notIn (items : List String)
  | isNull
  | isNotNull
  | contains (v : Json)
  | hasKey (key : String)

/-- a `HashMap<String, GenericClause>`, in the order it is iterated in -/
abbrev Conditions := List (String × GenericClause)

structure GenericWhere where
  conditions : Conditions
  or : Option (List Conditions)

structure GenericFilter where
  clause : Option GenericWhere
  limit : Option ℕ
  offset : Option ℕ
  orderBy : Option (List String)

/-- `GenericFilter::default` -/
def GenericFilter.new : GenericFilter := ⟨none, none, none, none⟩

/-- `HashMap::insert`: the value of a key that is present is replaced -/
def Conditions.insert (c : Conditions) (key : String) (clause : GenericClause) : Conditions :=
  if c.any (fun p => p.1 = key) then c.map fun p => if p.1 = key then (key, clause) else p else c ++ [(key, clause)]

/-- `GenericFilter::where` -/
def GenericFilter.where (f : GenericFilter) (key : String) (clause : GenericClause) : GenericFilter :=
  let w := f.clause.getD ⟨[], none⟩
  { f with clause := some { w with conditions := w.conditions.insert key clause } }

theorem Conditions.mem_insert (c : Conditions) (key : String) (clause : GenericClause) :
    (key, clause) ∈ c.insert key clause := by
  unfold Conditions.insert
  split_ifs with h
  · obtain ⟨p, hp, hk⟩ := List.any_eq_true.1 h
    exact List.mem_map.2 ⟨p, hp, if_pos (of_decide_eq_true hk)⟩
  · simp

/-! ## Columns and values -/

inductive ColumnType where
  | text | json | uuid | timestamptz
deriving DecidableEq, Repr

/-- the value of a column in a row; instants are microseconds since the epoch in UTC -/
inductive Value where
  | null
  | text (s : String)
  | json (j : Json)
  | uuid (u : ℕ)
  | time (t : ℤ)

/-- a row as the compiled predicates see it: the value of each column, by its SQL name -/
abbrev Row := String → Value

/-- `get_columns`: the keys a filter may use, with the type and the SQL name of their columns -/
abbrev Columns := List (String × ColumnType × String)

def Columns.get (c : Columns) (key : String) : Option (ColumnType × String) :=
  (c.find? fun p => p.1 = key).map Prod.snd

/-- what the daemon uses of chrono, of uuid and of the database -/
structure Externals where
  /-- `DateTime::parse_from_str(text, format)` in UTC -/
  parseFromStr : String → String → Option ℤ
  /-- `DateTime::parse_from_rfc3339` in UTC -/
  parseFromRfc3339 : String → Option ℤ
  /-- `NaiveDate::parse_from_str(text, format)`, midnight in UTC -/
  parseNaiveDate : String → String → Option ℤ
  /-- `Uuid::parse_str` -/
  parseUuid : String → Option ℕ
  /-- the order of texts in the database -/
  textLe : String → String → Bool
  /-- `text LIKE pattern` -/
  like : String → String → Bool
  /-- the order of any two values in an ORDER BY clause -/
  valueLe : Value → Value → Bool

/-- an environment without dates and uuids -/
def plainExternals : Externals where
  parseFromStr _ _ := none
  parseFromRfc3339 _ := none
  parseNaiveDate _ _ := none
  parseUuid _ := none
  textLe a b := a ≤ b
  like a b := a = b
  valueLe _ _ := true

/-- a panic of the compiler or an error of the database, by its message: both reach the caller as an error -/
abbrev QueryError := String

section Compile

variable (E : Externals)

/-- the formats `parse_date_string` tries with an offset -/
def dateFormats : List String :=
  ["%Y-%m-%d %H:%M:%S%.f %:z", "%Y-%m-%d %H:%M:%S %:z", "%Y-%m-%d %H:%M:%S%.f", "%Y-%m-%d %H:%M:%S", "%Y-%m-%d"]

/-- `parse_date_string` -/
def parseDateString (s : String) : Except String ℤ :=
  match dateFormats.findSome? (E.parseFromStr s) with
  | some t => .ok t
  | none =>
    match E.parseFromRfc3339 s with
    | some t => .ok t
    | none =>
      match E.parseNaiveDate s "%Y-%m-%d" with
      | some t => .ok t
      | none => .error ("Invalid date format: " ++ s)

/-- `parse_date_string(&val).unwrap()` -/
def unwrapDate (s : String) : Except QueryError ℤ := parseDateString E s

/-! ### One clause on one column

A predicate says when the clause is TRUE; every comparison with NULL is not. `none` is a clause the type of the column
does not support. -/

def onText (p : String → Bool) : Value → Bool
  | .text s => p s
  | _ => false

def onJson (p : Json → Bool) : Value → Bool
  | .json j => p j
  | _ => false

def onUuid (p : ℕ → Bool) : Value → Bool
  | .uuid u => p u
  | _ => false

def onTime (p : ℤ → Bool) : Value → Bool
  | .time t => p t
  | _ => false

def valueIsNull : Value → Bool
  | .null => true
  | _ => false

def stringClause : GenericClause → Option (Value → Bool)
  | .eq v => some (onText fun s => s = v)
  | .ne v => some (onText fun s => s ≠ v)
  | .gt v => some (onText fun s => !E.textLe s v)
  | .lt v => some (onText fun s => !E.textLe v s)
  | .ge v => some (onText fun s => E.textLe v s)
  | .le v => some (onText fun s => E.textLe s v)
  | .like v => some (onText fun s => E.like s v)
  | .notLike v => some (onText fun s => !E.like s v)
  | .isIn items => some (onText fun s => s ∈ items)
  | .notIn items => some (onText fun s => s ∉ items)
  | .isNull => some valueIsNull
  | .isNotNull => some fun c => !valueIsNull c
  | _ => none

def jsonClause : GenericClause → Option (Value → Bool)
  | .isNull => some valueIsNull
  | .isNotNull => some fun c => !valueIsNull c
  | .contains v => some (onJson fun j => j.contains v)
  | .hasKey k => some (onJson fun j => j.hasKey k)
  | _ => none

def uuidClause : GenericClause → Option (Value → Bool)
  | .isNull => some valueIsNull
  | .isNotNull => some fun c => !valueIsNull c
  | .eq v => some (onUuid fun u => u = (E.parseUuid v).getD 0)
  | _ => none

def timestamptzClause : GenericClause → Except QueryError (Option (Value → Bool))
  | .eq v => do let d ← unwrapDate E v; pure (some (onTime fun t => t = d))
  | .ne v => do let d ← unwrapDate E v; pure (some (onTime fun t => t ≠ d))
  | .gt v => do let d ← unwrapDate E v; pure (some (onTime fun t => d < t))
  | .lt v => do let d ← unwrapDate E v; pure (some (onTime fun t => t < d))
  | .ge v => do let d ← unwrapDate E v; pure (some (onTime fun t => d ≤ t))
  | .le v => do let d ← unwrapDate E v; pure (some (onTime fun t => t ≤ d))
  | .isIn items => do let ds ← items.mapM (unwrapDate E); pure (some (onTime fun t => t ∈ ds))
  | .notIn items => do let ds ← items.mapM (unwrapDate E); pure (some (onTime fun t => t ∉ ds))
  | .isNull => pure (some valueIsNull)
  | .isNotNull => pure (some fun c => !valueIsNull c)
  | _ => pure none

/-- `$query.filter`; a clause without a case is ignored -/
def filterBy (query : Where Row) (column : String) : Option (Value → Bool) → Where Row
  | none => query
  | some p => query.filter fun row => p (row column)

/-- `gen_sql_where4uuid` -/
def genSqlWhere4uuid (query : Where Row) (column : String) (value : GenericClause) : Where Row :=
  filterBy query column (uuidClause E value)

/-- `gen_sql_where4json` -/
def genSqlWhere4json (query : Where Row) (column : String) (value : GenericClause) : Where Row :=
  filterBy query column (jsonClause value)

/-- `gen_sql_where4string` -/
def genSqlWhere4string (query : Where Row) (column : String) (value : GenericClause) : Where Row :=
  filterBy query column (stringClause E value)

/-- `gen_sql_where4timestamptz` -/
def genSqlWhere4timestamptz (query : Where Row) (column : String) (value : GenericClause) :
    Except QueryError (Where Row) := do
  return filterBy query column (← timestamptzClause E value)

/-- `$query.and`; a clause without a case panics -/
def andBy (query : Row → Bool) (column : String) : Option (Value → Bool) → Except QueryError (Row → Bool)
  | none => throw "Unsupported clause"
  | some p => pure fun row => query row && p (row column)

/-- `gen_sql_and4uuid` -/
def genSqlAnd4uuid (query : Row → Bool) (column : String) (value : GenericClause) : Except QueryError (Row → Bool) :=
  andBy query column (uuidClause E value)

/-- `gen_sql_and4json` -/
def genSqlAnd4json (query : Row → Bool) (column : String) (value : GenericClause) : Except QueryError (Row → Bool) :=
  andBy query column (jsonClause value)

/-- `gen_sql_and4string` -/
def genSqlAnd4string (query : Row → Bool) (column : String) (value : GenericClause) : Except QueryError (Row → Bool) :=
  andBy query column (stringClause E value)

/-- `gen_sql_and4timestamptz` -/
def genSqlAnd4timestamptz (query : Row → Bool) (column : String) (value : GenericClause) :
    Except QueryError (Row → Bool) := do
  andBy query column (← timestamptzClause E value)

/-- one condition in the first loop of `gen_sql_query`; an unknown key is ignored -/
def genSqlWhere (columns : Columns) (query : Where Row) (condition : String × GenericClause) :
    Except QueryError (Where Row) :=
  match columns.get condition.1 with
  | none => pure query
  | some (.uuid, column) => pure (genSqlWhere4uuid E query column condition.2)
  | some (.json, column) => pure (genSqlWhere4json query column condition.2)
  | some (.text, column) => pure (genSqlWhere4string E query column condition.2)
  | some (.timestamptz, column) => genSqlWhere4timestamptz E query column condition.2

/-- one condition of a group in the second loop -/
def genSqlAnd (columns : Columns) (orCondition : Row → Bool) (condition : String × GenericClause) :
    Except QueryError (Row → Bool) :=
  match columns.get condition.1 with
  | none => pure orCondition
  | some (.uuid, column) => genSqlAnd4uuid E orCondition column condition.2
  | some (.text, column) => genSqlAnd4string E orCondition column condition.2
  | some (.json, column) => genSqlAnd4json orCondition column condition.2
  | some (.timestamptz, column) => genSqlAnd4timestamptz E orCondition column condition.2

/-- the predicate of a clause on a column of the given type -/
def columnClause (type : ColumnType) (clause : GenericClause) : Except QueryError (Option (Value → Bool)) :=
  match type with
  | .uuid => pure (uuidClause E clause)
  | .json => pure (jsonClause clause)
  | .text => pure (stringClause E clause)
  | .timestamptz => timestamptzClause E clause

/-- one `or` group: a conjunction that starts from `1=1` -/
def genSqlOrGroup (columns : Columns) (group : Conditions) : Except QueryError (Row → Bool) :=
  group.foldlM (genSqlAnd E columns) fun _ => true

/-- `gen_sql_query` -/
def genSqlQuery (columns : Columns) (filter : GenericFilter) : Except QueryError (Where Row) := do
  let w := filter.clause.getD ⟨[], none⟩
  let query ← w.conditions.foldlM (genSqlWhere E columns) none
  (w.or.getD []).foldlM (fun query group => do return query.orFilter (← genSqlOrGroup E columns group)) query

/-! ### What a compiled clause accepts -/

theorem genSqlWhere_of_none {columns : Columns} {c : String × GenericClause} (h : columns.get c.1 = none)
    (query : Where Row) : genSqlWhere E columns query c = .ok query := by
  simp only [genSqlWhere, h]
  rfl

/-- the four macros of the conditions differ in the predicates of their type only -/
theorem genSqlWhere_of_some {columns : Columns} {c : String × GenericClause} {type : ColumnType} {column : String}
    (h : columns.get c.1 = some (type, column)) (query : Where Row) :
    genSqlWhere E columns query c = (columnClause E type c.2).map (filterBy query column) := by
  simp only [genSqlWhere, h]
  cases type with
  | timestamptz =>
    change (do return filterBy query column (← timestamptzClause E c.2)) = (timestamptzClause E c.2).map _
    cases timestamptzClause E c.2 <;> rfl
  | text | json | uuid => rfl

theorem genSqlAnd_of_none {columns : Columns} {c : String × GenericClause} (h : columns.get c.1 = none)
    (query : Row → Bool) : genSqlAnd E columns query c = .ok query := by
  simp only [genSqlAnd, h]
  rfl

/-- and so do those of the groups -/
theorem genSqlAnd_of_some {columns : Columns} {c : String × GenericClause} {type : ColumnType} {column : String}
    (h : columns.get c.1 = some (type, column)) (query : Row → Bool) :
    genSqlAnd E columns query c = columnClause E type c.2 >>= andBy query column := by
  simp only [genSqlAnd, h]
  cases type with
  | timestamptz => rfl
  | text | json | uuid => rfl

/-- one condition leaves the query as it is or conjoins a predicate -/
theorem genSqlWhere_cases {columns : Columns} {query query' : Where Row} {c : String × GenericClause}
    (h : genSqlWhere E columns query c = .ok query') : query' = query ∨ ∃ p, query' = query.filter p := by
  cases hc : columns.get c.1 with
  | none =>
    rw [genSqlWhere_of_none E hc] at h
    exact Or.inl (Except.ok.inj h).symm
  | some tc =>
    rw [genSqlWhere_of_some E hc, Except.map_eq_ok_iff] at h
    obtain ⟨clause, -, rfl⟩ := h
    cases clause with
    | none => exact Or.inl rfl
    | some p => exact Or.inr ⟨_, rfl⟩

/-- the compiled conditions imply each supported condition among them -/
theorem sat_conditions {columns : Columns} {conditions : Conditions} {query query' : Where Row}
    (h : conditions.foldlM (genSqlWhere E columns) query = .ok query') {key column : String} {clause : GenericClause}
    {type : ColumnType} {p : Value → Bool} (hmem : (key, clause) ∈ conditions)
    (hcol : columns.get key = some (type, column)) (hp : columnClause E type clause = .ok (some p)) :
    query'.isSome = true ∧ ∀ row, query'.sat row = true → p (row column) = true := by
  obtain ⟨pre, post, rfl⟩ := List.append_of_mem hmem
  rw [List.foldlM_append, Except.bind_eq_ok_iff] at h
  obtain ⟨q, -, h⟩ := h
  rw [List.foldlM_cons, Except.bind_eq_ok_iff] at h
  obtain ⟨q', hq', h⟩ := h
  -- the step of the condition itself conjoins its predicate; the later ones conjoin more
  refine foldlM_inv (fun w => w.isSome = true ∧ ∀ row, w.sat row = true → p (row column) = true) ?_ h ?_
  · rintro w c - w' hw ⟨hsome, hsat⟩
    rcases genSqlWhere_cases E hw with rfl | ⟨f, rfl⟩
    · exact ⟨hsome, hsat⟩
    · refine ⟨Where.isSome_filter w f, fun row hrow => hsat row ?_⟩
      rw [Where.sat_filter, Bool.and_eq_true] at hrow
      exact hrow.1
  · rw [genSqlWhere_of_some E hcol, hp] at hq'
    obtain rfl : q.filter (fun row => p (row column)) = q' := Except.ok.inj hq'
    refine ⟨Where.isSome_filter _ _, fun row hrow => ?_⟩
    rw [Where.sat_filter, Bool.and_eq_true] at hrow
    exact hrow.2

/-- the groups are compiled one after the other and attached with `or_filter` in their order -/
theorem foldlM_orFilter (columns : Columns) (groups : List Conditions) (query : Where Row) :
    groups.foldlM (fun query group => do return query.orFilter (← genSqlOrGroup E columns group)) query =
      (groups.mapM (genSqlOrGroup E columns)).map fun ps => ps.foldl Where.orFilter query := by
  induction groups generalizing query with
  | nil => rfl
  | cons g groups ih =>
    rw [List.foldlM_cons, List.mapM_cons]
    cases genSqlOrGroup E columns g with
    | error e => rfl
    | ok p =>
      refine (ih (query.orFilter p)).trans ?_
      cases groups.mapM (genSqlOrGroup E columns) <;> rfl

/-- a compiled clause: the conjunction of the conditions, then the disjunction with each group -/
theorem genSqlQuery_eq_ok_iff {columns : Columns} {filter : GenericFilter} {query : Where Row} :
    genSqlQuery E columns filter = .ok query ↔ ∃ base ps,
      (filter.clause.getD ⟨[], none⟩).conditions.foldlM (genSqlWhere E columns) none = .ok base ∧
      ((filter.clause.getD ⟨[], none⟩).or.getD []).mapM (genSqlOrGroup E columns) = .ok ps ∧
      query = ps.foldl Where.orFilter base := by
  simp only [genSqlQuery, Except.bind_eq_ok_iff, foldlM_orFilter]
  constructor
  · rintro ⟨base, hbase, h⟩
    cases hps : ((filter.clause.getD ⟨[], none⟩).or.getD []).mapM (genSqlOrGroup E columns) with
    | error e => rw [hps] at h; cases h
    | ok ps =>
      rw [hps] at h
      exact ⟨base, ps, hbase, rfl, (Except.ok.inj h).symm⟩
  · rintro ⟨base, ps, hbase, hps, rfl⟩
    exact ⟨base, hbase, by rw [hps]; rfl⟩

/-! ### Order, limit and offset -/

/-- `char::is_whitespace` -/
def isWhitespace (c : Char) : Bool :=
  c.toNat ∈ [0x20, 0x85, 0xA0, 0x1680, 0x2028, 0x2029, 0x202F, 0x205F, 0x3000] ||
    (0x09 ≤ c.toNat && c.toNat ≤ 0x0D) || (0x2000 ≤ c.toNat && c.toNat ≤ 0x200A)

/-- `str::split_whitespace` -/
def splitWhitespace (s : String) : List String :=
  ((s.toList.splitOnP isWhitespace).filter fun w => !w.isEmpty).map String.ofList

inductive GenericOrder where
  | asc | desc
deriving DecidableEq, Repr

/-- `GenericOrder::from_str(order).unwrap()` -/
def unwrapOrder (s : String) : Except QueryError GenericOrder :=
  match s with
  | "asc" => pure .asc
  | "desc" => pure .desc
  | _ => throw "Invalid order"

/-- `gen_sql_order_by`: each known column replaces the order set before it -/
def genSqlOrderBy (columns : Columns) (orders : List String) : Except QueryError (Option (Row → Row → Bool)) :=
  orders.foldlM (fun query o => do
    let words := splitWhitespace o
    let order ← unwrapOrder (words[1]?.getD "")
    match columns.get (words.head?.getD "") with
    | none => pure query
    | some (_, column) =>
      match order with
      | .asc => pure (some fun a b => E.valueLe (a column) (b column))
      | .desc => pure (some fun a b => E.valueLe (b column) (a column))) none

/-- the cast `as i64` of a `usize` -/
def asI64 (n : ℕ) : ℤ := Int.bmod n (2 ^ 64)

theorem asI64_of_lt {n : ℕ} (h : n < 2 ^ 63) : asI64 n = n := by
  unfold asI64
  rw [Int.bmod_def]
  omega

/-- `gen_sql_multiple`; the database refuses a negative limit or offset -/
def genSqlMultiple (filter : GenericFilter) : Except QueryError (ℕ × ℕ) := do
  let limit := asI64 (filter.limit.getD 100)
  let offset := asI64 (filter.offset.getD 0)
  if limit < 0 then throw "LIMIT must not be negative"
  if offset < 0 then throw "OFFSET must not be negative"
  return (limit.toNat, offset.toNat)

/-- without a limit and an offset a read has 100 rows at most -/
@[simp] theorem genSqlMultiple_default (clause : Option GenericWhere) (orderBy : Option (List String)) :
    genSqlMultiple ⟨clause, none, none, orderBy⟩ = .ok (100, 0) := by
  simp [genSqlMultiple, asI64_of_lt, pure, Except.pure]

/-- the order of a read: the `order_by` of the filter, else the order of the repository -/
def readOrder {α : Type} (columns : Columns) (toRow : α → Row) (defaultLe : α → α → Bool) :
    Option (List String) → Except QueryError (α → α → Bool)
  | none => return defaultLe
  | some orders => do
    match ← genSqlOrderBy E columns orders with
    -- no order at all: the rows come as the table has them
    | none => return fun _ _ => true
    | some le => return fun a b => le (toRow a) (toRow b)

/-- `gen_read_query` of a repository with `is_multiple`; `defaultLe` is the order used without an `order_by` -/
def genReadQuery {α : Type} (columns : Columns) (toRow : α → Row) (defaultLe : α → α → Bool) (filter : GenericFilter) :
    Except QueryError (Query α) := do
  let clause ← genSqlQuery E columns filter
  let le ← readOrder E columns toRow defaultLe filter.orderBy
  let (limit, offset) ← genSqlMultiple filter
  return { clause := clause.map fun p r => p (toRow r), le := le, limit := some limit, offset := offset }

end Compile

end Nanocl
