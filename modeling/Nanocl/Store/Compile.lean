/-
Which filters compile (`gen_sql_query` and `gen_sql_order_by` in `bin/nanocld/src/models/mod.rs`).

The macros return no error: where the compiler of `Store.Filter` ends in an error, the daemon panics. Each column type
has two macros, one for the conditions and one for the `or` groups. They build the same predicates, but a clause the type
has no case for is left out of the conditions and panics in a group. A date that `parse_date_string` refuses panics in
both, a sort order that is not `asc` or `desc` panics for known and unknown columns, and a group starts from `1=1`, so
one that names no known column accepts every row.

- `columnClause_cases`: what one clause on a column of a type compiles to.
- `genSqlWhere_isOk`, `genSqlAnd_isOk`, `genSqlOrderBy_isOk`: when a step of each loop returns.
- `compiles_well_iff`: the compiler meets its promise on a filter exactly if every clause on a known column fits its
  type and has readable dates, every group names a known column and every order has a direction.
-/
import Nanocl.Store.Process

namespace Nanocl

open Nanocl.Lib

/-- the clauses the macros of a column type have a case for -/
def ColumnType.supports : ColumnType → GenericClause → Bool
  | .uuid, .eq _ | .uuid, .isNull | .uuid, .isNotNull => true
  | .json, .isNull | .json, .isNotNull | .json, .contains _ | .json, .hasKey _ => true
  | .uuid, _ | .json, _ => false
  | .text, .contains _ | .text, .hasKey _ => false
  | .timestamptz, .contains _ | .timestamptz, .hasKey _ | .timestamptz, .like _ | .timestamptz, .notLike _ => false
  | .text, _ | .timestamptz, _ => true

/-- the texts of a clause that are read as dates where its column is an instant -/
def GenericClause.dates : GenericClause → List String
  | .eq v | .ne v | .gt v | .lt v | .ge v | .le v => [v]
  | .isIn items | .notIn items => items
  | _ => []

/-- the groups of the filter -/
def GenericFilter.groups (f : GenericFilter) : List Conditions := (f.clause.getD ⟨[], none⟩).or.getD []

/-- every clause of the filter, with its key -/
def GenericFilter.clauses (f : GenericFilter) : Conditions :=
  (f.clause.getD ⟨[], none⟩).conditions ++ f.groups.flatten

/-- the direction of an entry of `order_by`, its second word -/
def directionOf (order : String) : String := (splitWhitespace order)[1]?.getD ""

section

variable (E : Externals)

/-- where the column is an instant, every date of the clause is readable -/
def DatesRead (type : ColumnType) (clause : GenericClause) : Prop :=
  type = .timestamptz → ∀ s ∈ clause.dates, ∃ t, parseDateString E s = .ok t

/-! ## One clause -/

theorem timestamptzClause_isOk (clause : GenericClause) :
    (∃ r, timestamptzClause E clause = .ok r) ↔ ∀ s ∈ clause.dates, ∃ t, parseDateString E s = .ok t := by
  have hone : ∀ (v : String) (p : ℤ → Option (Value → Bool)),
      (∃ r, (unwrapDate E v >>= fun d => (pure (p d) : Except QueryError _)) = .ok r) ↔
        ∃ t, parseDateString E v = .ok t := by
    intro v p
    simp only [Except.bind_eq_ok_iff, Except.pure_eq_ok, Except.ok.injEq, unwrapDate]
    constructor
    · rintro ⟨r, t, ht, -⟩
      exact ⟨t, ht⟩
    · rintro ⟨t, ht⟩
      exact ⟨p t, t, ht, rfl⟩
  have hmany : ∀ (items : List String) (p : List ℤ → Option (Value → Bool)),
      (∃ r, (items.mapM (unwrapDate E) >>= fun ds => (pure (p ds) : Except QueryError _)) = .ok r) ↔
        ∀ s ∈ items, ∃ t, parseDateString E s = .ok t := by
    intro items p
    rw [← mapM_isOk_iff (f := parseDateString E)]
    simp only [Except.bind_eq_ok_iff, Except.pure_eq_ok, Except.ok.injEq]
    constructor
    · rintro ⟨r, ds, hds, -⟩
      exact ⟨ds, hds⟩
    · rintro ⟨ds, hds⟩
      exact ⟨p ds, ds, hds, rfl⟩
  cases clause with
  | eq v | ne v | gt v | lt v | ge v | le v =>
    simp only [timestamptzClause, GenericClause.dates, List.mem_singleton, forall_eq]
    exact hone v _
  | isIn items | notIn items =>
    simp only [timestamptzClause, GenericClause.dates]
    exact hmany items _
  | like | notLike | isNull | isNotNull | contains | hasKey =>
    simp only [timestamptzClause, GenericClause.dates, Except.pure_eq_ok, Except.ok.injEq, exists_eq', List.not_mem_nil,
      false_imp_iff, implies_true]

/-- a clause compiles exactly if its dates can be read -/
theorem columnClause_isOk (type : ColumnType) (clause : GenericClause) :
    (∃ r, columnClause E type clause = .ok r) ↔ DatesRead E type clause := by
  cases type with
  | timestamptz =>
    simp only [columnClause, timestamptzClause_isOk, DatesRead, true_imp_iff]
  | text | json | uuid =>
    refine iff_of_true ⟨_, rfl⟩ fun h => ?_
    cases h

/-- and it has no predicate exactly if its type has no case for it -/
theorem columnClause_none (type : ColumnType) (clause : GenericClause) :
    columnClause E type clause = .ok none ↔ type.supports clause = false := by
  cases type with
  | text => cases clause <;> simp [columnClause, stringClause, ColumnType.supports]
  | json => cases clause <;> simp [columnClause, jsonClause, ColumnType.supports]
  | uuid => cases clause <;> simp [columnClause, uuidClause, ColumnType.supports]
  | timestamptz =>
    cases clause <;>
      simp [columnClause, timestamptzClause, ColumnType.supports, Except.bind_eq_ok_iff]

/-! ## One step of each loop -/

section

variable (columns : Columns)

/-- what the step of a condition needs -/
def ConditionReads (c : String × GenericClause) : Prop :=
  ∀ type column, columns.get c.1 = some (type, column) → DatesRead E type c.2

/-- what the step of a group needs: its macros have no case to fall back to -/
def GroupReads (c : String × GenericClause) : Prop :=
  ∀ type column, columns.get c.1 = some (type, column) → type.supports c.2 = true ∧ DatesRead E type c.2

theorem forall_eq_pair {α β : Type} {a : α} {b : β} {P : α → Prop} : (∀ a' b', (a, b) = (a', b') → P a') ↔ P a := by
  constructor
  · intro h
    exact h a b rfl
  · rintro h _ _ ⟨⟩
    exact h

theorem genSqlWhere_isOk (query : Where Row) (c : String × GenericClause) :
    (∃ query', genSqlWhere E columns query c = .ok query') ↔ ConditionReads E columns c := by
  unfold ConditionReads
  cases hc : columns.get c.1 with
  | none => simp [genSqlWhere_of_none E hc]
  | some tc =>
    obtain ⟨type, column⟩ := tc
    simp only [genSqlWhere_of_some E hc, Option.some.injEq, forall_eq_pair]
    rw [← columnClause_isOk E type c.2]
    cases columnClause E type c.2 with
    | error e => simp [Except.map]
    | ok r => simp [Except.map]

theorem genSqlAnd_isOk (p : Row → Bool) (c : String × GenericClause) :
    (∃ p', genSqlAnd E columns p c = .ok p') ↔ GroupReads E columns c := by
  unfold GroupReads
  cases hc : columns.get c.1 with
  | none => simp [genSqlAnd_of_none E hc]
  | some tc =>
    obtain ⟨type, column⟩ := tc
    simp only [genSqlAnd_of_some E hc, Option.some.injEq, forall_eq_pair]
    rw [← columnClause_isOk E type c.2, ← Bool.not_eq_false, ← columnClause_none E type c.2]
    cases columnClause E type c.2 with
    | error e => simp
    | ok r => cases r <;> simp [andBy]

/-- one entry of `order_by` -/
def orderStep (query : Option (Row → Row → Bool)) (o : String) : Except QueryError (Option (Row → Row → Bool)) := do
  let words := splitWhitespace o
  let order ← unwrapOrder (words[1]?.getD "")
  match columns.get (words.head?.getD "") with
  | none => pure query
  | some (_, column) =>
    match order with
    | .asc => pure (some fun a b => E.valueLe (a column) (b column))
    | .desc => pure (some fun a b => E.valueLe (b column) (a column))

theorem genSqlOrderBy_eq (orders : List String) :
    genSqlOrderBy E columns orders = orders.foldlM (orderStep E columns) none := rfl

theorem unwrapOrder_isOk (s : String) : (∃ d, unwrapOrder s = .ok d) ↔ s = "asc" ∨ s = "desc" := by
  unfold unwrapOrder
  split <;> simp_all

theorem orderStep_isOk (query : Option (Row → Row → Bool)) (o : String) :
    (∃ query', orderStep E columns query o = .ok query') ↔ directionOf o = "asc" ∨ directionOf o = "desc" := by
  rw [← unwrapOrder_isOk]
  simp only [orderStep, Except.bind_eq_ok_iff]
  constructor
  · rintro ⟨query', d, hd, -⟩
    exact ⟨d, hd⟩
  · rintro ⟨d, hd⟩
    cases hc : columns.get ((splitWhitespace o).head?.getD "") with
    | none => exact ⟨query, d, hd, rfl⟩
    | some tc => cases d with
      | asc => exact ⟨_, .asc, hd, rfl⟩
      | desc => exact ⟨_, .desc, hd, rfl⟩

/-! ## A whole filter -/

theorem genSqlQuery_isOk (filter : GenericFilter) :
    (∃ w, genSqlQuery E columns filter = .ok w) ↔
      (∀ c ∈ (filter.clause.getD ⟨[], none⟩).conditions, ConditionReads E columns c) ∧
        ∀ g ∈ filter.groups, ∀ c ∈ g, GroupReads E columns c := by
  rw [← foldlM_isOk_iff (genSqlWhere_isOk E columns) none]
  have hgroups : (∃ ps, filter.groups.mapM (genSqlOrGroup E columns) = .ok ps) ↔
      ∀ g ∈ filter.groups, ∀ c ∈ g, GroupReads E columns c := by
    rw [mapM_isOk_iff]
    exact forall₂_congr fun g _ => foldlM_isOk_iff (genSqlAnd_isOk E columns) _
  rw [← hgroups]
  simp only [genSqlQuery_eq_ok_iff]
  constructor
  · rintro ⟨w, base, ps, hbase, hps, -⟩
    exact ⟨⟨base, hbase⟩, ps, hps⟩
  · rintro ⟨⟨base, hbase⟩, ps, hps⟩
    exact ⟨_, base, ps, hbase, hps, rfl⟩

theorem genSqlOrderBy_isOk (orders : List String) :
    (∃ le, genSqlOrderBy E columns orders = .ok le) ↔
      ∀ o ∈ orders, directionOf o = "asc" ∨ directionOf o = "desc" :=
  foldlM_isOk_iff (orderStep_isOk E columns) none

/-- the rows accepted where the clause is the only condition -/
def asCondition (c : String × GenericClause) : Except QueryError (Row → Bool) :=
  (genSqlQuery E columns { GenericFilter.new with clause := some ⟨[c], none⟩ }).map Where.sat

/-- the rows accepted where the clause is alone in the only `or` group -/
def asGroup (c : String × GenericClause) : Except QueryError (Row → Bool) :=
  (genSqlQuery E columns { GenericFilter.new with clause := some ⟨[], some [[c]]⟩ }).map Where.sat

/-- the two macros of a type agree on the clauses it supports, and only on them -/
theorem asCondition_eq_asGroup_iff {c : String × GenericClause} {type : ColumnType} {column : String}
    (hc : columns.get c.1 = some (type, column)) :
    asCondition E columns c = asGroup E columns c ↔ type.supports c.2 = true := by
  rw [← Bool.not_eq_false, ← columnClause_none E type c.2]
  cases h : columnClause E type c.2 with
  | error e =>
    simp [asCondition, asGroup, genSqlQuery, genSqlOrGroup, genSqlWhere_of_some E hc, genSqlAnd_of_some E hc, h, Except.map]
  | ok r =>
    cases r with
    | none =>
      simp [asCondition, asGroup, genSqlQuery, genSqlOrGroup, genSqlWhere_of_some E hc, genSqlAnd_of_some E hc, h, Except.map,
        andBy]
    | some p =>
      simp [asCondition, asGroup, genSqlQuery, genSqlOrGroup, genSqlWhere_of_some E hc, genSqlAnd_of_some E hc, h, Except.map,
        filterBy, andBy, Where.filter, Where.orFilter]

/-- a group without a known column is `1=1` -/
theorem genSqlOrGroup_unknown {g : Conditions} (h : ∀ c ∈ g, columns.get c.1 = none) :
    genSqlOrGroup E columns g = .ok fun _ => true := by
  unfold genSqlOrGroup
  induction g with
  | nil => rfl
  | cons c g ih =>
    rw [List.foldlM_cons, genSqlAnd_of_none E (h c List.mem_cons_self)]
    exact ih fun d hd => h d (List.mem_cons_of_mem _ hd)

/-! ## The promise and its condition -/

/-- what the compiler promises about a filter -/
structure CompilesWell (filter : GenericFilter) : Prop where
  /-- neither the clauses nor the order panic -/
  clause_compiled : ∃ w, genSqlQuery E columns filter = .ok w
  order_compiled : ∃ le, genSqlOrderBy E columns (filter.orderBy.getD []) = .ok le
  /-- both places compile a clause on a known column to the same predicate -/
  agrees : ∀ c ∈ filter.clauses, (columns.get c.1).isSome → asCondition E columns c = asGroup E columns c
  /-- a group without a known column does not accept every row -/
  selective : ∀ g ∈ filter.groups, (∀ c ∈ g, columns.get c.1 = none) →
    ∀ p, genSqlOrGroup E columns g = .ok p → ∃ row, p row = false

/-- every clause on a known column fits its type and has readable dates, every group names a known column, every order
has a direction -/
structure Compilable (filter : GenericFilter) : Prop where
  fits : ∀ c ∈ filter.clauses, GroupReads E columns c
  known : ∀ g ∈ filter.groups, ∃ c ∈ g, (columns.get c.1).isSome
  directed : ∀ o ∈ filter.orderBy.getD [], directionOf o = "asc" ∨ directionOf o = "desc"

variable {E columns} in
/-- a filter that meets the condition compiles well -/
theorem Compilable.compilesWell {filter : GenericFilter} (h : Compilable E columns filter) :
    CompilesWell E columns filter := by
  refine ⟨(genSqlQuery_isOk E columns filter).2 ⟨fun c hc type column ht => ?_, fun g hg c hc => ?_⟩,
    (genSqlOrderBy_isOk E columns _).2 h.directed, fun c hc hk => ?_, fun g hg hn => ?_⟩
  · exact (h.fits c (List.mem_append_left _ hc) type column ht).2
  · exact h.fits c (List.mem_append_right _ (List.mem_flatten_of_mem hg hc))
  · obtain ⟨⟨type, column⟩, ht⟩ := Option.isSome_iff_exists.1 hk
    exact (asCondition_eq_asGroup_iff E columns ht).2 (h.fits c hc type column ht).1
  · obtain ⟨c, hc, hk⟩ := h.known g hg
    rw [hn c hc] at hk
    cases hk

variable {E columns} in
/-- and a filter that compiles well meets the condition -/
theorem CompilesWell.compilable {filter : GenericFilter} (h : CompilesWell E columns filter) :
    Compilable E columns filter := by
  obtain ⟨hconditions, hgroups⟩ := (genSqlQuery_isOk E columns filter).1 h.clause_compiled
  refine ⟨fun c hc type column ht => ?_, fun g hg => ?_, (genSqlOrderBy_isOk E columns _).1 h.order_compiled⟩
  · have hs : type.supports c.2 = true :=
      (asCondition_eq_asGroup_iff E columns ht).1 (h.agrees c hc (by rw [ht]; rfl))
    rcases List.mem_append.1 hc with hc | hc
    · exact ⟨hs, hconditions c hc type column ht⟩
    · obtain ⟨g, hg, hc⟩ := List.mem_flatten.1 hc
      exact hgroups g hg c hc type column ht
  · by_contra hno
    have hn : ∀ c ∈ g, columns.get c.1 = none := by
      intro c hc
      by_contra hk
      exact hno ⟨c, hc, Option.isSome_iff_ne_none.2 hk⟩
    -- the group is `1=1`, and no row is refused
    obtain ⟨row, hrow⟩ := h.selective g hg hn _ (genSqlOrGroup_unknown E columns hn)
    cases hrow

end

/-- **Filters that compile.** For every filter the two paths of the compiler end without a panic, agree on each of its
clauses and leave no group open exactly if every clause on a known column is one its type supports with dates that can
be read, every group names a known column and every order has a direction. -/
theorem compiles_well_iff (columns : Columns) (filter : GenericFilter) :
    CompilesWell E columns filter ↔ Compilable E columns filter :=
  ⟨CompilesWell.compilable, Compilable.compilesWell⟩

end

/-! Four filters on the processes that break the promise, each in its own way. -/

/-- processes created on a day that is no date -/
def createdYesterday : GenericFilter := GenericFilter.new.where "created_at" (.gt "yesterday")

/-- processes whose data equal a text, in a group -/
def dataInGroup : GenericFilter := { GenericFilter.new with clause := some ⟨[], some [[("data", .eq "x")]]⟩ }

/-- no process of the name, or those of a key that does not exist -/
def unknownInGroup : GenericFilter :=
  { GenericFilter.new with clause := some ⟨[("name", .eq "web")], some [[("nme", .eq "db")]]⟩ }

/-- processes by name, without a direction -/
def orderedByName : GenericFilter := { GenericFilter.new with orderBy := some ["name"] }

/-- the date, the clause and the order panic; the same clause among the conditions is skipped; the group of an unknown
key selects every process -/
theorem filters_break :
    (∃ e, genSqlQuery plainExternals ProcessDb.columns createdYesterday = .error e) ∧
    (∃ e, genSqlQuery plainExternals ProcessDb.columns dataInGroup = .error e) ∧
    genSqlQuery plainExternals ProcessDb.columns (GenericFilter.new.where "data" (.eq "x")) = .ok none ∧
    (∃ e, genSqlOrderBy plainExternals ProcessDb.columns ["name"] = .error e) ∧
    (∃ w, genSqlQuery plainExternals ProcessDb.columns unknownInGroup = .ok w ∧ ∀ row, w.sat row = true) ∧
    ¬ CompilesWell plainExternals ProcessDb.columns createdYesterday ∧
    ¬ CompilesWell plainExternals ProcessDb.columns dataInGroup ∧
    ¬ CompilesWell plainExternals ProcessDb.columns unknownInGroup ∧
    ¬ CompilesWell plainExternals ProcessDb.columns orderedByName := by
  have hdate : genSqlQuery plainExternals ProcessDb.columns createdYesterday =
      .error "Invalid date format: yesterday" := rfl
  have hclause : genSqlQuery plainExternals ProcessDb.columns dataInGroup = .error "Unsupported clause" := rfl
  have horder : genSqlOrderBy plainExternals ProcessDb.columns ["name"] = .error "Invalid order" := rfl
  have hgroup : genSqlOrGroup plainExternals ProcessDb.columns [("nme", .eq "db")] = .ok fun _ => true := rfl
  refine ⟨⟨_, hdate⟩, ⟨_, hclause⟩, rfl, ⟨_, horder⟩, ⟨_, rfl, fun row => Bool.or_true _⟩, fun h => ?_, fun h => ?_,
    fun h => ?_, fun h => ?_⟩
  · obtain ⟨w, hw⟩ := h.clause_compiled
    rw [hdate] at hw
    cases hw
  · obtain ⟨w, hw⟩ := h.clause_compiled
    rw [hclause] at hw
    cases hw
  · obtain ⟨row, hrow⟩ := h.selective [("nme", .eq "db")] (List.mem_singleton.2 rfl) (by decide) _ hgroup
    cases hrow
  · obtain ⟨le, hle⟩ := h.order_compiled
    rw [show (orderedByName.orderBy.getD []) = ["name"] from rfl, horder] at hle
    cases hle

end Nanocl
