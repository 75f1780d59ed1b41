/-
The order of a read (`gen_sql_order_by` in `bin/nanocld/src/models/mod.rs`, called by `gen_read_query` of every
repository).

The macro calls `order` once for each entry of `order_by`. In diesel `order` replaces the order set before; the call that
would extend it is `then_order_by`. So the rows come sorted by the last entry alone.

- `genSqlOrderBy_known`: what a list of known columns with directions compiles to.
- `orders_tables_iff`: the rows of every table come in the order of the list exactly if all of its entries name one
  column and the first entry has the direction of the last.
- `vm_before_cargo`: processes by kind, then by name.
-/
import Nanocl.Store.Compile
import Mathlib.Data.String.Basic

namespace Nanocl

open Nanocl.Lib

/-- a column of the database with a direction -/
abbrev SortKey := String × GenericOrder

/-- the key an entry of `order_by` asks for, where it names a known column and has a direction -/
def sortKey (columns : Columns) (order : String) : Option SortKey :=
  match columns.get ((splitWhitespace order).head?.getD ""), directionOf order with
  | some (_, column), "asc" => some (column, .asc)
  | some (_, column), "desc" => some (column, .desc)
  | _, _ => none

/-- the keys of a list of entries -/
def sortKeys (columns : Columns) (orders : List String) : List SortKey := orders.filterMap (sortKey columns)

/-! ## Rows of a table -/

/-- the value is one of the type -/
def Value.hasType : Value → ColumnType → Bool
  | .text _, .text | .json _, .json | .uuid _, .uuid | .time _, .timestamptz => true
  | _, _ => false

/-- the type of a column of the database -/
def Columns.typeOf (columns : Columns) (column : String) : Option ColumnType :=
  (columns.find? fun p => p.2.2 = column).map fun p => p.2.1

/-- the column may have the value: one of its type, or NULL where the table allows it -/
def Columns.HasValue (columns : Columns) (nullable : String → Bool) (column : String) (v : Value) : Prop :=
  ∀ type, columns.typeOf column = some type → v.hasType type = true ∨ nullable column = true ∧ v = .null

/-- every column of the row has a value that it may have -/
def TypedRow (columns : Columns) (nullable : String → Bool) (row : Row) : Prop :=
  ∀ column, columns.HasValue nullable column (row column)

/-- a row is typed if the value of each column is -/
theorem typedRow_of_forall {columns : Columns} {row : Row} (h : ∀ p ∈ columns, (row p.2.2).hasType p.2.1 = true)
    (nullable : String → Bool) : TypedRow columns nullable row := by
  intro column type htype
  obtain ⟨p, hp, rfl⟩ := Option.map_eq_some_iff.1 htype
  obtain rfl : p.2.2 = column := by simpa using List.find?_some hp
  exact .inl (h p (List.mem_of_find?_eq_some hp))

/-- a value of the type -/
def ColumnType.sample : ColumnType → Value
  | .text => .text ""
  | .json => .json .null
  | .uuid => .uuid 0
  | .timestamptz => .time 0

theorem ColumnType.hasType_sample (type : ColumnType) : type.sample.hasType type = true := by
  cases type <;> rfl

/-- the type of a column, which is a text if it is not known -/
def Columns.kindOf (columns : Columns) (column : String) : ColumnType := (columns.typeOf column).getD .text

/-- the same in every column but one -/
def rowWith (columns : Columns) (column : String) (v : Value) : Row := fun name =>
  if name = column then v else (columns.kindOf name).sample

theorem typedRow_rowWith {columns : Columns} {column : String} {v : Value}
    (hv : v.hasType (columns.kindOf column) = true) (nullable : String → Bool) :
    TypedRow columns nullable (rowWith columns column v) := by
  intro name type h
  left
  have hkind : columns.kindOf name = type := by simp [Columns.kindOf, h]
  unfold rowWith
  split_ifs with hn
  · subst hn
    exact hkind ▸ hv
  · exact hkind ▸ ColumnType.hasType_sample _

theorem rowWith_self (columns : Columns) (column : String) (v : Value) : rowWith columns column v column = v := if_pos rfl

theorem rowWith_other {columns : Columns} {column name : String} (h : name ≠ column) (v w : Value) :
    rowWith columns column v name = rowWith columns column w name := by
  simp only [rowWith, h, if_false]

section

variable (E : Externals)

/-- the order of the database: total and transitive, and the values of a type are not all equal by it -/
structure DatabaseOrder : Prop where
  total : ∀ v w, E.valueLe v w = true ∨ E.valueLe w v = true
  trans : ∀ u v w, E.valueLe u v = true → E.valueLe v w = true → E.valueLe u w = true
  differ : ∀ type : ColumnType, ∃ low high : Value, low.hasType type = true ∧ high.hasType type = true ∧
    E.valueLe high low = false

/-- the order of the rows by one key -/
def keyLe (k : SortKey) (a b : Row) : Bool :=
  match k.2 with
  | .asc => E.valueLe (a k.1) (b k.1)
  | .desc => E.valueLe (b k.1) (a k.1)

/-! ## What the macro builds -/

theorem orderStep_known {columns : Columns} {o : String} {k : SortKey} (h : sortKey columns o = some k)
    (query : Option (Row → Row → Bool)) : orderStep E columns query o = .ok (some (keyLe E k)) := by
  unfold sortKey directionOf at h
  simp only [orderStep]
  split at h
  all_goals cases h
  all_goals rename_i hcol hdir; simp only [hcol, hdir]; rfl

/-- the last entry is the order of the read -/
theorem genSqlOrderBy_known {columns : Columns} {orders : List String} (h : ∀ o ∈ orders, (sortKey columns o).isSome) :
    genSqlOrderBy E columns orders = .ok ((sortKeys columns orders).getLast?.map (keyLe E)) := by
  rw [genSqlOrderBy_eq]
  -- from the right: the last call of `order` replaces whatever the others have set
  induction orders using List.reverseRecOn with
  | nil => rfl
  | append_singleton orders o ih =>
    obtain ⟨k, hk⟩ := Option.isSome_iff_exists.1 (h o (by simp))
    rw [List.foldlM_append, ih fun p hp => h p (List.mem_append_left _ hp)]
    simp [sortKeys, List.filterMap_append, hk, orderStep_known E hk]

/-! ## When that is the order that was asked for -/

/-- the rows of every repository come sorted by the list, first entry first -/
def OrdersTables (columns : Columns) (nullable : String → Bool) (orders : List String) : Prop :=
  ∀ (α : Type) (toRow : α → Row) (defaultLe : α → α → Bool), (∀ a, TypedRow columns nullable (toRow a)) →
    ∀ filter : GenericFilter, filter.orderBy = some orders →
      ∀ query, genReadQuery E columns toRow defaultLe filter = .ok query →
        ∀ rows, (query.run rows).Pairwise fun a b =>
          lexLe ((sortKeys columns orders).map (keyLe E)) (toRow a) (toRow b) = true

/-- all keys are of one column, and the first has the direction of the last -/
def OneColumn (keys : List SortKey) : Prop :=
  ∀ first ∈ keys.head?, ∀ last ∈ keys.getLast?, first = last ∧ ∀ k ∈ keys, k.1 = last.1

variable {E}

theorem DatabaseOrder.keyLe_total (hE : DatabaseOrder E) (k : SortKey) (a b : Row) :
    keyLe E k a b = true ∨ keyLe E k b a = true := by
  unfold keyLe
  cases k.2
  · exact hE.total _ _
  · exact hE.total _ _

theorem DatabaseOrder.keyLe_trans (hE : DatabaseOrder E) {k : SortKey} {a b c : Row} (hab : keyLe E k a b = true)
    (hbc : keyLe E k b c = true) : keyLe E k a c = true := by
  unfold keyLe at *
  cases hk : k.2 <;> simp only [hk] at *
  · exact hE.trans _ _ _ hab hbc
  · exact hE.trans _ _ _ hbc hab

/-- rows that are equal by a key are equal by every key of its column -/
theorem keyLe_of_tie {k k' : SortKey} (hcol : k'.1 = k.1) {a b : Row} (hab : keyLe E k a b = true)
    (hba : keyLe E k b a = true) : keyLe E k' a b = true := by
  unfold keyLe at *
  rw [hcol]
  cases hk : k.2 <;> cases hk' : k'.2 <;> simp_all only

/-- where the last key is also the first and no other column follows, its order is the order of the list -/
theorem OneColumn.lexLe {keys : List SortKey} (h : OneColumn keys) {last : SortKey} (hlast : last ∈ keys.getLast?)
    {a b : Row} (hab : keyLe E last a b = true) : lexLe (keys.map (keyLe E)) a b = true := by
  cases keys with
  | nil => rfl
  | cons first rest =>
    obtain ⟨rfl, hcol⟩ := h first rfl last hlast
    cases hba : keyLe E first b a with
    | false => simp [Lib.lexLe, hab, hba]
    | true =>
      refine lexLe_of_forall fun le hle => ?_
      obtain ⟨k, hk, rfl⟩ := List.mem_map.1 hle
      exact keyLe_of_tie (hcol k hk) hab hba

/-- the order of a compiled read -/
theorem genReadQuery_le {columns : Columns} {α : Type} {toRow : α → Row} {defaultLe : α → α → Bool}
    {filter : GenericFilter} {query : Query α} (h : genReadQuery E columns toRow defaultLe filter = .ok query) :
    readOrder E columns toRow defaultLe filter.orderBy = .ok query.le := by
  simp only [genReadQuery, Except.bind_eq_ok_iff] at h
  obtain ⟨clause, -, le, hle, limits, -, h⟩ := h
  rw [hle, ← Except.ok.inj h]

/-- sorted by the last key, or not sorted at all -/
theorem readOrder_known {columns : Columns} {α : Type} (toRow : α → Row) (defaultLe : α → α → Bool)
    {orders : List String} (h : ∀ o ∈ orders, (sortKey columns o).isSome) :
    readOrder E columns toRow defaultLe (some orders) =
      .ok (match (sortKeys columns orders).getLast? with
        | none => fun _ _ => true
        | some k => fun a b => keyLe E k (toRow a) (toRow b)) := by
  simp only [readOrder, genSqlOrderBy_known E h, Except.ok_bind]
  cases (sortKeys columns orders).getLast? <;> rfl

/-- one column with one direction: the rows come as asked for -/
theorem OneColumn.ordersTables (hE : DatabaseOrder E) {columns : Columns} {nullable : String → Bool}
    {orders : List String} (hk : ∀ o ∈ orders, (sortKey columns o).isSome) (h : OneColumn (sortKeys columns orders)) :
    OrdersTables E columns nullable orders := by
  intro α toRow defaultLe _ filter hf query hq rows
  have hle := genReadQuery_le hq
  rw [hf, readOrder_known toRow defaultLe hk, Except.ok.injEq] at hle
  cases hlast : (sortKeys columns orders).getLast? with
  | none =>
    rw [List.getLast?_eq_none_iff.1 hlast]
    exact List.pairwise_of_forall fun a b => rfl
  | some last =>
    rw [hlast] at hle
    refine (query.pairwise_run ?_ ?_ rows).imp fun {a b} hab => ?_
    · intro a b
      simp only [← hle]
      exact hE.keyLe_total last _ _
    · intro a b c
      simp only [← hle]
      exact hE.keyLe_trans
    · simp only [← hle] at hab
      exact h.lexLe hlast hab

/-- two rows that the last key leaves in their order are returned like that -/
theorem OrdersTables.lexLe_pair {columns : Columns} {nullable : String → Bool} {orders : List String}
    (h : OrdersTables E columns nullable orders) (hk : ∀ o ∈ orders, (sortKey columns o).isSome) {last : SortKey}
    (hlast : (sortKeys columns orders).getLast? = some last) {a b : Row} (ha : TypedRow columns nullable a)
    (hb : TypedRow columns nullable b) (hab : keyLe E last a b = true) :
    lexLe ((sortKeys columns orders).map (keyLe E)) a b = true := by
  let table : Type := { row : Row // TypedRow columns nullable row }
  let query : Query table := { clause := none, le := fun r s => keyLe E last r.1 s.1, limit := some 100, offset := 0 }
  have hq : genReadQuery E columns (fun r : table => r.1) (fun _ _ => true)
      { GenericFilter.new with orderBy := some orders } = .ok query := by
    simp only [genReadQuery, GenericFilter.new, readOrder_known _ _ hk, hlast, genSqlMultiple_default, Except.ok_bind]
    rfl
  have hrows := h table (fun r => r.1) (fun _ _ => true) (fun r => r.2) _ rfl query hq [⟨a, ha⟩, ⟨b, hb⟩]
  rw [Query.run_eq_self (n := 100) rfl rfl rfl (by simp) (List.pairwise_pair.2 hab)] at hrows
  have hpair := List.pairwise_pair.1 hrows
  exact hpair

/-- by every key of another column the two rows are equals -/
theorem keyLe_rowWith_other (hE : DatabaseOrder E) {columns : Columns} {column : String} {k : SortKey}
    (h : k.1 ≠ column) (v w : Value) : keyLe E k (rowWith columns column v) (rowWith columns column w) = true := by
  have hself : ∀ u, E.valueLe u u = true := fun u => (hE.total u u).elim id id
  unfold keyLe
  rw [rowWith_other h v w]
  cases k.2 <;> exact hself _

/-- by a key of the column itself one of them comes first -/
theorem keyLe_rowWith_self (hE : DatabaseOrder E) (columns : Columns) (k : SortKey) {low high : Value}
    (h : E.valueLe high low = false) :
    keyLe E k (rowWith columns k.1 low) (rowWith columns k.1 high) = decide (k.2 = .asc) ∧
      keyLe E k (rowWith columns k.1 high) (rowWith columns k.1 low) = decide (k.2 = .desc) := by
  have hle : E.valueLe low high = true := (hE.total _ _).resolve_right (by simp [h])
  unfold keyLe
  simp only [rowWith_self]
  cases k.2 <;> exact ⟨‹_›, ‹_›⟩

/-- two columns, or two directions: some table comes in another order -/
theorem OrdersTables.oneColumn (hE : DatabaseOrder E) {columns : Columns} {nullable : String → Bool}
    {orders : List String} (hk : ∀ o ∈ orders, (sortKey columns o).isSome) (h : OrdersTables E columns nullable orders) :
    OneColumn (sortKeys columns orders) := by
  intro first hfirst last hlast
  have hcol : ∀ k ∈ sortKeys columns orders, k.1 = last.1 := by
    intro k hkey
    by_contra hne
    -- the rows differ in the column of `k` only, so the last key leaves both orders as they are
    obtain ⟨low, high, hlow, hhigh, hlt⟩ := hE.differ (columns.kindOf k.1)
    have hab := h.lexLe_pair hk hlast (typedRow_rowWith hlow nullable) (typedRow_rowWith hhigh nullable)
      (keyLe_rowWith_other hE (Ne.symm hne) low high)
    have hba := h.lexLe_pair hk hlast (typedRow_rowWith hhigh nullable) (typedRow_rowWith hlow nullable)
      (keyLe_rowWith_other hE (Ne.symm hne) high low)
    have hboth := forall_of_lexLe hab hba _ (List.mem_map_of_mem hkey)
    rw [(keyLe_rowWith_self hE columns k hlt).1, (keyLe_rowWith_self hE columns k hlt).2] at hboth
    cases hd : k.2 <;> simp [hd] at hboth
  refine ⟨?_, hcol⟩
  have hmem : first ∈ sortKeys columns orders := List.mem_of_mem_head? hfirst
  obtain ⟨keys, hkeys⟩ : ∃ keys, sortKeys columns orders = first :: keys := by
    cases hs : sortKeys columns orders with
    | nil => rw [hs] at hfirst; cases hfirst
    | cons k keys => rw [hs] at hfirst; exact ⟨keys, by rw [Option.mem_some_iff.1 hfirst]⟩
  have hlex : ∀ {a b : Row}, lexLe ((sortKeys columns orders).map (keyLe E)) a b = true → keyLe E first a b = true := by
    intro a b hab
    rw [hkeys, List.map_cons, Lib.lexLe, Bool.and_eq_true] at hab
    exact hab.1
  obtain ⟨low, high, hlow, hhigh, hlt⟩ := hE.differ (columns.kindOf last.1)
  have hself := keyLe_rowWith_self hE columns last hlt
  have hother := keyLe_rowWith_self hE columns first hlt
  rw [hcol first hmem] at hother
  have hdir : first.2 = last.2 := by
    cases hd : last.2 with
    | asc =>
      have := hlex (h.lexLe_pair hk hlast (typedRow_rowWith hlow nullable) (typedRow_rowWith hhigh nullable)
        (by rw [hself.1, hd]; rfl))
      exact of_decide_eq_true (hother.1 ▸ this)
    | desc =>
      have := hlex (h.lexLe_pair hk hlast (typedRow_rowWith hhigh nullable) (typedRow_rowWith hlow nullable)
        (by rw [hself.2, hd]; rfl))
      exact of_decide_eq_true (hother.2 ▸ this)
  exact Prod.ext (hcol first hmem) hdir

end

/-- **The order of a read.** For every list of known columns with directions the rows of every table come sorted by the
list exactly if all of its entries name one column and the first has the direction of the last. -/
theorem orders_tables_iff {E : Externals} (hE : DatabaseOrder E) (columns : Columns) (nullable : String → Bool)
    (orders : List String) (hk : ∀ o ∈ orders, (sortKey columns o).isSome) :
    OrdersTables E columns nullable orders ↔ OneColumn (sortKeys columns orders) :=
  ⟨OrdersTables.oneColumn hE hk, OneColumn.ordersTables hE hk⟩

/-! ### The processes -/

/-- the columns of the table that may be NULL -/
def ProcessDb.nullable : String → Bool := fun _ => false

/-- every column of a process has a value of its type -/
theorem ProcessDb.typedRow (p : ProcessDb) : TypedRow ProcessDb.columns ProcessDb.nullable p.toRow :=
  typedRow_of_forall (by simp [ProcessDb.columns, ProcessDb.toRow, Value.hasType]) _

/-- where JSON values of different kinds stand -/
def jsonRank : Json → ℕ
  | .null => 0
  | .str _ => 1
  | .int _ | .float _ _ => 2
  | .bool _ => 3
  | .arr _ => 4
  | .obj _ => 5

/-- where values of different types stand, NULL first -/
def Value.rank : Value → ℕ
  | .null => 0
  | .json _ => 1
  | .text _ => 2
  | .uuid _ => 3
  | .time _ => 4

/-- texts by their characters, uuids and instants by their numbers, JSON values by their kinds -/
def Value.le : Value → Value → Bool
  | .text s, .text t => s ≤ t
  | .uuid a, .uuid b => a ≤ b
  | .time a, .time b => a ≤ b
  | .json a, .json b => jsonRank a ≤ jsonRank b
  | v, w => v.rank ≤ w.rank

/-- a database with this order -/
def orderedExternals : Externals := { plainExternals with valueLe := Value.le }

theorem databaseOrder_orderedExternals : DatabaseOrder orderedExternals where
  total := by
    intro v w
    cases v <;> cases w <;> simp [orderedExternals, Value.le, Value.rank, le_total]
  trans := by
    intro u v w huv hvw
    cases u <;> cases v <;> cases w <;> simp_all [orderedExternals, Value.le, Value.rank]
    case text.text.text => exact String.le_trans huv hvw
    all_goals exact le_trans huv hvw
  differ := by
    intro type
    cases type with
    | text => exact ⟨.text "", .text "a", rfl, rfl, by decide +kernel⟩
    | json => exact ⟨.json .null, .json (.bool true), rfl, rfl, rfl⟩
    | uuid => exact ⟨.uuid 0, .uuid 1, rfl, rfl, rfl⟩
    | timestamptz => exact ⟨.time 0, .time 1, rfl, rfl, rfl⟩

/-- one column: the processes come by their names, last one first -/
theorem processes_by_name : OrdersTables orderedExternals ProcessDb.columns ProcessDb.nullable ["name desc"] :=
  (orders_tables_iff databaseOrder_orderedExternals ProcessDb.columns ProcessDb.nullable ["name desc"]
    (by decide +kernel)).2 <| by
    have hkeys : sortKeys ProcessDb.columns ["name desc"] = [("processes.name", .desc)] := by decide +kernel
    rw [hkeys]
    rintro _ ⟨⟩ _ ⟨⟩
    exact ⟨rfl, by simp⟩

def vmA : ProcessDb :=
  ⟨1, "a", .vm, "a.global", "node", 0, ⟨some 1, none, []⟩, rfl⟩

def cargoB : ProcessDb :=
  ⟨2, "b", .cargo, "b.global", "node", 0, ⟨some 2, none, []⟩, rfl⟩

def byKindAndName : GenericFilter := { GenericFilter.new with orderBy := some ["kind asc", "name asc"] }

/-- asked for by kind and then by name, the VM comes before the cargo -/
theorem vm_before_cargo :
    (∀ o ∈ ["kind asc", "name asc"], (sortKey ProcessDb.columns o).isSome) ∧
    (∃ query, genReadQuery orderedExternals ProcessDb.columns ProcessDb.toRow ProcessDb.newer byKindAndName = .ok query ∧
      query.run [cargoB, vmA] = [vmA, cargoB]) ∧
    ¬ OrdersTables orderedExternals ProcessDb.columns ProcessDb.nullable ["kind asc", "name asc"] := by
  have hk : ∀ o ∈ ["kind asc", "name asc"], (sortKey ProcessDb.columns o).isSome := by decide +kernel
  have hkeys : sortKeys ProcessDb.columns ["kind asc", "name asc"] =
      [("processes.kind", .asc), ("processes.name", .asc)] := by decide +kernel
  let query : Query ProcessDb :=
    { clause := none, le := fun a b => keyLe orderedExternals ("processes.name", .asc) a.toRow b.toRow,
      limit := some 100, offset := 0 }
  have hq : genReadQuery orderedExternals ProcessDb.columns ProcessDb.toRow ProcessDb.newer byKindAndName =
      .ok query := by
    simp only [genReadQuery, byKindAndName, GenericFilter.new, readOrder_known _ _ hk, hkeys, genSqlMultiple_default,
      Except.ok_bind]
    rfl
  have hrun : query.run [cargoB, vmA] = [vmA, cargoB] := by decide +kernel
  refine ⟨hk, ⟨query, hq, hrun⟩, fun h => ?_⟩
  have hrows := h ProcessDb ProcessDb.toRow ProcessDb.newer ProcessDb.typedRow byKindAndName rfl query hq [cargoB, vmA]
  rw [hrun, hkeys] at hrows
  have hpair := List.pairwise_pair.1 hrows
  revert hpair
  decide +kernel

end Nanocl
