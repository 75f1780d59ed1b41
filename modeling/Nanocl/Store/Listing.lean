/-
Listing and counting the cargoes and the VMs of a namespace (`repositories/cargo.rs`, `repositories/vm.rs`,
`services/cargo/count.rs`, `services/vm/count.rs`).

The daemon inserts `namespace_name = n` into the conditions of the filter a client sends; the `or` groups of the client
are attached with `or_filter`, so they are alternatives to the namespace condition as well.

Results:
- `namespace_isolated_iff`: the answers depend on the rows of namespace n alone exactly when the filter is refused or
  no `or` group of it accepts a row of another namespace.
- `foreign_cargo_counted`: one `or` group of a client is enough to count the cargoes of all namespaces.
-/
import Nanocl.Store.Process
import Nanocl.System.Event

namespace Nanocl.Listing

open Nanocl.Lib

/-! ## Tables -/

structure SpecDb where
  key : ℕ
  createdAt : ℤ
  kindName : String
  kindKey : String
  version : String
  data : Json
  metadata : Option Json

structure ObjPsStatusDb where
  key : String
  updatedAt : ℤ
  wanted : String
  prevWanted : String
  actual : String
  prevActual : String

/-- a row of `cargoes` or of `vms`: the two tables have the same columns -/
structure ObjectDb where
  key : String
  createdAt : ℤ
  name : String
  specKey : ℕ
  statusKey : String
  namespaceName : String

structure Store where
  namespaces : List String
  cargoes : List ObjectDb
  vms : List ObjectDb
  specs : List SpecDb
  statuses : List ObjPsStatusDb
  processes : List ProcessDb

/-- a row of the join of an object with its spec and its status -/
abbrev Joined := ObjectDb × SpecDb × ObjPsStatusDb

def Joined.nsp (r : Joined) : String := r.1.namespaceName

/-- `inner_join(specs).inner_join(object_process_statuses)` -/
def innerJoin (objects : List ObjectDb) (specs : List SpecDb) (statuses : List ObjPsStatusDb) : List Joined :=
  objects.flatMap fun o => (specs.filter fun s => s.key = o.specKey).flatMap fun s =>
    (statuses.filter fun st => st.key = o.statusKey).map fun st => (o, s, st)

/-- the columns of `specs` and of `object_process_statuses` that a filter can reach -/
def relationRow (s : SpecDb) (st : ObjPsStatusDb) : Row
  | "specs.created_at" => .time s.createdAt
  | "specs.data" => .json s.data
  | "specs.metadata" => (s.metadata.map .json).getD .null
  | "object_process_statuses.wanted" => .text st.wanted
  | "object_process_statuses.actual" => .text st.actual
  | _ => .null

/-- what the repository of a kind of object has of its own -/
structure Table where
  objects : Store → List ObjectDb
  /-- `get_columns` -/
  columns : Columns
  /-- the columns of the object itself -/
  objectRow : ObjectDb → String → Option Value
  nspColumn : String
  columns_nsp : columns.get "namespace_name" = some (.text, nspColumn)
  objectRow_nsp : ∀ o, objectRow o nspColumn = some (.text o.namespaceName)

/-- a joined row as the compiled predicates see it -/
def Table.toRow (T : Table) (r : Joined) : Row := fun column => (T.objectRow r.1 column).getD (relationRow r.2.1 r.2.2 column)

def cargoTable : Table where
  objects := Store.cargoes
  columns :=
    [("key", .text, "cargoes.key"), ("name", .text, "cargoes.name"),
     ("namespace_name", .text, "cargoes.namespace_name"), ("created_at", .timestamptz, "cargoes.created_at"),
     ("updated_at", .timestamptz, "specs.created_at"), ("data", .json, "specs.data"),
     ("metadata", .json, "specs.metadata"), ("status.wanted", .text, "object_process_statuses.wanted"),
     ("status.actual", .text, "object_process_statuses.actual")]
  objectRow o
    | "cargoes.key" => some (.text o.key)
    | "cargoes.name" => some (.text o.name)
    | "cargoes.namespace_name" => some (.text o.namespaceName)
    | "cargoes.created_at" => some (.time o.createdAt)
    | _ => none
  nspColumn := "cargoes.namespace_name"
  columns_nsp := by decide
  objectRow_nsp _ := rfl

def vmTable : Table where
  objects := Store.vms
  columns :=
    [("key", .text, "vms.key"), ("created_at", .timestamptz, "vms.created_at"), ("name", .text, "vms.name"),
     ("namespace_name", .text, "vms.namespace_name"), ("spec_key", .text, "vms.spec_key"),
     ("data", .json, "specs.data"), ("metadata", .json, "specs.metadata"),
     ("status.wanted", .text, "object_process_statuses.wanted"),
     ("status.actual", .text, "object_process_statuses.actual")]
  objectRow o
    | "vms.key" => some (.text o.key)
    | "vms.name" => some (.text o.name)
    | "vms.namespace_name" => some (.text o.namespaceName)
    | "vms.created_at" => some (.time o.createdAt)
    | "vms.spec_key" => some (.uuid o.specKey)
    | _ => none
  nspColumn := "vms.namespace_name"
  columns_nsp := by decide
  objectRow_nsp _ := rfl

/-- the type of a column in the schema of the database -/
def schemaType : String → ColumnType
  | "cargoes.created_at" | "vms.created_at" | "specs.created_at" => .timestamptz
  | "specs.data" | "specs.metadata" => .json
  | "vms.spec_key" => .uuid
  | _ => .text

/-! ## Reading -/

section

variable (E : Externals) {S : Type} (decode : Json → Option S)

/-- a clause that compares a column with a value -/
def GenericClause.compares : GenericClause → Bool
  | .isNull | .isNotNull | .contains _ | .hasKey _ => false
  | _ => true

/-- the database has no operator between two types: a column that is declared with another type than the schema gives
it (`spec_key` of a VM) cannot be compared -/
def checkOperators (columns : Columns) (filter : GenericFilter) : Except QueryError Unit :=
  let w := filter.clause.getD ⟨[], none⟩
  let mistyped (c : String × GenericClause) : Bool :=
    match columns.get c.1 with
    | none => false
    | some (type, column) => schemaType column ≠ type && GenericClause.compares c.2
  if w.conditions.any mistyped || (w.or.getD []).any fun g => g.any mistyped then
    throw "operator does not exist"
  else return ()

structure ObjPsStatus where
  updatedAt : ℤ
  wanted : ObjPsStatusKind
  prevWanted : ObjPsStatusKind
  actual : ObjPsStatusKind
  prevActual : ObjPsStatusKind

/-- `ObjPsStatus::try_from`; the parser of a status kind never fails -/
def ObjPsStatus.ofDb (s : ObjPsStatusDb) : ObjPsStatus :=
  ⟨s.updatedAt, .fromStr s.wanted, .fromStr s.prevWanted, .fromStr s.actual, .fromStr s.prevActual⟩

/-- `CargoSpec`, `VmSpec`: the columns of the row with the decoded data -/
structure Spec (S : Type) where
  key : ℕ
  kindKey : String
  version : String
  createdAt : ℤ
  metadata : Option Json
  data : S

/-- `try_to_cargo_spec`, `try_to_vm_spec` -/
def SpecDb.tryToSpec (s : SpecDb) : Except QueryError (Spec S) :=
  match decode s.data with
  | none => throw "invalid data"
  | some data => return ⟨s.key, s.kindKey, s.version, s.createdAt, s.metadata, data⟩

/-- `Cargo`, `Vm` -/
structure Object (S : Type) where
  namespaceName : String
  createdAt : ℤ
  spec : Spec S
  status : ObjPsStatus

/-- `transform` -/
def transform (r : Joined) : Except QueryError (Object S) := do
  let spec ← r.2.1.tryToSpec decode
  return ⟨r.1.namespaceName, r.1.createdAt, spec, .ofDb r.2.2⟩

/-- `created_at.desc()` -/
def newer (a b : Joined) : Bool := b.1.createdAt ≤ a.1.createdAt

/-- the rows a read or a count starts from -/
def Table.rows (T : Table) (s : Store) : List Joined := innerJoin (T.objects s) s.specs s.statuses

def Table.transformReadBy (T : Table) (filter : GenericFilter) (s : Store) : Except QueryError (List (Object S)) := do
  let query ← genReadQuery E T.columns T.toRow newer filter
  checkOperators T.columns filter
  (query.run (T.rows s)).mapM (transform decode)

def Table.countBy (T : Table) (filter : GenericFilter) (s : Store) : Except QueryError ℕ := do
  let clause ← genSqlQuery E T.columns filter
  checkOperators T.columns filter
  return ((T.rows s).filter fun r => clause.sat (T.toRow r)).length

/-- `SpecDb::read_by_pk` -/
def SpecDb.readByPk (s : Store) (key : ℕ) : Except QueryError SpecDb :=
  match s.specs.find? fun spec => spec.key = key with
  | none => throw "Spec not found"
  | some spec => return spec

/-- `NamespaceDb::read_by_pk` -/
def readNamespace (s : Store) (name : String) : Except QueryError Unit :=
  if name ∈ s.namespaces then return () else throw "Namespace not found"

/-- `CargoSummary`, `VmSummary` -/
structure Summary (S : Type) where
  createdAt : ℤ
  status : ObjPsStatus
  namespaceName : String
  instanceTotal : ℕ
  instanceRunning : ℕ
  spec : Spec S

/-- the summary of one object, with the processes that pass the filter -/
def summarize (processFilter : Option GenericFilter) (s : Store) (o : Object S) : Except QueryError (Summary S) := do
  let spec ← (← SpecDb.readByPk s o.spec.key).tryToSpec decode
  let processes ← ProcessDb.readByKindKey E o.spec.kindKey processFilter s.processes
  match countStatus processes with
  | none => throw "called Option::unwrap() on a None value"
  | some (_, _, _, running) => return ⟨o.createdAt, o.status, o.namespaceName, processes.length, running, spec⟩

structure GenericFilterNsp where
  filter : Option GenericFilter
  nsp : Option String

/-- `resolve_nsp` -/
def resolveNsp (nsp : Option String) : String := nsp.getD "global"

/-- the filter of the client with the condition on the namespace -/
def GenericFilterNsp.inNamespace (q : GenericFilterNsp) : GenericFilter :=
  (q.filter.getD .new).where "namespace_name" (.eq (resolveNsp q.nsp))

/-- `CargoDb::list` and `VmDb::list`, which differ in the table and in the filter on the processes -/
def Table.list (T : Table) (processFilter : Option GenericFilter) (q : GenericFilterNsp) (s : Store) :
    Except QueryError (List (Summary S)) := do
  readNamespace s (resolveNsp q.nsp)
  let objects ← T.transformReadBy E decode q.inNamespace s
  objects.mapM (summarize E decode processFilter s)

def listCargo (q : GenericFilterNsp) (s : Store) : Except QueryError (List (Summary S)) :=
  cargoTable.list E decode (some (ProcessDb.labelFilter ProcessDb.notInitC)) q s

def listVm (q : GenericFilterNsp) (s : Store) : Except QueryError (List (Summary S)) :=
  vmTable.list E decode none q s

def countCargo (q : GenericFilterNsp) (s : Store) : Except QueryError ℕ := cargoTable.countBy E q.inNamespace s

def countVm (q : GenericFilterNsp) (s : Store) : Except QueryError ℕ := vmTable.countBy E q.inNamespace s

end

/-! ## Isolation -/

/-- the stores have the same objects in namespace n, with the same specs, statuses and processes -/
structure AgreeOn (T : Table) (n : String) (s t : Store) : Prop where
  nsp : n ∈ s.namespaces ↔ n ∈ t.namespaces
  objects : ((T.objects s).filter fun o => o.namespaceName = n) = (T.objects t).filter fun o => o.namespaceName = n
  specs : ∀ o ∈ T.objects s, o.namespaceName = n →
    (s.specs.filter fun spec => spec.key = o.specKey) = t.specs.filter fun spec => spec.key = o.specKey
  statuses : ∀ o ∈ T.objects s, o.namespaceName = n →
    (s.statuses.filter fun st => st.key = o.statusKey) = t.statuses.filter fun st => st.key = o.statusKey
  processes : ∀ r ∈ T.rows s, r.nsp = n →
    (s.processes.filter fun p => p.kindKey = r.2.1.kindKey) = t.processes.filter fun p => p.kindKey = r.2.1.kindKey

/-- a listing and a count with the namespace n tell nothing about the other namespaces -/
structure Isolated (T : Table) {S : Type} (list : Store → Except QueryError (List (Summary S)))
    (count : Store → Except QueryError ℕ) (n : String) : Prop where
  list_eq : ∀ s t, AgreeOn T n s t → list s = list t
  count_eq : ∀ s t, AgreeOn T n s t → count s = count t
  own : ∀ s summaries, list s = .ok summaries → ∀ x ∈ summaries, x.namespaceName = n

/-- the query is refused, or no `or` group of the client accepts a row of another namespace -/
def Confined (E : Externals) (T : Table) (q : GenericFilterNsp) : Prop :=
  ∀ clause, genSqlQuery E T.columns q.inNamespace = .ok clause → checkOperators T.columns q.inNamespace = .ok () →
    ∀ group ∈ ((q.filter.getD .new).clause.getD ⟨[], none⟩).or.getD [],
      ∀ p, genSqlOrGroup E T.columns group = .ok p → ∀ r : Joined, p (T.toRow r) = true → r.nsp = resolveNsp q.nsp

section

variable (E : Externals) {S : Type} (decode : Json → Option S)

@[simp] theorem or_inNamespace (q : GenericFilterNsp) :
    (q.inNamespace.clause.getD ⟨[], none⟩).or = ((q.filter.getD .new).clause.getD ⟨[], none⟩).or := rfl

theorem mem_conditions_inNamespace (q : GenericFilterNsp) :
    ("namespace_name", GenericClause.eq (resolveNsp q.nsp)) ∈ (q.inNamespace.clause.getD ⟨[], none⟩).conditions :=
  Conditions.mem_insert _ _ _

/-- what the compiled clause accepts: rows of the namespace, and what a group accepts -/
theorem sat_inNamespace {T : Table} {q : GenericFilterNsp} {clause : Where Row}
    (h : genSqlQuery E T.columns q.inNamespace = .ok clause) (r : Joined) (hr : clause.sat (T.toRow r) = true) :
    r.nsp = resolveNsp q.nsp ∨ ∃ group ∈ ((q.filter.getD .new).clause.getD ⟨[], none⟩).or.getD [],
      ∃ p, genSqlOrGroup E T.columns group = .ok p ∧ p (T.toRow r) = true := by
  obtain ⟨base, ps, hbase, hps, rfl⟩ := (genSqlQuery_eq_ok_iff E).1 h
  obtain ⟨hsome, hsat⟩ := sat_conditions E hbase (mem_conditions_inNamespace q) T.columns_nsp rfl
  rw [Where.sat_orFilters hsome, Bool.or_eq_true] at hr
  rcases hr with hr | hr
  · have := hsat _ hr
    rw [Table.toRow, T.objectRow_nsp] at this
    exact Or.inl (by simpa [onText, Joined.nsp] using this)
  · obtain ⟨p, hp, hpr⟩ := List.any_eq_true.1 hr
    rw [or_inNamespace] at hps
    obtain ⟨group, hg, hgp⟩ := exists_of_mem_mapM hps hp
    exact Or.inr ⟨group, hg, p, hgp, hpr⟩

/-- what a group accepts, the compiled clause accepts -/
theorem sat_of_group {T : Table} {q : GenericFilterNsp} {clause : Where Row}
    (h : genSqlQuery E T.columns q.inNamespace = .ok clause) {group : Conditions}
    (hg : group ∈ ((q.filter.getD .new).clause.getD ⟨[], none⟩).or.getD []) {p : Row → Bool}
    (hp : genSqlOrGroup E T.columns group = .ok p) {row : Row} (hr : p row = true) : clause.sat row = true := by
  obtain ⟨base, ps, hbase, hps, rfl⟩ := (genSqlQuery_eq_ok_iff E).1 h
  obtain ⟨hsome, -⟩ := sat_conditions E hbase (mem_conditions_inNamespace q) T.columns_nsp rfl
  rw [or_inNamespace] at hps
  obtain ⟨p', hp', hgp⟩ := exists_mem_of_mapM hps hg
  obtain rfl := Except.ok.inj (hgp.symm.trans hp)
  rw [Where.sat_orFilters hsome, Bool.or_eq_true]
  exact Or.inr (List.any_eq_true.2 ⟨p', hp', hr⟩)

/-! ### The join of a namespace -/

/-- the join of the objects of a namespace is the part of the join in that namespace -/
theorem innerJoin_filter (n : String) (objects : List ObjectDb) (specs : List SpecDb) (statuses : List ObjPsStatusDb) :
    ((innerJoin objects specs statuses).filter fun r => r.nsp = n) =
      innerJoin (objects.filter fun o => o.namespaceName = n) specs statuses := by
  induction objects with
  | nil => rfl
  | cons o objects ih =>
    have hcons : ∀ os : List ObjectDb, innerJoin (o :: os) specs statuses =
        innerJoin [o] specs statuses ++ innerJoin os specs statuses := by
      intro os
      simp [innerJoin]
    have hnsp : ∀ r ∈ innerJoin [o] specs statuses, r.nsp = o.namespaceName := by
      intro r hr
      simp only [innerJoin, List.flatMap_cons, List.flatMap_nil, List.append_nil, List.mem_flatMap, List.mem_map] at hr
      obtain ⟨_, _, _, _, rfl⟩ := hr
      rfl
    rw [hcons, List.filter_append, ih]
    by_cases ho : o.namespaceName = n
    · have hall : ((innerJoin [o] specs statuses).filter fun r => r.nsp = n) = innerJoin [o] specs statuses :=
        List.filter_eq_self.2 fun r hr => by simpa [hnsp r hr] using ho
      rw [List.filter_cons_of_pos (by simpa using ho), hcons (objects.filter _), hall]
    · have hnone : ((innerJoin [o] specs statuses).filter fun r => r.nsp = n) = [] :=
        List.filter_eq_nil_iff.2 fun r hr => by simpa [hnsp r hr] using ho
      rw [List.filter_cons_of_neg (by simpa using ho), hnone, List.nil_append]

theorem AgreeOn.rows {T : Table} {n : String} {s t : Store} (h : AgreeOn T n s t) :
    ((T.rows s).filter fun r => r.nsp = n) = (T.rows t).filter fun r => r.nsp = n := by
  simp only [Table.rows, innerJoin_filter, ← h.objects]
  unfold innerJoin
  refine List.flatMap_congr fun o ho => ?_
  obtain ⟨ho, hn⟩ := List.mem_filter.1 ho
  simp only [decide_eq_true_eq] at hn
  rw [h.specs o ho hn, h.statuses o ho hn]

/-- the spec of a joined row is the one its object refers to -/
theorem Table.mem_rows {T : Table} {s : Store} {r : Joined} (h : r ∈ T.rows s) :
    r.1 ∈ T.objects s ∧ r.2.1 ∈ s.specs ∧ r.2.1.key = r.1.specKey := by
  simp only [rows, innerJoin, List.mem_flatMap, List.mem_map, List.mem_filter, decide_eq_true_eq] at h
  obtain ⟨o, ho, spec, ⟨hs, hk⟩, st, -, rfl⟩ := h
  exact ⟨ho, hs, hk⟩

/-! ### Reading one namespace -/

theorem readSpec_congr {T : Table} {n : String} {s t : Store} (h : AgreeOn T n s t) {r : Joined} (hr : r ∈ T.rows s)
    (hn : r.nsp = n) : SpecDb.readByPk s r.2.1.key = SpecDb.readByPk t r.2.1.key := by
  obtain ⟨ho, -, hk⟩ := Table.mem_rows hr
  have := h.specs r.1 ho hn
  simp only [SpecDb.readByPk, hk, ← List.head?_filter, this]

theorem readByKindKey_congr {processFilter : Option GenericFilter} {k : String} {ps qs : List ProcessDb}
    (hp : processFilter = none ∨ ∃ label, processFilter = some (ProcessDb.labelFilter label))
    (h : (ps.filter fun p => p.kindKey = k) = qs.filter fun p => p.kindKey = k) :
    ProcessDb.readByKindKey E k processFilter ps = ProcessDb.readByKindKey E k processFilter qs := by
  rcases hp with rfl | ⟨label, rfl⟩
  · rw [ProcessDb.readByKindKey_none, ProcessDb.readByKindKey_none, h]
  · simp only [ProcessDb.readByKindKey_label, ← List.filter_filter, h]

theorem transform_eq_ok {r : Joined} {o : Object S} (h : transform decode r = .ok o) :
    o.namespaceName = r.nsp ∧ o.spec.key = r.2.1.key ∧ o.spec.kindKey = r.2.1.kindKey := by
  unfold transform SpecDb.tryToSpec at h
  cases hd : decode r.2.1.data with
  | none => simp [hd] at h
  | some d =>
    simp only [hd, Except.pure_eq_ok, Except.ok_bind, Except.ok.injEq] at h
    subst h
    exact ⟨rfl, rfl, rfl⟩

/-- a confined query accepts rows of its namespace only -/
theorem Confined.sat {T : Table} {q : GenericFilterNsp} (hc : Confined E T q) {clause : Where Row}
    (h : genSqlQuery E T.columns q.inNamespace = .ok clause) (hops : checkOperators T.columns q.inNamespace = .ok ())
    (r : Joined) (hr : clause.sat (T.toRow r) = true) : r.nsp = resolveNsp q.nsp := by
  rcases sat_inNamespace E h r hr with hn | ⟨group, hg, p, hp, hpr⟩
  · exact hn
  · exact hc clause h hops group hg p hp r hpr

/-- the clause of a read is the compiled filter -/
theorem genReadQuery_clause {columns : Columns} {toRow : Joined → Row} {filter : GenericFilter} {query : Query Joined}
    (h : genReadQuery E columns toRow newer filter = .ok query) :
    ∃ clause, genSqlQuery E columns filter = .ok clause ∧ ∀ r, query.clause.sat r = clause.sat (toRow r) := by
  unfold genReadQuery at h
  simp only [Except.bind_eq_ok_iff, Except.pure_eq_ok, Except.ok.injEq] at h
  obtain ⟨clause, hc, le, -, limits, -, rfl⟩ := h
  refine ⟨clause, hc, fun r => ?_⟩
  cases clause <;> rfl

/-- a listing has rows of its namespace only -/
theorem Table.own_list {T : Table} {q : GenericFilterNsp} (hc : Confined E T q) {processFilter : Option GenericFilter}
    {s : Store} {summaries : List (Summary S)} (h : T.list E decode processFilter q s = .ok summaries) :
    ∀ x ∈ summaries, x.namespaceName = resolveNsp q.nsp := by
  simp only [list, transformReadBy, Except.bind_eq_ok_iff] at h
  obtain ⟨_, -, objects, ⟨query, hq, _, hops, hobj⟩, h⟩ := h
  obtain ⟨clause, hcl, hsat⟩ := genReadQuery_clause E hq
  intro x hx
  obtain ⟨o, ho, hxo⟩ := exists_of_mem_mapM h hx
  obtain ⟨r, hr, hro⟩ := exists_of_mem_mapM hobj ho
  have hn := hc.sat E hcl hops r (hsat r ▸ (Query.mem_of_mem_run hr).2)
  rw [← hn, ← (transform_eq_ok decode hro).1]
  simp only [summarize, Except.bind_eq_ok_iff] at hxo
  obtain ⟨_, -, _, -, processes, -, hxo⟩ := hxo
  split at hxo
  · cases hxo
  · exact Except.ok.inj hxo ▸ rfl

/-- a listing reads the rows of its namespace only -/
theorem Table.list_congr {T : Table} {q : GenericFilterNsp} (hc : Confined E T q)
    {processFilter : Option GenericFilter}
    (hp : processFilter = none ∨ ∃ label, processFilter = some (ProcessDb.labelFilter label)) {s t : Store}
    (hst : AgreeOn T (resolveNsp q.nsp) s t) :
    T.list E decode processFilter q s = T.list E decode processFilter q t := by
  have hnsp : readNamespace s (resolveNsp q.nsp) = readNamespace t (resolveNsp q.nsp) := by
    simp only [readNamespace, hst.nsp]
  unfold list transformReadBy
  rw [hnsp]
  refine congrArg _ (funext fun _ => ?_)
  cases hq : genReadQuery E T.columns T.toRow newer q.inNamespace with
  | error e => rfl
  | ok query =>
    cases hops : checkOperators T.columns q.inNamespace with
    | error e => rfl
    | ok u =>
      obtain ⟨clause, hcl, hsat⟩ := genReadQuery_clause E hq
      have hrun : query.run (T.rows s) = query.run (T.rows t) :=
        query.run_congr (fun r => r.nsp = resolveNsp q.nsp)
          (fun r hr => decide_eq_true (hc.sat E hcl hops r (hsat r ▸ hr))) hst.rows
      simp only [Except.ok_bind, ← hrun]
      cases hobj : (query.run (T.rows s)).mapM (transform decode) with
      | error e => rfl
      | ok objects =>
        simp only [Except.ok_bind]
        refine mapM_congr fun o ho => ?_
        obtain ⟨r, hr, hro⟩ := exists_of_mem_mapM hobj ho
        obtain ⟨hmem, hacc⟩ := Query.mem_of_mem_run hr
        have hn := hc.sat E hcl hops r (hsat r ▸ hacc)
        obtain ⟨-, hkey, hkind⟩ := transform_eq_ok decode hro
        unfold summarize
        rw [hkey, hkind, readSpec_congr hst hmem hn, readByKindKey_congr E hp (hst.processes r hmem hn)]

/-- a count reads the rows of its namespace only -/
theorem Table.countBy_congr {T : Table} {q : GenericFilterNsp} (hc : Confined E T q) {s t : Store}
    (hst : AgreeOn T (resolveNsp q.nsp) s t) : T.countBy E q.inNamespace s = T.countBy E q.inNamespace t := by
  unfold countBy
  cases hcl : genSqlQuery E T.columns q.inNamespace with
  | error e => rfl
  | ok clause =>
    cases hops : checkOperators T.columns q.inNamespace with
    | error e => rfl
    | ok u =>
      have hf : ∀ l : List Joined, (l.filter fun r => clause.sat (T.toRow r)) =
          ((l.filter fun r => r.nsp = resolveNsp q.nsp).filter fun r => clause.sat (T.toRow r)) := by
        intro l
        rw [List.filter_filter]
        refine List.filter_congr fun r _ => ?_
        cases hr : clause.sat (T.toRow r) with
        | false => simp
        | true => simp [hc.sat E hcl hops r hr]
      simp only [Except.ok_bind]
      rw [hf, hst.rows, ← hf]

/-! ### When a group accepts a foreign row -/

/-- the row with the keys of its relations set as its object refers to them -/
def Joined.linked (r : Joined) : Joined := (r.1, { r.2.1 with key := r.1.specKey }, { r.2.2 with key := r.1.statusKey })

theorem Table.toRow_linked (T : Table) (r : Joined) : T.toRow r.linked = T.toRow r := rfl

def emptyStore (n : String) : Store := ⟨[n], [], [], [], [], []⟩

/-- a store whose only row is the given one, in a namespace of its own -/
def singleStore (n : String) (r : Joined) : Store := ⟨[n, r.nsp], [r.1], [r.1], [r.linked.2.1], [r.linked.2.2], []⟩

theorem rows_emptyStore {T : Table} (hT : T.objects = Store.cargoes ∨ T.objects = Store.vms) (n : String) :
    T.rows (emptyStore n) = [] := by
  rcases hT with h | h <;> simp [Table.rows, h, emptyStore, innerJoin]

theorem rows_singleStore {T : Table} (hT : T.objects = Store.cargoes ∨ T.objects = Store.vms) (n : String)
    (r : Joined) : T.rows (singleStore n r) = [r.linked] := by
  rcases hT with h | h <;> simp [Table.rows, h, singleStore, innerJoin, Joined.linked]

/-- a row of another namespace does not tell the two stores apart in namespace n -/
theorem agreeOn_foreign {T : Table} (hT : T.objects = Store.cargoes ∨ T.objects = Store.vms) {n : String} {r : Joined}
    (hr : r.nsp ≠ n) : AgreeOn T n (emptyStore n) (singleStore n r) := by
  have hobj : T.objects (emptyStore n) = [] := by
    rcases hT with h | h <;> rw [h] <;> rfl
  have hobj' : T.objects (singleStore n r) = [r.1] := by
    rcases hT with h | h <;> rw [h] <;> rfl
  refine ⟨by simp [emptyStore, singleStore], ?_, ?_, ?_, ?_⟩
  · rw [hobj, hobj', List.filter_cons_of_neg (by simpa [Joined.nsp] using hr)]
  · simp [hobj]
  · simp [hobj]
  · simp [rows_emptyStore hT]

/-- the count of a query that is not confined sees a foreign row -/
theorem confined_of_count {T : Table} (hT : T.objects = Store.cargoes ∨ T.objects = Store.vms) {q : GenericFilterNsp}
    (h : ∀ s t, AgreeOn T (resolveNsp q.nsp) s t → T.countBy E q.inNamespace s = T.countBy E q.inNamespace t) :
    Confined E T q := by
  intro clause hcl hops group hg p hp r hpr
  by_contra hr
  have hsat : clause.sat (T.toRow r) = true := sat_of_group E hcl hg hp hpr
  have := h _ _ (agreeOn_foreign hT hr)
  simp [Table.countBy, hcl, hops, rows_emptyStore hT, rows_singleStore hT, Table.toRow_linked, hsat] at this

theorem Table.isolated_iff {T : Table} (hT : T.objects = Store.cargoes ∨ T.objects = Store.vms) (q : GenericFilterNsp)
    {processFilter : Option GenericFilter}
    (hp : processFilter = none ∨ ∃ label, processFilter = some (ProcessDb.labelFilter label)) :
    Isolated T (T.list E decode processFilter q) (T.countBy E q.inNamespace) (resolveNsp q.nsp) ↔ Confined E T q :=
  ⟨fun h => confined_of_count E hT h.count_eq,
   fun hc => ⟨fun _ _ => T.list_congr E decode hc hp, fun _ _ => T.countBy_congr E hc,
     fun _ _ => T.own_list E decode hc⟩⟩

end

/-- **Namespace isolation.** Listing and counting the cargoes (the VMs) of a namespace answers from the rows of that
namespace alone exactly when the query is refused or no `or` group of the client accepts a row of another one. -/
theorem namespace_isolated_iff (E : Externals) {S : Type} (decode : Json → Option S) (q : GenericFilterNsp) :
    (Isolated cargoTable (listCargo E decode q) (countCargo E q) (resolveNsp q.nsp) ↔ Confined E cargoTable q) ∧
    (Isolated vmTable (listVm E decode q) (countVm E q) (resolveNsp q.nsp) ↔ Confined E vmTable q) :=
  ⟨cargoTable.isolated_iff E decode (Or.inl rfl) q (Or.inr ⟨_, rfl⟩),
   vmTable.isolated_iff E decode (Or.inr rfl) q (Or.inl rfl)⟩

/-- `{"where": {"or": [{"name": {"eq": "web"}}]}}` in namespace `tenant` -/
def webOfAnyone : GenericFilterNsp where
  filter := some { GenericFilter.new with clause := some ⟨[], some [[("name", .eq "web")]]⟩ }
  nsp := some "tenant"

/-- a cargo `web` of the namespace `other` -/
def otherWeb : Joined :=
  (⟨"web.other", 0, "web", 1, "web.other", "other"⟩, ⟨1, 0, "Cargo", "web.other", "v1", .null, none⟩,
   ⟨"web.other", 0, "start", "create", "start", "create"⟩)

/-- one `or` group is enough to count a cargo of another namespace -/
theorem foreign_cargo_counted :
    ¬ Isolated cargoTable (listCargo plainExternals (fun _ => some ()) webOfAnyone) (countCargo plainExternals webOfAnyone)
      (resolveNsp webOfAnyone.nsp) := by
  intro h
  have hagree : AgreeOn cargoTable "tenant" (emptyStore "tenant") (singleStore "tenant" otherWeb) :=
    agreeOn_foreign (Or.inl rfl) (by decide)
  have hcount := h.count_eq _ _ hagree
  have h0 : countCargo plainExternals webOfAnyone (emptyStore "tenant") = .ok 0 := by decide
  have h1 : countCargo plainExternals webOfAnyone (singleStore "tenant" otherWeb) = .ok 1 := by decide
  rw [h0, h1] at hcount
  cases hcount

end Nanocl.Listing
